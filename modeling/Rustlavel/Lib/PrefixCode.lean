/-
  Words that can be told apart when they are written one after the other: no word is the beginning of another.
  Words that end with a mark no word contains are such a code.
-/

import Mathlib

variable {α β : Type}

def PrefixFree (f : α → List β) : Prop := ∀ a b, f a <+: f b → a = b

namespace PrefixFree

open List

variable {f : α → List β}

theorem append_inj (h : PrefixFree f) {a b : α} {x y : List β} (heq : f a ++ x = f b ++ y) : a = b ∧ x = y := by
  have hab : a = b := by
    have hfa : f a <+: f b ++ y := heq ▸ prefix_append (f a) x
    rcases prefix_or_prefix_of_prefix hfa (prefix_append (f b) y) with hpre | hpre
    · exact h a b hpre
    · exact (h b a hpre).symm
  subst hab
  exact ⟨rfl, append_cancel_left heq⟩

theorem flatMap_inj (h : PrefixFree f) (hne : ∀ a, f a ≠ []) {xs ys : List α}
    (heq : xs.flatMap f = ys.flatMap f) : xs = ys := by
  induction xs generalizing ys with
  | nil =>
    cases ys with
    | nil => rfl
    | cons y =>
      exact absurd (append_eq_nil_iff.mp heq.symm).1 (hne y)
  | cons x xs ih =>
    cases ys with
    | nil =>
      exact absurd (append_eq_nil_iff.mp heq).1 (hne x)
    | cons =>
      obtain ⟨rfl, hrest⟩ := h.append_inj heq
      rw [ih hrest]

theorem of_mark {f : α → List β} (hinj : ∀ a b, f a = f b → a = b) {m : β} (hm : ∀ a, m ∉ f a) :
    PrefixFree fun a => f a ++ [m] := by
  intro a b hpre
  obtain ⟨_, hrest⟩ := hpre
  rw [append_assoc] at hrest
  refine hinj a b ?_
  -- the first mark ends the word
  rcases append_eq_append_iff.mp hrest with ⟨u, hu, hv⟩ | ⟨u, hu, hv⟩
  · cases u with
    | nil => rw [hu, append_nil]
    | cons z =>
      have hz : m = z := (List.cons.inj hv).1
      exact absurd (hu ▸ hz ▸ mem_append_right _ mem_cons_self) (hm b)
  · cases u with
    | nil => rw [hu, append_nil]
    | cons z =>
      have hz : m = z := (List.cons.inj hv).1
      exact absurd (hu ▸ hz ▸ mem_append_right _ mem_cons_self) (hm a)

end PrefixFree
