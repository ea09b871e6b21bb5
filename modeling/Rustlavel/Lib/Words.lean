/-
  The words of a text: its longest stretches without a separator. Words that are written one after the other,
  with a separator between them, are read back.
-/

import Mathlib

namespace Words

open List

variable {α : Type} (sep : α → Bool)

/-- The words of a text; separators beside each other, and at the ends, leave nothing between them. -/
def words (text : List α) : List (List α) := (text.splitOnP sep).filter (!·.isEmpty)

def IsWord (w : List α) : Prop := w ≠ [] ∧ ∀ x ∈ w, sep x = false

variable {sep} {ws : List (List α)} {text w : List α}

theorem sep_of_mem_splitOnP (hw : w ∈ text.splitOnP sep) : ∀ x ∈ w, sep x = false := by
  induction text generalizing w with
  | nil =>
    rw [splitOnP_nil, mem_singleton] at hw
    rw [hw]
    exact nofun
  | cons y text ih =>
    rw [splitOnP_cons_eq_if_modifyHead] at hw
    split at hw
    · rcases mem_cons.mp hw with rfl | hw
      · exact nofun
      · exact ih hw
    · rename_i hy
      cases hrest : text.splitOnP sep with
      | nil =>
        rw [hrest] at hw
        cases hw
      | cons v =>
        rw [hrest] at ih hw
        rcases mem_cons.mp hw with rfl | hw
        · rintro x (_ | ⟨_, hx⟩)
          · exact Bool.not_eq_true _ ▸ hy
          · exact ih mem_cons_self x hx
        · exact ih (mem_cons_of_mem v hw)

theorem isWord_of_mem_words (hw : w ∈ words sep text) : IsWord sep w := by
  obtain ⟨hpiece, hne⟩ := mem_filter.mp hw
  refine ⟨?_, sep_of_mem_splitOnP hpiece⟩
  rintro rfl
  cases hne

theorem filter_of_isWord (hws : ∀ w ∈ ws, IsWord sep w) : ws.filter (!·.isEmpty) = ws := by
  refine filter_eq_self.mpr fun w hw => ?_
  obtain ⟨hne, -⟩ := hws w hw
  cases w with
  | nil => exact absurd rfl hne
  | cons => rfl

theorem words_intercalate {s : α} (hs : sep s = true)
    (hws : ∀ w ∈ ws, IsWord sep w) : words sep ([s].intercalate ws) = ws := by
  induction ws with
  | nil => rfl
  | cons w ws ih =>
    have hw := hws w mem_cons_self
    have hrest : ∀ v ∈ ws, IsWord sep v := fun v hv => hws v (mem_cons_of_mem w hv)
    cases ws with
    | nil =>
      unfold words
      rw [intercalate_singleton, splitOnP_eq_singleton hw.2]
      exact filter_of_isWord hws
    | cons =>
      have hread := ih hrest
      unfold words at hread ⊢
      rw [intercalate_cons_cons, append_assoc, singleton_append,
        splitOnP_append_cons_of_forall_mem hw.2 s hs, filter_cons_of_pos, hread]
      cases w with
      | nil => exact absurd rfl hw.1
      | cons => rfl

/-- A letter, written once more than `n` times. -/
def unary (c : Char) (n : Nat) : String := String.ofList (List.replicate (n + 1) c)

theorem unary_injective (c : Char) : Function.Injective (unary c) := by
  intro m n h
  have hlength := congrArg List.length (String.ofList_injective h)
  simpa using hlength

end Words
