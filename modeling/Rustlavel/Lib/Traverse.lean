/-
  Reading a list item by item, where any item may fail. A list that was read was read item by item.
-/

import Mathlib

namespace Traverse

open List

variable {α β ε : Type} {f : α → Except ε β} {ys : List β} {xs : List α}

theorem bind_eq_ok {x : Except ε α} {b : β} : (x >>= f) = .ok b ↔ ∃ a, x = .ok a ∧ f a = .ok b := by
  cases x with
  | error => exact ⟨nofun, nofun⟩
  | ok a => exact ⟨fun h => ⟨a, rfl, h⟩, fun ⟨_, ha, h⟩ => by cases ha; exact h⟩

theorem forall₂_of_mapM_some {f : α → Option β}
    (h : xs.mapM f = some ys) : List.Forall₂ (fun x y => f x = some y) xs ys := by
  induction xs generalizing ys with
  | nil =>
    cases h
    exact .nil
  | cons x xs ih =>
    rw [mapM_cons] at h
    obtain ⟨_, hy, h⟩ := Option.bind_eq_some_iff.mp h
    obtain ⟨_, hys, h⟩ := Option.bind_eq_some_iff.mp h
    cases h
    exact .cons hy (ih hys)

theorem forall₂_of_mapM_ok (h : xs.mapM f = .ok ys) : List.Forall₂ (fun x y => f x = .ok y) xs ys := by
  induction xs generalizing ys with
  | nil =>
    cases h
    exact .nil
  | cons x xs ih =>
    rw [mapM_cons] at h
    obtain ⟨_, hy, h⟩ := bind_eq_ok.mp h
    obtain ⟨_, hys, h⟩ := bind_eq_ok.mp h
    cases h
    exact .cons hy (ih hys)

theorem eq_map_of_mapM_ok {g : α → β}
    (h : xs.mapM f = .ok ys) (hf : ∀ x y, f x = .ok y → y = g x) : ys = xs.map g := by
  have hread := forall₂_of_mapM_ok h
  clear h
  induction hread with
  | nil => rfl
  | cons hxy _ ih => rw [map_cons, hf _ _ hxy, ih]

/-! ## Two computations -/

section

variable {α' β' γ : Type} {R : α → β → Prop} {S : α' → β' → Prop}

def Agree (R : α → β → Prop) : Except ε α → Except ε β → Prop
  | .ok a, .ok b => R a b
  | .error e, .error e' => e = e'
  | _, _ => False

variable {x : Except ε α} {y : Except ε β} {f : γ → Except ε α} {g : γ → Except ε β}

theorem Agree.ends (h : Agree R x y) : (∃ e, x = .error e ∧ y = .error e) ∨ ∃ a b, x = .ok a ∧ y = .ok b ∧ R a b := by
  cases x with
  | error e =>
    cases y with
    | error => exact .inl ⟨e, rfl, congrArg _ (Eq.symm h)⟩
    | ok => exact h.elim
  | ok a =>
    cases y with
    | error => exact h.elim
    | ok b => exact .inr ⟨a, b, rfl, rfl, h⟩

theorem Agree.bind {f : α → Except ε α'} {g : β → Except ε β'}
    (h : Agree R x y) (hf : ∀ a b, R a b → Agree S (f a) (g b)) : Agree S (x >>= f) (y >>= g) := by
  obtain ⟨_, rfl, rfl⟩ | ⟨a, b, rfl, rfl, hab⟩ := h.ends
  · rfl
  · exact hf a b hab

theorem Agree.same (x : Except ε γ) (h : ∀ c, Agree R (f c) (g c)) : Agree R (x >>= f) (x >>= g) := by
  cases x with
  | error => rfl
  | ok c => exact h c

theorem Agree.mapM (h : ∀ c, Agree R (f c) (g c)) (cs : List γ) : Agree (List.Forall₂ R) (cs.mapM f) (cs.mapM g) := by
  induction cs with
  | nil => exact .nil
  | cons c cs ih =>
    rw [mapM_cons, mapM_cons]
    exact (h c).bind fun a b hab => ih.bind fun as bs hs => .cons hab hs

theorem Agree.map_eq (h : Agree R x y) {f : α → γ} {g : β → γ}
    (hf : ∀ a b, R a b → f a = g b) : x.map f = y.map g := by
  obtain ⟨_, rfl, rfl⟩ | ⟨a, b, rfl, rfl, hab⟩ := h.ends
  · rfl
  · exact congrArg _ (hf a b hab)

theorem Agree.of_ok {a : α} (h : Agree R (.ok a) y) : ∃ b, y = .ok b ∧ R a b := by
  cases y with
  | error => exact h.elim
  | ok b => exact ⟨b, rfl, h⟩

end

variable {R : α → β → Prop} {xs : List α} {ys : List β}

theorem exists_right (h : List.Forall₂ R xs ys) {x : α} (hx : x ∈ xs) : ∃ y ∈ ys, R x y := by
  induction h with
  | nil => exact absurd hx not_mem_nil
  | @cons a b as bs hab _ ih =>
    rcases mem_cons.mp hx with rfl | hx
    · exact ⟨b, mem_cons_self .., hab⟩
    · obtain ⟨y, hy, hxy⟩ := ih hx
      exact ⟨y, mem_cons_of_mem _ hy, hxy⟩

theorem exists_left (h : List.Forall₂ R xs ys) {y : β} (hy : y ∈ ys) : ∃ x ∈ xs, R x y := exists_right h.flip hy

end Traverse
