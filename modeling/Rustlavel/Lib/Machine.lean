/-
  Machines that answer every input, run over lists of inputs. A guard is a condition on the state before a step;
  a run is guarded if every step of it is.
-/

import Mathlib

/-- A machine with states `σ` that answers an input `ι` with an output `ο`. -/
structure Machine (σ ι ο : Type) where
  step : σ → ι → σ × ο

namespace Machine

variable {σ τ ι ο : Type} (M : Machine σ ι ο) (N : Machine τ ι ο)

def after (s : σ) : List ι → σ
  | [] => s
  | i :: is => after (M.step s i).1 is

def outputs (s : σ) : List ι → List ο
  | [] => []
  | i :: is => (M.step s i).2 :: outputs (M.step s i).1 is

def Guarded (G : σ → ι → Prop) (s : σ) : List ι → Prop
  | [] => True
  | i :: is => G s i ∧ Guarded G (M.step s i).1 is

variable {M N} {G : σ → ι → Prop} {s : σ} {t : τ}

theorem after_append (s : σ) (is js : List ι) : M.after s (is ++ js) = M.after (M.after s is) js := by
  induction is generalizing s with
  | nil => rfl
  | cons i is ih => exact ih (M.step s i).1

theorem guarded_append {is js : List ι} :
    M.Guarded G s (is ++ js) ↔ M.Guarded G s is ∧ M.Guarded G (M.after s is) js := by
  induction is generalizing s with
  | nil => exact (iff_of_eq (true_and _)).symm
  | cons i is ih =>
    show G s i ∧ M.Guarded G _ (is ++ js) ↔ (G s i ∧ M.Guarded G _ is) ∧ M.Guarded G _ js
    rw [ih, and_assoc]
    rfl

theorem Guarded.history {P : List ι → σ → Prop} (hnil : P [] s)
    (hstep : ∀ {is i}, P is (M.after s is) → G (M.after s is) i →
      P (is ++ [i]) (M.step (M.after s is) i).1) {is : List ι} (h : M.Guarded G s is) :
    P is (M.after s is) := by
  induction is using List.reverseRecOn with
  | nil => exact hnil
  | append_singleton is i ih =>
    obtain ⟨hinit, hlast⟩ := guarded_append.mp h
    rw [after_append]
    exact hstep (ih hinit) hlast.1

theorem Guarded.lockstep {R : σ → τ → Prop} (hstep : ∀ {s t i}, R s t → G s i →
      R (M.step s i).1 (N.step t i).1 ∧ (M.step s i).2 = (N.step t i).2)
    {is : List ι} (hst : R s t) (h : M.Guarded G s is) :
    R (M.after s is) (N.after t is) ∧ M.outputs s is = N.outputs t is := by
  induction is generalizing s t with
  | nil => exact ⟨hst, rfl⟩
  | cons i is ih =>
    obtain ⟨hnext, hout⟩ := hstep hst h.1
    obtain ⟨hafter, houts⟩ := ih hnext h.2
    exact ⟨hafter, congrArg₂ List.cons hout houts⟩

end Machine
