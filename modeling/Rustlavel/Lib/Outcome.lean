/-
  How a call into systems code can end. A computation returns a value, hands back an error of its own error
  type, panics (an index past the end of a slice, a subtraction below zero), or loops for ever.
-/

import Mathlib

namespace Outcome

open List

inductive Fault (ε : Type) where
  /-- The function returned `Err(e)`. -/
  | error (e : ε)
  /-- An index, a slice or a checked subtraction went out of range. -/
  | panic
  /-- A loop used up the bound the model gives it. -/
  | diverged
  deriving DecidableEq

abbrev Result (ε α : Type) : Type := Except (Fault ε) α

variable {ε α β : Type}

instance instDecidableEqExcept [DecidableEq ε] [DecidableEq α] : DecidableEq (Except ε α) :=
  fun a b => match a, b with
    | .ok x, .ok y => if h : x = y then isTrue (by rw [h]) else isFalse (by simpa using h)
    | .error x, .error y => if h : x = y then isTrue (by rw [h]) else isFalse (by simpa using h)
    | .ok _, .error _ => isFalse (by simp)
    | .error _, .ok _ => isFalse (by simp)

def fail (e : ε) : Result ε α := .error (.error e)

/-- `xs[i]`, which panics past the end. -/
def index (xs : List α) (i : Nat) : Result ε α :=
  match xs[i]? with
  | some x => .ok x
  | none => .error .panic

/-- `a - b` on an unsigned type. -/
def sub (a b : Nat) : Result ε Nat :=
  if b ≤ a then .ok (a - b) else .error .panic

/-- `xs[i] = x`, which panics past the end. -/
def store (xs : List α) (i : Nat) (x : α) : Result ε (List α) :=
  if i < xs.length then .ok (xs.set i x) else .error .panic

variable {xs : List α} {i n : Nat} {f : α → Result ε β}

theorem index_eq_ok {x : α} (h : xs[i]? = some x) : index (ε := ε) xs i = .ok x := by
  simp only [index, h]

theorem index_of_lt (h : i < xs.length) : index (ε := ε) xs i = .ok xs[i] :=
  index_eq_ok (getElem?_eq_getElem h)

theorem sub_of_le {a b : Nat} (h : b ≤ a) : sub (ε := ε) a b = .ok (a - b) := if_pos h

theorem store_of_lt (x : α) (h : i < xs.length) : store (ε := ε) xs i x = .ok (xs.set i x) := if_pos h

@[simp] theorem ok_bind (a : α) (f : α → Result ε β) : ((.ok a : Result ε α) >>= f) = f a := rfl

@[simp] theorem error_bind (e : Fault ε) (f : α → Result ε β) : ((.error e : Result ε α) >>= f) = .error e := rfl

@[simp] theorem pure_eq_ok (a : α) : (pure a : Result ε α) = .ok a := rfl

theorem bind_eq_ok {x : Result ε α} {b : β} : (x >>= f) = .ok b ↔ ∃ a, x = .ok a ∧ f a = .ok b := by
  cases x with
  | ok | error => simp

theorem mapM_eq_ok {g : α → β} (h : ∀ x ∈ xs, f x = .ok (g x)) : xs.mapM f = .ok (xs.map g) := by
  induction xs with
  | nil => rfl
  | cons x xs ih =>
    rw [mapM_cons, h x mem_cons_self, ok_bind, ih fun y hy => h y (mem_cons_of_mem _ hy)]
    rfl

/-! ## Vectors given by a function of the index -/

theorem index_map_range (f : Nat → α) (h : i < n) : index (ε := ε) ((range n).map f) i = .ok (f i) := by
  apply index_eq_ok
  rw [getElem?_map, getElem?_range h]
  rfl

theorem set_map_range (f : Nat → α) (i : Nat) (x : α) :
    ((range n).map f).set i x = (range n).map (Function.update f i x) := by
  apply ext_getElem
  · simp
  · intro j hj _
    rw [getElem_set]
    by_cases hij : i = j
    · simp [hij]
    · rw [if_neg hij]
      simp [Function.update_of_ne (Ne.symm hij)]

end Outcome
