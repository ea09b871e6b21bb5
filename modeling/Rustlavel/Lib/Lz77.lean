/-
  Back-references over an arbitrary alphabet: when a pair of a length and a distance repeats what stands earlier
  in the input, and when a list of tokens spells a stretch of it.
-/

import Mathlib

namespace Lz77

inductive Token (α : Type) where
  | literal (a : α)
  | matched (len dist : Nat)
  deriving DecidableEq

variable {α : Type}

/-- The `len` symbols at `pos` are those `dist` places earlier. -/
structure IsMatch (input : List α) (pos len dist : Nat) : Prop where
  dist_pos : 1 ≤ dist
  dist_le : dist ≤ pos
  len_le : pos + len ≤ input.length
  agree : ∀ i < len, input[pos - dist + i]? = input[pos + i]?

/-- The tokens spell the input from `pos` up to `stop`. -/
def Spells (input : List α) (pos : Nat) : List (Token α) → Nat → Prop
  | [], stop => pos = stop
  | .literal a :: ts, stop => input[pos]? = some a ∧ Spells input (pos + 1) ts stop
  | .matched len dist :: ts, stop => IsMatch input pos len dist ∧ Spells input (pos + len) ts stop

variable {input : List α} {pos stop : Nat} {ts : List (Token α)}

theorem Spells.append {mid : Nat} {us : List (Token α)}
    (h1 : Spells input pos ts mid) (h2 : Spells input mid us stop) : Spells input pos (ts ++ us) stop := by
  induction ts generalizing pos with
  | nil => exact (h1 : pos = mid) ▸ h2
  | cons t ts ih =>
    cases t with
    | literal | matched => exact ⟨h1.1, ih h1.2⟩

theorem Spells.literal {a : α} (h : Spells input pos ts stop) (ha : input[stop]? = some a) :
    Spells input pos (ts ++ [.literal a]) (stop + 1) :=
  h.append ⟨ha, rfl⟩

theorem Spells.matched {len dist : Nat} (h : Spells input pos ts stop) (hm : IsMatch input stop len dist) :
    Spells input pos (ts ++ [.matched len dist]) (stop + len) :=
  h.append ⟨hm, rfl⟩

theorem Spells.le_length (h : Spells input pos ts stop) (hpos : pos ≤ input.length) :
    pos ≤ stop ∧ stop ≤ input.length := by
  induction ts generalizing pos with
  | nil => exact (h : pos = stop) ▸ ⟨Nat.le_refl _, hpos⟩
  | cons t ts ih =>
    cases t with
    | literal =>
      have hlt := (List.getElem?_eq_some_iff.mp h.1).1
      have := ih h.2 hlt
      omega
    | matched =>
      have := ih h.2 h.1.len_le
      omega

end Lz77
