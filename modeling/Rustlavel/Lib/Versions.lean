/-
  A value that is written again and again, and a cache of what was read from it.
-/

import Mathlib

/-! ## Versions -/

structure Versions (T : Type) where
  current : T
  past : List T := []

namespace Versions

variable {T : Type} (v : Versions T)

def clock : Nat := v.past.length

def asOf (n : Nat) : Option T := (v.past ++ [v.current])[n]?

def write (t : T) : Versions T where
  current := t
  past := v.past ++ [v.current]

theorem clock_write (t : T) : (v.write t).clock = v.clock + 1 := List.length_append ..

theorem asOf_clock : v.asOf v.clock = some v.current := List.getElem?_concat_length

theorem le_clock {n : Nat} {t : T} (h : v.asOf n = some t) : n ≤ v.clock := by
  have hlt := (List.getElem?_eq_some_iff.mp h).1
  rw [List.length_append] at hlt
  exact Nat.le_of_lt_succ hlt

structure Later (v v' : Versions T) : Prop where
  clock : v.clock ≤ v'.clock
  asOf : ∀ {n t}, v.asOf n = some t → v'.asOf n = some t

theorem later_refl : v.Later v := ⟨Nat.le_refl _, id⟩

theorem Later.trans {v v' v'' : Versions T} (h : v.Later v') (h' : v'.Later v'') : v.Later v'' :=
  ⟨Nat.le_trans h.clock h'.clock, fun ht => h'.asOf (h.asOf ht)⟩

theorem later_write (t : T) : v.Later (v.write t) where
  clock := by
    rw [clock_write]
    exact Nat.le_succ _
  asOf h := by
    have hlt := (List.getElem?_eq_some_iff.mp h).1
    exact (List.getElem?_append_left hlt).trans h

end Versions

/-! ## Slots -/

/-- A cache by key; for every key when its entry was read, and the last write after which it was dropped. -/
structure Slots (K V : Type) where
  entry : K → Option V := fun _ => none
  readAt : K → Nat := fun _ => 0
  cleared : K → Nat := fun _ => 0

namespace Slots

variable {K V : Type} (s : Slots K V)

def put [DecidableEq K] (k : K) (v : V) (asOf : Nat) : Slots K V :=
  { s with entry := Function.update s.entry k (some v), readAt := Function.update s.readAt k asOf }

/-- Drop the entries of some keys after the write `wrote`. -/
def drop (which : K → Bool) (wrote : Nat) : Slots K V := { s with
    entry := fun k => if which k then none else s.entry k
    cleared := fun k => if which k then max (s.cleared k) wrote else s.cleared k }

/-- No entry is older than the last write that has dropped it, and `Good` says of every
    entry that it was read when it is said to have been. -/
structure Fresh (Good : K → V → Nat → Prop) (clock : Nat) (s : Slots K V) : Prop where
  cleared : ∀ k, s.cleared k ≤ clock
  entry : ∀ {k v}, s.entry k = some v → s.cleared k ≤ s.readAt k ∧ Good k v (s.readAt k)

theorem le_cleared_drop (which : K → Bool) (wrote : Nat) (k : K) : s.cleared k ≤ (s.drop which wrote).cleared k := by
  show s.cleared k ≤ if which k then _ else _
  split
  · exact Nat.le_max_left ..
  · exact Nat.le_refl _

theorem wrote_le_cleared_drop {which : K → Bool} (wrote : Nat) {k : K} (h : which k = true) :
    wrote ≤ (s.drop which wrote).cleared k := by
  show wrote ≤ if which k then _ else _
  rw [if_pos h]
  exact Nat.le_max_right ..

namespace Fresh

variable {Good Good' : K → V → Nat → Prop} {clock clock' : Nat} {s : Slots K V}

theorem empty : Fresh Good clock ({} : Slots K V) := ⟨fun _ => Nat.zero_le _, nofun⟩

theorem later (h : Fresh Good clock s) (hclock : clock ≤ clock')
    (hgood : ∀ {k v n}, Good k v n → Good' k v n) : Fresh Good' clock' s :=
  ⟨fun k => Nat.le_trans (h.cleared k) hclock, fun hk => ⟨(h.entry hk).1, hgood (h.entry hk).2⟩⟩

theorem put [DecidableEq K] (h : Fresh Good clock s) {k : K} {v : V} {asOf : Nat}
    (hclear : s.cleared k ≤ asOf) (hgood : Good k v asOf) : Fresh Good clock (s.put k v asOf) where
  cleared := h.cleared
  entry {k' v'} hk := by
    show s.cleared k' ≤ Function.update s.readAt k asOf k' ∧ Good k' v' (Function.update s.readAt k asOf k')
    replace hk : Function.update s.entry k (some v) k' = some v' := hk
    by_cases heq : k' = k
    · subst heq
      rw [Function.update_self] at hk ⊢
      cases hk
      exact ⟨hclear, hgood⟩
    · rw [Function.update_of_ne heq] at hk ⊢
      exact h.entry hk

theorem drop (h : Fresh Good clock s) (which : K → Bool) {wrote : Nat} (hwrote : wrote ≤ clock) :
    Fresh Good clock (s.drop which wrote) where
  cleared k := by
    show (if which k then max (s.cleared k) wrote else s.cleared k) ≤ clock
    split
    · exact Nat.max_le.mpr ⟨h.cleared k, hwrote⟩
    · exact h.cleared k
  entry {k v} hk := by
    show (if which k then max (s.cleared k) wrote else s.cleared k) ≤ s.readAt k ∧ Good k v (s.readAt k)
    replace hk : (if which k then none else s.entry k) = some v := hk
    split at hk
    · cases hk
    · rename_i hkept
      rw [if_neg hkept]
      exact h.entry hk

end Fresh

end Slots
