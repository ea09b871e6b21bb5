/-
  Whole numbers as doubles. A whole number becomes a double by rounding it to 53 significant bits, to the
  nearest and on a tie to the even one; below `2 ^ 53` nothing is lost.
-/

import Mathlib

namespace Double

open Nat Int String

/-! ## Rounding -/

/-- `n / p` to the nearest whole number, and on a tie to the even one. -/
def nearest (n p : Nat) : Nat :=
  if 2 * (n % p) < p ∨ (2 * (n % p) = p ∧ n / p % 2 = 0) then n / p else n / p + 1

def excess (n : Nat) : Nat := n.log2 - 52

def roundNat (n : Nat) : Nat :=
  if n < 2 ^ 53 then n else nearest n (2 ^ excess n) * 2 ^ excess n

def round (n : Int) : Int := n.sign * roundNat n.natAbs

variable {n : Nat}

theorem roundNat_of_lt (h : n < 2 ^ 53) : roundNat n = n := if_pos h

theorem nearest_mul (q : Nat) {p : Nat} (hp : 0 < p) : nearest (q * p) p = q := by
  unfold nearest
  rw [Nat.mul_mod_left, Nat.mul_div_cancel q hp]
  exact if_pos (.inl hp)

theorem div_le_nearest (n p : Nat) : n / p ≤ nearest n p := by
  unfold nearest
  split <;> omega

theorem nearest_le (n p : Nat) : nearest n p ≤ n / p + 1 := by
  unfold nearest
  split <;> omega

section

variable {n : Nat} (h : 2 ^ 53 ≤ n)

include h

theorem log2_ge : 53 ≤ n.log2 := by
  by_contra hlt
  have := lt_log2_self (n := n)
  have : 2 ^ (n.log2 + 1) ≤ 2 ^ 53 := Nat.pow_le_pow_right (by decide) (by omega)
  omega

theorem excess_pos : 0 < excess n := by
  have := log2_ge h
  unfold excess
  omega

theorem div_bounds : 2 ^ 52 ≤ n / 2 ^ excess n ∧ n / 2 ^ excess n < 2 ^ 53 := by
  have hlog : 52 + excess n = n.log2 := by
    have := log2_ge h
    unfold excess
    omega
  have hpos : 0 < 2 ^ excess n := Nat.pow_pos (by decide)
  constructor
  · rw [le_div_iff_mul_le hpos, ← pow_add, hlog]
    exact log2_self_le (by omega)
  · rw [div_lt_iff_lt_mul hpos, ← pow_add, show 53 + excess n = n.log2 + 1 by omega]
    exact lt_log2_self

theorem roundNat_eq : roundNat n = nearest n (2 ^ excess n) * 2 ^ excess n := if_neg (by omega)

theorem le_roundNat : 2 ^ 53 ≤ roundNat n := by
  rw [roundNat_eq h]
  calc 2 ^ 53 = 2 ^ 52 * 2 ^ 1 := by decide
    _ ≤ nearest n (2 ^ excess n) * 2 ^ excess n := Nat.mul_le_mul ((div_bounds h).1.trans (div_le_nearest ..))
          (Nat.pow_le_pow_right (by decide) (excess_pos h))

end

theorem roundNat_mul {q k : Nat} (hlow : 2 ^ 52 ≤ q) (hhigh : q < 2 ^ 53) (hk : 0 < k) :
    roundNat (q * 2 ^ k) = q * 2 ^ k := by
  have hpos : 0 < 2 ^ k := Nat.pow_pos (by decide)
  have hge := calc 2 ^ 53 = 2 ^ 52 * 2 ^ 1 := by decide
      _ ≤ q * 2 ^ k := Nat.mul_le_mul hlow (Nat.pow_le_pow_right (by decide) hk)
  have hlog : (q * 2 ^ k).log2 = 52 + k := by
    refine (log2_eq_iff (by omega)).mpr ⟨?_, ?_⟩
    · rw [pow_add]
      exact mul_le_mul_right _ hlow
    · rw [show 52 + k + 1 = 53 + k by omega, pow_add]
      exact mul_lt_mul_of_pos_right hhigh hpos
  have hexcess : excess (q * 2 ^ k) = k := by
    unfold excess
    omega
  rw [roundNat_eq hge, hexcess, nearest_mul q hpos]

theorem roundNat_roundNat (n : Nat) : roundNat (roundNat n) = roundNat n := by
  by_cases h : n < 2 ^ 53
  · rw [roundNat_of_lt h, roundNat_of_lt h]
  · have h : 2 ^ 53 ≤ n := by omega
    obtain ⟨_, _⟩ := div_bounds h
    have hge := div_le_nearest n (2 ^ excess n)
    have hle := nearest_le n (2 ^ excess n)
    rw [roundNat_eq h]
    by_cases hq : nearest n (2 ^ excess n) < 2 ^ 53
    · exact roundNat_mul (by omega) hq (excess_pos h)
    · -- rounded up to the next power of two, which has one bit more to drop
      have hq : nearest n (2 ^ excess n) = 2 ^ 52 * 2 := by omega
      rw [hq, mul_assoc, ← pow_succ']
      exact roundNat_mul (le_refl _) (by decide) (succ_pos _)

theorem natAbs_round (n : Int) : (round n).natAbs = roundNat n.natAbs := by
  unfold round
  rcases lt_trichotomy n 0 with h | rfl | h
  · rw [sign_eq_neg_one_of_neg h]
    omega
  · rfl
  · rw [sign_eq_one_of_pos h]
    omega

theorem sign_round (n : Int) : (round n).sign = n.sign := by
  have hpos : n ≠ 0 → 0 < roundNat n.natAbs := by
    intro hn
    by_cases h : n.natAbs < 2 ^ 53
    · rw [roundNat_of_lt h]
      omega
    · have := le_roundNat (n := n.natAbs) (by omega)
      omega
  unfold round
  rcases lt_trichotomy n 0 with h | rfl | h
  · have := hpos (by omega)
    rw [sign_eq_neg_one_of_neg h, sign_eq_neg_one_of_neg (by omega)]
  · rfl
  · have := hpos (by omega)
    rw [sign_eq_one_of_pos h, sign_eq_one_of_pos (by omega)]

theorem round_of_lt {n : Int} (h : n.natAbs < 2 ^ 53) : round n = n := by
  rw [round, roundNat_of_lt h]
  exact sign_mul_natAbs n

theorem toNat_round (n : Nat) : (round n).toNat = roundNat n := by
  rcases Nat.eq_zero_or_pos n with rfl | hpos
  · rfl
  · unfold round
    rw [sign_natCast_of_ne_zero (by omega), one_mul]
    rfl

theorem round_round (n : Int) : round (round n) = round n := by
  rw [round, sign_round, natAbs_round, roundNat_roundNat]
  rfl

theorem le_round_of_ne {m n : Int} (h : round m = round n) (hne : m ≠ n) : 2 ^ 53 ≤ (round m).natAbs := by
  by_contra hlt
  have hm : m.natAbs < 2 ^ 53 := by
    by_contra hm
    have := le_roundNat (n := m.natAbs) (by omega)
    rw [natAbs_round] at hlt
    omega
  have hn : n.natAbs < 2 ^ 53 := by
    by_contra hn
    have := le_roundNat (n := n.natAbs) (by omega)
    rw [h, natAbs_round] at hlt
    omega
  rw [round_of_lt hm, round_of_lt hn] at h
  exact hne h

/-! ## Whole doubles -/

structure Whole where
  val : Int
  exact : round val = val
  deriving DecidableEq

variable {x y : Whole}

namespace Whole

@[ext] theorem ext (h : x.val = y.val) : x = y := by
  cases x
  cases y
  cases h
  rfl

def ofInt (n : Int) : Whole := ⟨round n, round_round n⟩

theorem ofInt_eq_iff {m n : Int} : ofInt m = ofInt n ↔ round m = round n :=
  ⟨congrArg val, fun h => ext h⟩

end Whole

/-! ## Text -/

/-- The multiple of `10 ^ k` next to `n` that rounds to `n`, the nearer one if both do. -/
def multiple (n k : Nat) : Option Nat :=
  let low := n / 10 ^ k * 10 ^ k
  let high := low + 10 ^ k
  if roundNat low = n then
    if roundNat high = n ∧ 10 ^ k ≤ 2 * (n - low) then some high else some low
  else if roundNat high = n then some high
  else none

/-- The fewest digits that round to `n`, with at most `k` of them dropped. -/
def shortestFrom (n : Nat) : Nat → Nat
  | 0 => n
  | k + 1 => (multiple n (k + 1)).getD (shortestFrom n k)

/-- The number that a whole double is printed as: itself below `10 ^ 15`, from
    there on the shortest one that rounds to it. -/
def decimal (n : Nat) : Nat := if n < 10 ^ 15 then n else shortestFrom n 20

theorem roundNat_multiple {n k m : Nat} (h : multiple n k = some m) : roundNat m = n := by
  unfold multiple at h
  dsimp only at h
  split at h
  · split at h <;> cases h
    · rename_i hhigh
      exact hhigh.1
    · assumption
  · split at h <;> cases h
    assumption

theorem roundNat_shortestFrom (hn : roundNat n = n) (k : Nat) : roundNat (shortestFrom n k) = n := by
  induction k with
  | zero => exact hn
  | succ k ih =>
    rw [shortestFrom]
    cases h : multiple n (k + 1) with
    | none => exact ih
    | some => exact roundNat_multiple h

theorem roundNat_decimal (hn : roundNat n = n) : roundNat (decimal n) = n := by
  unfold decimal
  split
  · exact hn
  · exact roundNat_shortestFrom hn 20

theorem repr_inj {m n : Nat} (h : m.repr = n.repr) : m = n := by
  have hdigits : toDigits 10 m = toDigits 10 n := by
    rw [← toList_repr, ← toList_repr, h]
  have hvalue := congrArg (ofDigitChars 10 · 0) hdigits
  simpa [ofDigitChars_toDigits] using hvalue

theorem repr_ne_neg (m n : Nat) : "" ++ m.repr ≠ "-" ++ n.repr := by
  intro h
  have hmem : '-' ∈ m.repr.toList := by
    have := congrArg toList h
    simp only [toList_append] at this
    rw [← List.nil_append m.repr.toList]
    exact this ▸ List.mem_append_left _ (by decide)
  rw [toList_repr] at hmem
  exact absurd (isDigit_of_mem_toDigits (by decide) (by decide) hmem) (by decide)

namespace Whole

def text (x : Whole) : String :=
  (if x.val < 0 then "-" else "") ++ (decimal x.val.natAbs).repr

theorem decimal_inj (h : decimal x.val.natAbs = decimal y.val.natAbs) : x.val.natAbs = y.val.natAbs := by
  -- what is printed rounds back to the double it was printed from
  have hback : ∀ z : Whole, roundNat (decimal z.val.natAbs) = z.val.natAbs := fun z =>
    roundNat_decimal (by rw [← natAbs_round, z.exact])
  rw [← hback x, ← hback y, h]

theorem text_inj : x.text = y.text ↔ x = y := by
  refine ⟨fun h => ?_, fun h => by rw [h]⟩
  unfold text at h
  ext
  split at h
  · rename_i hx
    split at h
    · rename_i hy
      have := decimal_inj (repr_inj ((append_right_inj _).mp h))
      omega
    · exact absurd h.symm (repr_ne_neg _ _)
  · rename_i hx
    split at h
    · exact absurd h (repr_ne_neg _ _)
    · rename_i hy
      have := decimal_inj (repr_inj ((append_right_inj _).mp h))
      omega

end Whole

end Double
