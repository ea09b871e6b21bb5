/-
  Numbers as fixed-width bit strings, least significant bit first, and byte strings as the concatenation of
  their bytes' bits.
-/

import Mathlib

namespace BitList

open List Nat

/-! ## Fixed-width fields -/

/-- The low `n` bits of `v`, least significant first. -/
def lsb (v : Nat) : Nat → List Bool
  | 0 => []
  | n + 1 => decide (v % 2 = 1) :: lsb (v / 2) n

def unlsb : List Bool → Nat
  | [] => 0
  | b :: bs => b.toNat + 2 * unlsb bs

variable (v n : Nat)

@[simp] theorem lsb_zero : lsb v 0 = [] := rfl

@[simp] theorem lsb_succ : lsb v (n + 1) = decide (v % 2 = 1) :: lsb (v / 2) n := rfl

@[simp] theorem length_lsb : (lsb v n).length = n := by
  induction n generalizing v with
  | zero => rfl
  | succ n ih => simp [ih]

theorem unlsb_lt (bs : List Bool) : unlsb bs < 2 ^ bs.length := by
  induction bs with
  | nil => simp [unlsb]
  | cons b =>
    simp only [unlsb, length_cons, pow_succ]
    have hb : b.toNat ≤ 1 := Bool.toNat_le b
    omega

theorem unlsb_lsb : unlsb (lsb v n) = v % 2 ^ n := by
  induction n generalizing v with
  | zero => simp [unlsb, mod_one]
  | succ n ih =>
    simp only [lsb_succ, unlsb, ih]
    have h : v % 2 ^ (n + 1) = v % 2 + 2 * (v / 2 % 2 ^ n) := by
      rw [pow_succ, mul_comm, mod_mul]
    rw [h]
    rcases mod_two_eq_zero_or_one v with h0 | h0 <;> simp [h0]

theorem lsb_unlsb (bs : List Bool) : lsb (unlsb bs) bs.length = bs := by
  induction bs with
  | nil => rfl
  | cons b bs ih =>
    have hmod : (b.toNat + 2 * unlsb bs) % 2 = b.toNat := by
      cases b <;> simp [add_mul_mod_self_left]
    have hdiv : (b.toNat + 2 * unlsb bs) / 2 = unlsb bs := by
      cases b <;> (simp; try omega)
    simp only [length_cons, lsb_succ, unlsb, hmod, hdiv, ih]
    cases b <;> rfl

theorem lsb_add (m : Nat) : lsb v (n + m) = lsb v n ++ lsb (v / 2 ^ n) m := by
  induction n generalizing v with
  | zero => simp
  | succ n ih =>
    rw [succ_add_eq_add_succ, add_succ, lsb_succ, ih, lsb_succ, cons_append,
      Nat.div_div_eq_div_mul, Nat.pow_succ, Nat.mul_comm 2]

theorem lsb_mod : lsb (v % 2 ^ n) n = lsb v n := by
  have h := lsb_unlsb (lsb v n)
  rwa [unlsb_lsb, length_lsb] at h

theorem lsb_append {a n : Nat} (b m : Nat) (ha : a < 2 ^ n) : lsb (a + 2 ^ n * b) (n + m) = lsb a n ++ lsb b m := by
  have hlow : lsb (a + 2 ^ n * b) n = lsb a n := by
    rw [← lsb_mod, add_mul_mod_self_left, lsb_mod]
  have hhigh : (a + 2 ^ n * b) / 2 ^ n = b := by
    rw [add_mul_div_left _ _ (Nat.two_pow_pos n), Nat.div_eq_of_lt ha, Nat.zero_add]
  rw [lsb_add, hlow, hhigh]

theorem lsb_zero_val : lsb 0 n = List.replicate n false := by
  induction n with
  | zero => rfl
  | succ n ih => simp [ih, replicate_succ]

theorem lsb_inj {a b n : Nat} (ha : a < 2 ^ n) (hb : b < 2 ^ n) (h : lsb a n = lsb b n) : a = b := by
  have h' := congrArg unlsb h
  rwa [unlsb_lsb, unlsb_lsb, mod_eq_of_lt ha, mod_eq_of_lt hb] at h'

theorem unlsb_append (as bs : List Bool) : unlsb (as ++ bs) = unlsb as + 2 ^ as.length * unlsb bs := by
  induction as with
  | nil => simp [unlsb]
  | cons a as ih =>
    simp only [cons_append, unlsb, ih, length_cons, pow_succ]
    ring

/-! ## Byte strings -/

def ofBytes (bs : List UInt8) : List Bool := bs.flatMap fun b => lsb b.toNat 8

@[simp] theorem ofBytes_nil : ofBytes [] = [] := rfl

@[simp] theorem ofBytes_cons (b : UInt8) (bs : List UInt8) : ofBytes (b :: bs) = lsb b.toNat 8 ++ ofBytes bs := rfl

@[simp] theorem ofBytes_append (as bs : List UInt8) : ofBytes (as ++ bs) = ofBytes as ++ ofBytes bs := flatMap_append

@[simp] theorem length_ofBytes (bs : List UInt8) : (ofBytes bs).length = 8 * bs.length := by
  induction bs with
  | nil => rfl
  | cons b bs ih =>
    simp only [ofBytes_cons, length_append, length_lsb, ih, length_cons]
    omega

theorem ofBytes_inj {as bs : List UInt8} (h : ofBytes as = ofBytes bs) : as = bs := by
  induction as generalizing bs with
  | nil =>
    have hl := congrArg List.length h
    simp only [ofBytes_nil, length_nil, length_ofBytes] at hl
    exact (length_eq_zero_iff.mp (by omega)).symm
  | cons a as ih =>
    cases bs with
    | nil =>
      have hl := congrArg List.length h
      simp at hl
    | cons b =>
      obtain ⟨h1, h2⟩ := List.append_inj h (by simp)
      have hab : a.toNat = b.toNat := lsb_inj a.toNat_lt b.toNat_lt h1
      rw [UInt8.toNat_inj.mp hab, ih h2]

end BitList
