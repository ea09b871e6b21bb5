/-
  Numbers as bytes, the most significant first.
-/

import Mathlib

namespace BigEndian

open List UInt8

def toBytes : Nat → Nat → List UInt8
  | 0, _ => []
  | width + 1, n => toBytes width (n / 256) ++ [ofNat n]

variable (bs : List UInt8)

def fromBytes : Nat := bs.foldl (fun n b => n * 256 + b.toNat) 0

@[simp] theorem length_toBytes (width n : Nat) : (toBytes width n).length = width := by
  induction width generalizing n with
  | zero => rfl
  | succ width ih => rw [toBytes, length_append, ih, length_singleton]

theorem fromBytes_concat (b : UInt8) : fromBytes (bs ++ [b]) = fromBytes bs * 256 + b.toNat := by
  rw [fromBytes, foldl_append, fromBytes]
  rfl

theorem fromBytes_toBytes {width n : Nat} (h : n < 256 ^ width) : fromBytes (toBytes width n) = n := by
  induction width generalizing n with
  | zero =>
    rw [toBytes, fromBytes, foldl_nil]
    omega
  | succ width ih =>
    have hless : n / 256 < 256 ^ width := by
      rw [Nat.div_lt_iff_lt_mul (by decide), ← Nat.pow_succ]
      exact h
    rw [toBytes, fromBytes_concat, ih hless, toNat_ofNat']
    omega

theorem toBytes_fromBytes : toBytes bs.length (fromBytes bs) = bs := by
  induction bs using List.reverseRecOn with
  | nil => rfl
  | append_singleton bs b ih =>
    have hlow := b.toNat_lt
    have hdiv : (fromBytes bs * 256 + b.toNat) / 256 = fromBytes bs := by omega
    have hbyte : ofNat (fromBytes bs * 256 + b.toNat) = b := by
      apply UInt8.toNat_inj.mp
      rw [UInt8.toNat_ofNat']
      omega
    rw [length_append, length_singleton, toBytes, fromBytes_concat, hdiv, ih, hbyte]

theorem fromBytes_lt : fromBytes bs < 256 ^ bs.length := by
  induction bs using List.reverseRecOn with
  | nil => decide
  | append_singleton bs b =>
    have hlow := b.toNat_lt
    rw [fromBytes_concat, length_append, length_singleton, Nat.pow_succ]
    omega

end BigEndian
