/-
  Canonical prefix codes, as arithmetic on the number `c l` of codewords of each
  length `l`.  Codewords of one length are consecutive numbers, and the first
  codeword of length `l + 1` follows the last one of length `l` by a shift:
-/

import Mathlib

namespace CanonicalCode

open List Nat

/-! ## Counts by length -/

section

variable (c : Nat → Nat) {l m : Nat}

def firstCode : Nat → Nat
  | 0 => 0
  | l + 1 => (firstCode l + c l) * 2

/-- How many nodes at depth `l` are taken by codewords of length at most `l`. -/
def filled (l : Nat) : Nat := firstCode c l + c l

def firstIndex : Nat → Nat
  | 0 => 0
  | l + 1 => firstIndex l + c l

theorem firstCode_succ (l : Nat) : firstCode c (l + 1) = filled c l * 2 := rfl

theorem filled_succ (l : Nat) : filled c (l + 1) = filled c l * 2 + c (l + 1) := rfl

theorem firstIndex_succ (l : Nat) : firstIndex c (l + 1) = firstIndex c l + c l := rfl

theorem filled_mul_le_firstCode (h : l < m) : filled c l * 2 ^ (m - l) ≤ firstCode c m := by
  induction m with
  | zero => omega
  | succ m ih =>
    rw [firstCode_succ]
    rcases eq_or_lt_of_le (le_of_lt_succ h) with rfl | hlt
    · simp
    · have hm : m + 1 - l = m - l + 1 := by omega
      rw [hm, pow_succ, ← mul_assoc]
      exact Nat.mul_le_mul_right 2 (Nat.le_trans (ih hlt) (Nat.le_add_right ..))

theorem filled_mul_le_filled (h : l ≤ m) : filled c l * 2 ^ (m - l) ≤ filled c m := by
  rcases eq_or_lt_of_le h with rfl | hlt
  · simp
  · exact le_trans (filled_mul_le_firstCode c hlt) (Nat.le_add_right ..)

theorem filled_le_of_le (h : l ≤ m) (hm : filled c m ≤ 2 ^ m) : filled c l ≤ 2 ^ l := by
  have hpow : 2 ^ m = 2 ^ l * 2 ^ (m - l) := by rw [← pow_add, Nat.add_sub_cancel' h]
  have hmul := le_trans (filled_mul_le_filled c h) hm
  rw [hpow] at hmul
  exact le_of_mul_le_mul_right hmul (Nat.two_pow_pos _)

theorem firstIndex_add_le (h : l < m) : firstIndex c l + c l ≤ firstIndex c m := by
  induction m with
  | zero => omega
  | succ m ih =>
    rcases eq_or_lt_of_le (le_of_lt_succ h) with rfl | hlt
    · exact le_refl _
    · exact le_trans (ih hlt) (Nat.le_add_right ..)

theorem filled_le_div {l m k : Nat} (h : l < m) (hk : firstCode c m ≤ k) : filled c l ≤ k / 2 ^ (m - l) :=
  (Nat.le_div_iff_mul_le (Nat.two_pow_pos _)).mpr (Nat.le_trans (filled_mul_le_firstCode c h) hk)

end

/-! ## Lists of code lengths -/

/-- How many symbols have a codeword of length `l`. -/
def lengthCount (lengths : List Nat) (l : Nat) : Nat := if l = 0 then 0 else lengths.count l

@[simp] theorem lengthCount_zero (lengths : List Nat) : lengthCount lengths 0 = 0 := rfl

variable {lengths : List Nat} {l d s : Nat}

theorem lengthCount_of_pos (h : l ≠ 0) : lengthCount lengths l = lengths.count l := if_neg h

/-- How many symbols before `s` share the length `l`. -/
def rank (lengths : List Nat) (l s : Nat) : Nat := (lengths.take s).count l

/-- The codeword of a symbol `s` of length `l`. -/
def codeword (lengths : List Nat) (l s : Nat) : Nat := firstCode (lengthCount lengths) l + rank lengths l s

/-- Where a symbol `s` of length `l` stands in the sorted table. -/
def slot (lengths : List Nat) (l s : Nat) : Nat := firstIndex (lengthCount lengths) l + rank lengths l s

section

variable {lengths : List Nat} {l m s t : Nat}

theorem rank_lt (h : lengths[s]? = some l) (hl : l ≠ 0) : rank lengths l s < lengthCount lengths l := by
  rw [lengthCount_of_pos hl]
  obtain ⟨hs, hget⟩ := List.getElem?_eq_some_iff.mp h
  have hsplit : lengths = lengths.take s ++ l :: lengths.drop (s + 1) := by
    conv_lhs => rw [← take_append_drop s lengths, drop_eq_getElem_cons hs, hget]
  conv_rhs => rw [hsplit]
  rw [rank, count_append, count_cons_self]
  omega

theorem rank_succ_self (h : lengths[s]? = some l) : rank lengths l (s + 1) = rank lengths l s + 1 := by
  rw [rank, rank, take_add_one, h, count_append]
  simp

theorem rank_succ_ne (h : lengths[s]? = some m) (hne : m ≠ l) : rank lengths l (s + 1) = rank lengths l s := by
  rw [rank, rank, take_add_one, h, count_append]
  simp [hne]

theorem rank_mono (h : s ≤ t) : rank lengths l s ≤ rank lengths l t := (take_sublist_take_left h).count_le l

theorem rank_lt_rank (hs : lengths[s]? = some l) (h : s < t) : rank lengths l s < rank lengths l t := by
  have hmono : rank lengths l (s + 1) ≤ rank lengths l t := rank_mono h
  rw [rank_succ_self hs] at hmono
  exact hmono

theorem codeword_lt (h : lengths[s]? = some l) (hl : l ≠ 0)
    (hkraft : filled (lengthCount lengths) l ≤ 2 ^ l) : codeword lengths l s < 2 ^ l := by
  have hrank := rank_lt h hl
  rw [filled] at hkraft
  rw [codeword]
  omega

theorem slot_ne (hs : lengths[s]? = some l) (ht : lengths[t]? = some m) (hl : l ≠ 0) (hm : m ≠ 0)
    (hst : s < t) : slot lengths l s ≠ slot lengths m t := by
  have hrs := rank_lt hs hl
  have hrt := rank_lt ht hm
  rw [slot, slot]
  rcases lt_trichotomy l m with hlt | rfl | hgt
  · have := firstIndex_add_le (lengthCount lengths) hlt
    omega
  · have := rank_lt_rank hs hst
    omega
  · have := firstIndex_add_le (lengthCount lengths) hgt
    omega

end

/-! ## Kraft sums -/

/-- The Kraft sum of the codewords of a list of lengths, in units of `2 ^ -d`. -/
def kraftSum (lengths : List Nat) (d : Nat) : Nat := (lengths.map fun l => if l = 0 then 0 else 2 ^ (d - l)).sum

@[simp] theorem kraftSum_nil (d : Nat) : kraftSum [] d = 0 := rfl

theorem kraftSum_cons (l : Nat) (lengths : List Nat) (d : Nat) :
    kraftSum (l :: lengths) d = (if l = 0 then 0 else 2 ^ (d - l)) + kraftSum lengths d := by
  simp [kraftSum]

theorem lengthCount_cons (k : Nat) (lengths : List Nat) (l : Nat) :
    lengthCount (k :: lengths) l = lengthCount lengths l + if l ≠ 0 ∧ k = l then 1 else 0 := by
  by_cases hl : l = 0
  · simp [lengthCount, hl]
  · rw [lengthCount_of_pos hl, lengthCount_of_pos hl, count_cons]
    simp [hl]

theorem filled_lengthCount_cons (k : Nat) (lengths : List Nat) (d : Nat) : filled (lengthCount (k :: lengths)) d =
      (if k = 0 ∨ d < k then 0 else 2 ^ (d - k)) + filled (lengthCount lengths) d := by
  induction d with
  | zero =>
    have h0 : ∀ ls, filled (lengthCount ls) 0 = 0 := fun _ => rfl
    rw [h0, h0]
    by_cases hk : k = 0 <;> simp [hk, pos_of_ne_zero]
  | succ d ih =>
    rw [filled_succ, filled_succ, ih, lengthCount_cons]
    by_cases hk : k = 0
    · subst hk
      simp
    · by_cases hlt : d + 1 < k
      · have h1 : d < k := by omega
        have h2 : k ≠ d + 1 := by omega
        simp [hk, hlt, h1, h2]
      · by_cases heq : k = d + 1
        · subst heq
          simp
          omega
        · have h1 : ¬ d < k := by omega
          have h2 : d + 1 - k = d - k + 1 := by omega
          simp only [hk, hlt, h1, heq, or_self, if_false, ne_eq, Nat.add_eq_zero_iff, one_ne_zero,
            and_false, not_false_eq_true, add_zero, h2, pow_succ]
          ring

theorem filled_eq_kraftSum (h : ∀ l ∈ lengths, l ≤ d) : filled (lengthCount lengths) d = kraftSum lengths d := by
  induction lengths with
  | nil =>
    have hc : ∀ e, filled (lengthCount []) e = 0 := by
      intro e
      induction e with
      | zero => rfl
      | succ e ih => rw [filled_succ, ih]; simp [lengthCount]
    rw [hc, kraftSum_nil]
  | cons k ks ih =>
    have hk : k ≤ d := h k mem_cons_self
    rw [filled_lengthCount_cons, kraftSum_cons, ih fun l hl => h l (mem_cons_of_mem _ hl)]
    simp [not_lt.mpr hk]

theorem kraftSum_mul {e : Nat} (h : ∀ l ∈ lengths, l ≤ d) (hde : d ≤ e) :
    kraftSum lengths e = kraftSum lengths d * 2 ^ (e - d) := by
  induction lengths with
  | nil => simp
  | cons k ks ih =>
    have hk : k ≤ d := h k mem_cons_self
    rw [kraftSum_cons, kraftSum_cons, ih fun l hl => h l (mem_cons_of_mem _ hl), add_mul]
    congr 1
    split
    · rw [zero_mul]
    · rw [← pow_add]
      congr 1
      omega

/-! ## The sorted table -/

theorem firstIndex_lengthCount_cons (k : Nat) (lengths : List Nat) (d : Nat) :
    firstIndex (lengthCount (k :: lengths)) d =
      (if k = 0 ∨ d ≤ k then 0 else 1) + firstIndex (lengthCount lengths) d := by
  induction d with
  | zero => simp [firstIndex]
  | succ d ih =>
    rw [firstIndex_succ, firstIndex_succ, ih, lengthCount_cons]
    by_cases hk : k = 0
    · simp [hk, eq_comm]
    · by_cases hlt : d + 1 ≤ k
      · have h1 : d ≤ k := by omega
        have h2 : k ≠ d := by omega
        simp [hk, hlt, h1, h2]
      · by_cases heq : k = d
        · subst heq
          simp [hk]
          omega
        · have h1 : ¬ d ≤ k := by omega
          simp [hk, hlt, h1, heq]
          omega

theorem firstIndex_eq_used (h : ∀ l ∈ lengths, l < d) :
    firstIndex (lengthCount lengths) d + lengths.count 0 = lengths.length := by
  induction lengths with
  | nil =>
    have hc : ∀ e, firstIndex (lengthCount []) e = 0 := by
      intro e
      induction e with
      | zero => rfl
      | succ e ih => rw [firstIndex_succ, ih]; simp [lengthCount]
    rw [hc]
    rfl
  | cons k ks ih =>
    have hk : k < d := h k mem_cons_self
    have ih' := ih fun l hl => h l (mem_cons_of_mem _ hl)
    rw [firstIndex_lengthCount_cons, count_cons, length_cons]
    by_cases hk0 : k = 0
    · simp [hk0]
      omega
    · simp [hk0, not_le.mpr hk]
      omega

/-! ## Trailing unused symbols -/

theorem lengthCount_append_zeros (lengths : List Nat) (n : Nat) :
    lengthCount (lengths ++ List.replicate n 0) = lengthCount lengths := by
  funext l
  by_cases hl : l = 0
  · simp [hl]
  · rw [lengthCount_of_pos hl, lengthCount_of_pos hl, count_append, count_replicate]
    simp [Ne.symm hl]

theorem codeword_append_zeros (hs : s < lengths.length) (l n : Nat) :
    codeword (lengths ++ List.replicate n 0) l s = codeword lengths l s := by
  rw [codeword, codeword, lengthCount_append_zeros, rank, rank, take_append_of_le_length (le_of_lt hs)]

/-! ## Few codewords -/

theorem kraftSum_le_used (h : ∀ l ∈ lengths, l ≤ d) :
    kraftSum lengths d ≤ firstIndex (lengthCount lengths) (d + 1) * 2 ^ d := by
  induction lengths with
  | nil => simp
  | cons k ks ih =>
    have hk : k ≤ d := h k mem_cons_self
    have ih' := ih fun l hl => h l (mem_cons_of_mem _ hl)
    rw [kraftSum_cons, firstIndex_lengthCount_cons, add_mul]
    by_cases hk0 : k = 0
    · simpa [hk0] using ih'
    · have hpow : 2 ^ (d - k) ≤ 2 ^ d := Nat.pow_le_pow_right (by decide) (Nat.sub_le ..)
      have hnot : ¬ (k = 0 ∨ d + 1 ≤ k) := by omega
      rw [if_neg hk0, if_neg hnot, one_mul]
      omega

theorem slot_lt (h : lengths[s]? = some l) (hl : l ≠ 0)
    (hd : l < d) : slot lengths l s < firstIndex (lengthCount lengths) d := by
  have hrank := rank_lt h hl
  have hle := firstIndex_add_le (lengthCount lengths) hd
  rw [slot]
  omega

end CanonicalCode
