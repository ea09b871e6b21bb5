/-
  The hash chains that find back-references: `MatchFinder` with its insertion loop and `longest_match`.
-/

import Rustlavel.Lib.Lz77
import Rustlavel.Http.Deflate.Format

namespace Rustlavel.Http.Deflate

open Outcome Nat
open Lz77 List

def hashBits : Nat := 15
def hashSize : Nat := 1 <<< hashBits
def maxChain : Nat := 128
def lazyMatchLimit : Nat := 32
def noPosition : Nat := 2 ^ 32 - 1

abbrev Token : Type := Lz77.Token UInt8

/-- The latest position of each hash, the one before each on its chain, and the first not hashed yet. -/
structure MatchFinder where
  head : List Nat
  prev : List Nat
  nextInsert : Nat

namespace MatchFinder

def new : MatchFinder :=
  { head := List.replicate hashSize noPosition, prev := List.replicate windowSize noPosition, nextInsert := 0 }

def hash (input : List UInt8) (pos : Nat) : Res Nat := do
  let b0 ← index input pos
  let b1 ← index input (pos + 1)
  let b2 ← index input (pos + 2)
  let key := b0.toNat <<< 16 ||| b1.toNat <<< 8 ||| b2.toNat
  pure ((key * 0x9E3779B1 % 2 ^ 32) >>> (32 - hashBits))

def insertNext (f : MatchFinder) (input : List UInt8) : Res MatchFinder :=
  if f.nextInsert + minMatch ≤ input.length then do
    let h ← hash input f.nextInsert
    let last ← index f.head h
    let prev ← store f.prev (f.nextInsert &&& (windowSize - 1)) last
    let head ← store f.head h (f.nextInsert % 2 ^ 32)
    pure { head, prev, nextInsert := f.nextInsert + 1 }
  else pure { f with nextInsert := f.nextInsert + 1 }

def insertLoop (input : List UInt8) (stop : Nat) : Nat → MatchFinder → Res MatchFinder
  | 0, f => if f.nextInsert < stop then .error .diverged else .ok f
  | fuel + 1, f =>
    if f.nextInsert < stop then do insertLoop input stop fuel (← f.insertNext input) else .ok f

def insertThrough (f : MatchFinder) (input : List UInt8) (stop : Nat) : Res MatchFinder :=
  insertLoop input stop (stop - f.nextInsert) f

/-- `take_while(|&i| input[start + i] == input[pos + i]).count()`, with `i` counted and `n` left. -/
def commonLength (input : List UInt8) (start pos i : Nat) : Nat → Res Nat
  | 0 => .ok i
  | n + 1 => do
    let a ← index input (start + i)
    let b ← index input (pos + i)
    if a = b then commonLength input start pos (i + 1) n else pure i

/-- What a candidate does to the best match: the new best, and whether the loop
    stops there because nothing longer fits. -/
def tryCandidate (input : List UInt8) (pos maxLen start dist bestLen bestDist : Nat) : Res (Nat × Nat × Bool) := do
  -- a candidate that cannot beat the best one fails at `best_len` first
  let a ← index input (start + bestLen)
  let b ← index input (pos + bestLen)
  if a = b then
    let len ← commonLength input start pos 0 maxLen
    if bestLen < len then pure (len, dist, decide (len = maxLen))
    else pure (bestLen, bestDist, false)
  else pure (bestLen, bestDist, false)

/-- The `while` loop of `longest_match`, `remaining` candidates before it gives up. -/
def followChain (f : MatchFinder) (input : List UInt8) (pos maxLen : Nat)
    (candidate bestLen bestDist : Nat) : Nat → Res (Nat × Nat)
  | 0 => .ok (bestLen, bestDist)
  | remaining + 1 =>
    if candidate = noPosition then .ok (bestLen, bestDist)
    else do
      let dist ← sub pos candidate
      if windowSize < dist then pure (bestLen, bestDist)
      else do
        let (bestLen, bestDist, stop) ← tryCandidate input pos maxLen candidate dist bestLen bestDist
        if stop then pure (bestLen, bestDist)
        else do
          let candidate ← index f.prev (candidate &&& (windowSize - 1))
          followChain f input pos maxLen candidate bestLen bestDist remaining

def longestMatch (f : MatchFinder) (input : List UInt8) (pos : Nat) : Res (Nat × Nat) :=
  if input.length < pos + minMatch then .ok (0, 0)
  else do
    let maxLen := min maxMatch (input.length - pos)
    let candidate ← index f.head (← hash input pos)
    let (bestLen, bestDist) ← followChain f input pos maxLen candidate (minMatch - 1) 0 maxChain
    pure (if minMatch ≤ bestLen then (bestLen, bestDist) else (0, 0))

/-! ## The chains -/

structure Sound (f : MatchFinder) : Prop where
  head_length : f.head.length = hashSize
  prev_length : f.prev.length = windowSize
  head_lt : ∀ q ∈ f.head, q = noPosition ∨ q < f.nextInsert
  prev_lt : ∀ q ∈ f.prev, q = noPosition ∨ q < f.nextInsert

theorem sound_new : new.Sound := ⟨length_replicate .., length_replicate ..,
    fun _ hq => .inl (eq_of_mem_replicate hq), fun _ hq => .inl (eq_of_mem_replicate hq)⟩

variable {input : List UInt8} {pos start maxLen : Nat} {f : MatchFinder}

theorem hash_spec (h : pos + minMatch ≤ input.length) : ∃ k < hashSize, hash input pos = .ok k := by
  simp only [minMatch] at h
  refine ⟨_, ?_, by
    rw [hash, index_of_lt (by omega), ok_bind, index_of_lt (by omega), ok_bind, index_of_lt (by omega), ok_bind]
    rfl⟩
  rw [Nat.shiftRight_eq_div_pow, Nat.div_lt_iff_lt_mul (Nat.two_pow_pos _)]
  exact Nat.lt_of_lt_of_eq (Nat.mod_lt _ (Nat.two_pow_pos 32)) rfl

theorem and_window_lt (pos : Nat) : pos &&& (windowSize - 1) < windowSize :=
  Nat.lt_of_le_of_lt Nat.and_le_right (by decide)

theorem mem_set_lt {xs : List Nat} {i x n : Nat} (hxs : ∀ q ∈ xs, q = noPosition ∨ q < n)
    (hx : x = noPosition ∨ x < n + 1) : ∀ q ∈ xs.set i x, q = noPosition ∨ q < n + 1 := by
  intro q hq
  rcases mem_or_eq_of_mem_set hq with hmem | rfl
  · exact (hxs q hmem).imp_right lt_succ_of_lt
  · exact hx

theorem insertNext_spec (hf : f.Sound) (input : List UInt8) :
    ∃ f', f.insertNext input = .ok f' ∧ f'.Sound ∧ f'.nextInsert = f.nextInsert + 1 := by
  rw [insertNext]
  split
  case isTrue hfits =>
    obtain ⟨k, hk, hhash⟩ := hash_spec hfits
    have hk' : k < f.head.length := by rw [hf.head_length]; exact hk
    have hslot : f.nextInsert &&& (windowSize - 1) < f.prev.length := by
      rw [hf.prev_length]
      exact and_window_lt _
    rw [hhash, ok_bind, index_of_lt hk', ok_bind, store_of_lt _ hslot, ok_bind, store_of_lt _ hk', ok_bind]
    refine ⟨_, rfl, ⟨by rw [length_set, hf.head_length], by rw [length_set, hf.prev_length], ?_, ?_⟩, rfl⟩
    · exact mem_set_lt hf.head_lt (.inr (lt_succ_of_le (mod_le ..)))
    · exact mem_set_lt hf.prev_lt ((hf.head_lt _ (getElem_mem _)).imp_right lt_succ_of_lt)
  case isFalse =>
    exact ⟨_, rfl, ⟨hf.head_length, hf.prev_length, fun q hq => (hf.head_lt q hq).imp_right lt_succ_of_lt,
      fun q hq => (hf.prev_lt q hq).imp_right lt_succ_of_lt⟩, rfl⟩

theorem insertLoop_spec (input : List UInt8) (stop fuel : Nat) (hf : f.Sound)
    (hle : f.nextInsert ≤ stop) (hfuel : stop ≤ f.nextInsert + fuel) :
    ∃ f', insertLoop input stop fuel f = .ok f' ∧ f'.Sound ∧ f'.nextInsert = stop := by
  induction fuel generalizing f with
  | zero => exact ⟨f, by rw [insertLoop, if_neg (by omega)], hf, by omega⟩
  | succ fuel ih =>
    by_cases hlt : f.nextInsert < stop
    · obtain ⟨_, hins, hf1, _⟩ := insertNext_spec hf input
      obtain ⟨f', hloop, hf', hstop⟩ := ih hf1 (by omega) (by omega)
      refine ⟨f', ?_, hf', hstop⟩
      rw [insertLoop, if_pos hlt, hins, ok_bind, hloop]
    · exact ⟨f, by rw [insertLoop, if_neg hlt], hf, by omega⟩

theorem insertThrough_spec (hf : f.Sound) (input : List UInt8) {stop : Nat} (hle : f.nextInsert ≤ stop) :
    ∃ f', f.insertThrough input stop = .ok f' ∧ f'.Sound ∧ f'.nextInsert = stop :=
  insertLoop_spec input stop _ hf hle (by omega)

/-! ## The match -/

theorem commonLength_spec (hstart : start < pos) (i n : Nat) (hfits : pos + (i + n) ≤ input.length) :
    ∃ len, commonLength input start pos i n = .ok len ∧ i ≤ len ∧ len ≤ i + n ∧
      ∀ j, i ≤ j → j < len → input[start + j]? = input[pos + j]? := by
  induction n generalizing i with
  | zero => exact ⟨i, rfl, Nat.le_refl _, Nat.le_refl _, fun j _ _ => by omega⟩
  | succ n ih =>
    have hs : start + i < input.length := by omega
    have hp : pos + i < input.length := by omega
    rw [commonLength, index_of_lt hs, ok_bind, index_of_lt hp, ok_bind]
    split
    case isTrue heq =>
      obtain ⟨len, hlen, _, _, hagree⟩ := ih (i + 1) (by omega)
      refine ⟨len, hlen, by omega, by omega, fun j hij hj => ?_⟩
      by_cases hji : j = i
      · rw [hji, List.getElem?_eq_getElem hs, List.getElem?_eq_getElem hp, heq]
      · exact hagree j (by omega) hj
    case isFalse => exact ⟨i, rfl, Nat.le_refl _, by omega, fun j _ _ => by omega⟩

structure Best (input : List UInt8) (pos len dist : Nat) : Prop where
  two_le : minMatch - 1 ≤ len
  isMatch : minMatch ≤ len → IsMatch input pos len dist ∧ dist ≤ windowSize

theorem tryCandidate_spec {bestLen bestDist : Nat} (hstart : start < pos) (hwindow : pos - start ≤ windowSize)
    (hfits : pos + maxLen ≤ input.length) (hbest : Best input pos bestLen bestDist) (hlt : bestLen < maxLen) :
    ∃ len dist stop, tryCandidate input pos maxLen start (pos - start) bestLen bestDist = .ok (len, dist, stop) ∧
      Best input pos len dist ∧ len ≤ maxLen ∧ (stop = false → len < maxLen) := by
  have hkeep := Nat.le_of_lt hlt
  have ha : start + bestLen < input.length := by omega
  have hb : pos + bestLen < input.length := by omega
  rw [tryCandidate, index_of_lt ha, ok_bind, index_of_lt hb, ok_bind]
  split
  case isTrue =>
    have hend : pos + (0 + maxLen) ≤ input.length := by omega
    obtain ⟨len, hlen, -, _, hagree⟩ := commonLength_spec hstart 0 maxLen hend
    rw [hlen, ok_bind]
    split
    case isTrue hbetter =>
      have htwo := hbest.two_le
      refine ⟨len, pos - start, _, rfl, ⟨by omega, fun _ => ⟨⟨by omega, by omega, by omega, ?_⟩,
        hwindow⟩⟩, by omega, fun hstop => ?_⟩
      · intro i hi
        rw [Nat.sub_sub_self (Nat.le_of_lt hstart)]
        exact hagree i (Nat.zero_le _) hi
      · have hne : len ≠ maxLen := of_decide_eq_false hstop
        omega
    case isFalse => exact ⟨bestLen, bestDist, false, rfl, hbest, hkeep, fun _ => hlt⟩
  case isFalse => exact ⟨bestLen, bestDist, false, rfl, hbest, hkeep, fun _ => hlt⟩

theorem followChain_spec (hf : f.Sound) (hnext : f.nextInsert ≤ pos) (hfits : pos + maxLen ≤ input.length)
    (remaining candidate bestLen bestDist : Nat) (hcand : candidate = noPosition ∨ candidate < f.nextInsert)
    (hbest : Best input pos bestLen bestDist) (hlt : bestLen < maxLen) :
    ∃ len dist, f.followChain input pos maxLen candidate bestLen bestDist remaining = .ok (len, dist) ∧
      Best input pos len dist ∧ len ≤ maxLen := by
  have hkeep := Nat.le_of_lt hlt
  induction remaining generalizing candidate bestLen bestDist with
  | zero => exact ⟨bestLen, bestDist, rfl, hbest, hkeep⟩
  | succ remaining ih =>
    rw [followChain]
    split
    case isTrue => exact ⟨bestLen, bestDist, rfl, hbest, hkeep⟩
    case isFalse hsome =>
      have hstart : candidate < pos := by
        rcases hcand with h | h
        · exact absurd h hsome
        · omega
      rw [sub_of_le (Nat.le_of_lt hstart), ok_bind]
      split
      case isTrue => exact ⟨bestLen, bestDist, rfl, hbest, hkeep⟩
      case isFalse hwindow =>
        obtain ⟨len, dist, stop, htry, hbest', hle, hgo⟩ :=
          tryCandidate_spec hstart (Nat.le_of_not_lt hwindow) hfits hbest hlt
        rw [htry, ok_bind]
        cases stop with
        | true => exact ⟨len, dist, rfl, hbest', hle⟩
        | false =>
          have hslot : candidate &&& (windowSize - 1) < f.prev.length := by
            rw [hf.prev_length]
            exact and_window_lt _
          simp only [Bool.false_eq_true, if_false]
          rw [index_of_lt hslot, ok_bind]
          exact ih _ _ _ (hf.prev_lt _ (getElem_mem _)) hbest' (hgo rfl) hle

/-- No match, or one the format can spell, which repeats the bytes it stands for. -/
def Found (input : List UInt8) (pos : Nat) (m : Nat × Nat) : Prop :=
  m = (0, 0) ∨ IsMatch input pos m.1 m.2 ∧ minMatch ≤ m.1 ∧ m.1 ≤ maxMatch ∧ m.2 ≤ windowSize

theorem longestMatch_spec (hf : f.Sound)
    (hnext : f.nextInsert ≤ pos) : ∃ m, f.longestMatch input pos = .ok m ∧ Found input pos m := by
  rw [longestMatch]
  split
  case isTrue => exact ⟨_, rfl, .inl rfl⟩
  case isFalse hfits =>
    obtain ⟨k, hk, hhash⟩ := hash_spec (Nat.le_of_not_lt hfits)
    have hk' : k < f.head.length := by rw [hf.head_length]; exact hk
    have hmax : minMatch - 1 < min maxMatch (input.length - pos) := by
      simp only [minMatch, maxMatch] at hfits ⊢
      omega
    have hend : pos + min maxMatch (input.length - pos) ≤ input.length := by omega
    obtain ⟨_, _, hchain, hbest, _⟩ := followChain_spec hf hnext hend maxChain f.head[k] (minMatch - 1) 0
      (hf.head_lt _ (getElem_mem _)) ⟨Nat.le_refl _, fun h => absurd h (by decide)⟩ hmax
    rw [hhash, ok_bind, index_of_lt hk', ok_bind, hchain, ok_bind]
    refine ⟨_, rfl, ?_⟩
    split
    case isTrue hmin =>
      obtain ⟨hmatch, hwindow⟩ := hbest.isMatch hmin
      exact .inr ⟨hmatch, hmin, by simp only; omega, hwindow⟩
    case isFalse => exact .inl rfl

end MatchFinder

end Rustlavel.Http.Deflate
