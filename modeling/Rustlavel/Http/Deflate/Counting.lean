/-
  The frequency vectors of `write_block` and `build_dynamic_header`: counting never runs out of the vector or of
  its `u32` counters, and every symbol that was counted ends up with a frequency, hence with a codeword.
-/

import Rustlavel.Http.Deflate.TokenCode
import Rustlavel.Http.Deflate.RunLength

namespace Rustlavel.Http.Deflate

open Outcome List
open Lz77 List

/-- `freq'` is `freq` after `n` increments. -/
structure Grows (freq freq' : List Nat) (n : Nat) : Prop where
  length_eq : freq'.length = freq.length
  sum_eq : freq'.sum = freq.sum + n
  keep : ∀ j, freq.getD j 0 ≠ 0 → freq'.getD j 0 ≠ 0

theorem Grows.refl (freq : List Nat) : Grows freq freq 0 := ⟨rfl, rfl, fun _ h => h⟩

theorem Grows.trans {a b c : List Nat} {m n : Nat} (h1 : Grows a b m) (h2 : Grows b c n) : Grows a c (m + n) :=
  ⟨h2.length_eq.trans h1.length_eq, by rw [h2.sum_eq, h1.sum_eq, Nat.add_assoc], fun j h => h2.keep j (h1.keep j h)⟩

variable {i : Nat}

theorem sum_set_succ (xs : List Nat) (hi : i < xs.length) : (xs.set i (xs[i] + 1)).sum = xs.sum + 1 := by
  induction xs generalizing i with
  | nil => exact absurd hi (Nat.not_lt_zero _)
  | cons x xs ih =>
    cases i with
    | zero =>
      simp only [set_cons_zero, sum_cons, getElem_cons_zero]
      omega
    | succ =>
      have h := ih (Nat.lt_of_succ_lt_succ hi)
      simp only [set_cons_succ, sum_cons, getElem_cons_succ, h]
      omega

theorem getElem_le_sum (xs : List Nat) (hi : i < xs.length) : xs[i] ≤ xs.sum :=
  single_le_sum (fun _ _ => Nat.zero_le _) _ (getElem_mem hi)

theorem bump_spec {freq : List Nat} (hi : i < freq.length) (hsum : freq.sum + 1 < 2 ^ 32) :
    ∃ freq', bump freq i = .ok freq' ∧ Grows freq freq' 1 ∧ freq'.getD i 0 ≠ 0 := by
  have hle := getElem_le_sum freq hi
  refine ⟨freq.set i (freq[i] + 1), ?_, ⟨length_set .., sum_set_succ freq hi, ?_⟩, ?_⟩
  · rw [bump, index_of_lt hi, ok_bind, Nat.mod_eq_of_lt (by omega)]
    exact store_of_lt _ hi
  · intro j hj
    rw [getD_eq_getElem?_getD] at hj ⊢
    by_cases hij : i = j
    · subst hij
      rw [getElem?_set_self hi]
      exact Nat.succ_ne_zero _
    · rwa [getElem?_set_ne hij]
  · rw [getD_eq_getElem?_getD, getElem?_set_self hi]
    exact Nat.succ_ne_zero _

theorem countRuns_spec (freq : List Nat) (es : List RunEntry) (hes : ∀ e ∈ es, e.1 < freq.length)
    (hsum : freq.sum + es.length < 2 ^ 32) :
    ∃ freq', countRuns freq es = .ok freq' ∧ Grows freq freq' es.length ∧ ∀ e ∈ es, freq'.getD e.1 0 ≠ 0 := by
  induction es generalizing freq with
  | nil => exact ⟨freq, rfl, .refl freq, by simp⟩
  | cons e es ih =>
    obtain ⟨sym, _, _⟩ := e
    rw [length_cons] at hsum
    obtain ⟨freq1, hbump, hgrow, hsym⟩ := bump_spec (hes _ mem_cons_self) (by omega)
    obtain ⟨freq2, hcount, hgrow2, hused⟩ := ih freq1 (fun e he => by
        rw [hgrow.length_eq]
        exact hes e (mem_cons_of_mem _ he))
      (by rw [hgrow.sum_eq]; omega)
    refine ⟨freq2, ?_, ?_, ?_⟩
    · rw [countRuns, hbump, ok_bind, hcount]
    · rw [length_cons, Nat.add_comm]
      exact hgrow.trans hgrow2
    · intro e he
      rcases mem_cons.mp he with rfl | he
      · exact hgrow2.keep sym hsym
      · exact hused e he

/-! ## Counting tokens -/

def Encodable : Token → Prop
  | .literal _ => True
  | .matched len dist => minMatch ≤ len ∧ len ≤ maxMatch ∧ 1 ≤ dist ∧ dist ≤ windowSize

theorem Covered.mono {litlen dist litlen' dist' : List Nat} {t : Token}
    (h : Covered litlen dist t) (hl : ∀ j, litlen.getD j 0 ≠ 0 → litlen'.getD j 0 ≠ 0)
    (hd : ∀ j, dist.getD j 0 ≠ 0 → dist'.getD j 0 ≠ 0) : Covered litlen' dist' t := by
  cases t with
  | literal => exact hl _ h
  | matched =>
    obtain ⟨lc, dc, hlc, hdc, hls, hds, hlit, hdst⟩ := h
    exact ⟨lc, dc, hlc, hdc, hls, hds, hl _ hlit, hd _ hdst⟩

theorem countTokens_spec (litlen dist : List Nat) (extra : Nat) (tokens : List Token)
    (hok : ∀ t ∈ tokens, Encodable t) (hlit : litlen.length = litlenSymbols)
    (hdst : dist.length = distSymbols) (hlsum : litlen.sum + tokens.length < 2 ^ 32)
    (hdsum : dist.sum + tokens.length < 2 ^ 32) :
    ∃ litlen' dist' extra' n, countTokens litlen dist extra tokens = .ok (litlen', dist', extra') ∧
      Grows litlen litlen' tokens.length ∧ Grows dist dist' n ∧ n ≤ tokens.length ∧
      ∀ t ∈ tokens, Covered litlen' dist' t := by
  induction tokens generalizing litlen dist extra with
  | nil => exact ⟨litlen, dist, extra, 0, rfl, .refl _, .refl _, Nat.le_refl _, by simp⟩
  | cons t tokens ih =>
    have hok' : ∀ t ∈ tokens, Encodable t := fun t ht => hok t (mem_cons_of_mem _ ht)
    have ht := hok t mem_cons_self
    rw [length_cons] at hlsum hdsum
    rw [length_cons, Nat.add_comm tokens.length]
    cases t with
    | literal byte =>
      have hsym : byte.toNat < litlen.length := by
        rw [hlit]
        exact Nat.lt_of_lt_of_le byte.toNat_lt (by decide)
      obtain ⟨litlen1, hbump, hgrow, hused⟩ := bump_spec hsym (by omega)
      obtain ⟨litlen', dist', extra', n, hcount, hl, hd, hn, hcov⟩ := ih litlen1 dist extra hok'
        (hgrow.length_eq.trans hlit) hdst (by rw [hgrow.sum_eq]; omega) (by omega)
      refine ⟨litlen', dist', extra', n, ?_, hgrow.trans hl, hd, by omega, ?_⟩
      · rw [countTokens, hbump, ok_bind, hcount]
      · intro t ht
        rcases mem_cons.mp ht with rfl | ht
        · exact hl.keep _ hused
        · exact hcov t ht
    | matched =>
      obtain ⟨hlo, hhi, hdlo, hdhi⟩ := ht
      obtain ⟨lc, hlc, hls⟩ := lengthCode_spec hlo hhi
      obtain ⟨dc, hdc, hds⟩ := distCode_spec hdlo hdhi
      obtain ⟨_, le, hlb, hle, -⟩ := spells_iff.mp hls
      obtain ⟨_, de, hdb, hde, -⟩ := spells_iff.mp hds
      have hlt : lc < 29 := (List.getElem?_eq_some_iff.mp hlb).1
      have hdt : dc < 30 := (List.getElem?_eq_some_iff.mp hdb).1
      have hlsym : 257 + lc < litlen.length := by rw [hlit, litlenSymbols]; omega
      have hdsym : dc < dist.length := by rw [hdst]; exact hdt
      obtain ⟨litlen1, hlbump, hlgrow, hlused⟩ := bump_spec hlsym (by omega)
      obtain ⟨dist1, hdbump, hdgrow, hdused⟩ := bump_spec hdsym (by omega)
      obtain ⟨litlen', dist', extra', n, hcount, hl, hd, _, hcov⟩ :=
        ih litlen1 dist1 (extra + le + de) hok' (hlgrow.length_eq.trans hlit)
          (hdgrow.length_eq.trans hdst) (by rw [hlgrow.sum_eq]; omega)
          (by rw [hdgrow.sum_eq]; omega)
      refine ⟨litlen', dist', extra', 1 + n, ?_, hlgrow.trans hl, hdgrow.trans hd, by omega, ?_⟩
      · rw [countTokens, hlc, ok_bind, hdc, ok_bind, hlbump, ok_bind,
          hdbump, ok_bind, index_eq_ok hle, ok_bind,
          index_eq_ok hde, ok_bind, hcount]
      · intro t ht
        rcases mem_cons.mp ht with rfl | ht
        · exact ⟨lc, dc, hlc, hdc, hls, hds, hl.keep _ hlused, hd.keep _ hdused⟩
        · exact hcov t ht

end Rustlavel.Http.Deflate
