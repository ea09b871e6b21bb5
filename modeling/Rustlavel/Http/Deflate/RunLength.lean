/-
  The run-length code of a dynamic header (RFC 1951 §3.2.7): what a sequence of
  entries stands for, that `build_dynamic_header` finds a sequence for any list
  of lengths, and that the inflater's loop reads the list back.
-/

import Rustlavel.Http.Deflate.Inflate
import Rustlavel.Http.Deflate.Compress
import Rustlavel.Http.Deflate.CodeBook

namespace Rustlavel.Http.Deflate

open BitList BitReader List Outcome Nat

/-! ## What a sequence stands for -/

/-- After the lengths `acc`, the entry stands for `n` times the length `v`. -/
inductive EntryMeans (acc : List Nat) : RunEntry → Nat → Nat → Prop where
  | length {l : Nat} (h : l ≤ 15) : EntryMeans acc (l, 0, 0) l 1
  | repeatLast {l n : Nat} (h : n < 2 ^ 2) (hl : acc.getLast? = some l) : EntryMeans acc (16, n, 2) l (3 + n)
  | zeros {n : Nat} (h : n < 2 ^ 3) : EntryMeans acc (17, n, 3) 0 (3 + n)
  | manyZeros {n : Nat} (h : n < 2 ^ 7) : EntryMeans acc (18, n, 7) 0 (11 + n)

/-- The entries extend the lengths `acc` to `out`. -/
inductive Expands : List Nat → List RunEntry → List Nat → Prop where
  | nil (acc : List Nat) : Expands acc [] acc
  | cons {acc out : List Nat} {e : RunEntry} {es : List RunEntry} {v n : Nat}
      (he : EntryMeans acc e v n) (hes : Expands (acc ++ replicate n v) es out) :
      Expands acc (e :: es) out

theorem Expands.append {a b c : List Nat} {xs ys : List RunEntry} (h1 : Expands a xs b)
    (h2 : Expands b ys c) : Expands a (xs ++ ys) c := by
  induction h1 with
  | nil => exact h2
  | cons he _ ih => exact .cons he (ih h2)

variable {acc out : List Nat} {e : RunEntry} {v n : Nat} {es : List RunEntry} {d : Decoder}

theorem EntryMeans.pos (h : EntryMeans acc e v n) : 0 < n := by
  cases h <;> omega

theorem EntryMeans.symbol_lt (h : EntryMeans acc e v n) : e.1 < codeLengthSymbols := by
  cases h <;> simp only [codeLengthSymbols] <;> omega

theorem EntryMeans.extra_lt (h : EntryMeans acc e v n) : e.2.1 < 2 ^ e.2.2 := by
  cases h with
  | length => exact one_pos
  | repeatLast h | zeros h | manyZeros h => exact h

theorem Expands.length_le (h : Expands acc es out) : acc.length + es.length ≤ out.length := by
  induction h with
  | nil => simp
  | cons he _ ih =>
    have := he.pos
    rw [length_append, length_replicate] at ih
    rw [length_cons]
    omega

theorem Expands.symbol_lt (h : Expands acc es out) : ∀ e ∈ es, e.1 < codeLengthSymbols := by
  induction h with
  | nil => simp
  | cons he _ ih =>
    intro e hmem
    rcases mem_cons.mp hmem with rfl | hmem
    · exact he.symbol_lt
    · exact ih e hmem

/-! ## Finding a sequence -/

theorem expands_replicate (acc : List Nat) (hv : v ≤ 15) (n : Nat) :
    Expands acc (replicate n (v, 0, 0)) (acc ++ replicate n v) := by
  induction n generalizing acc with
  | zero =>
    rw [replicate_zero, replicate_zero, append_nil]
    exact .nil acc
  | succ n ih =>
    have h := ih (acc ++ replicate 1 v)
    rw [append_assoc, replicate_append_replicate, add_comm 1 n] at h
    exact .cons (.length hv) h

theorem expands_zeroRuns (acc : List Nat) (run : Nat) : Expands acc (zeroRuns run) (acc ++ replicate run 0) := by
  induction run using Nat.strongRecOn generalizing acc with
  | ind run ih =>
    rw [zeroRuns]
    split
    case isTrue hlong =>
      have hn : 11 + (min run 138 - 11) = min run 138 := by omega
      have h := ih (run - min run 138) (by omega) (acc ++ replicate (min run 138) 0)
      rw [append_assoc, replicate_append_replicate, Nat.add_sub_cancel' (Nat.min_le_left ..)] at h
      refine .cons (.manyZeros (by omega)) ?_
      rw [hn]
      exact h
    case isFalse hshort =>
      split
      case isTrue hthree =>
        have h := Expands.nil (acc ++ replicate run 0)
        refine .cons (.zeros (by omega)) ?_
        rwa [Nat.add_sub_cancel' hthree]
      case isFalse => exact expands_replicate acc (zero_le _) run

theorem expands_repeatRuns (acc : List Nat) (hv : v ≤ 15) (hlast : acc.getLast? = some v)
    (run : Nat) : Expands acc (repeatRuns v run) (acc ++ replicate run v) := by
  induction run using Nat.strongRecOn generalizing acc with
  | ind run ih =>
    rw [repeatRuns]
    split
    case isTrue hlong =>
      have hn : 3 + (min run 6 - 3) = min run 6 := by omega
      have hlast' : (acc ++ replicate (min run 6) v).getLast? = some v := by
        rw [getLast?_append, getLast?_replicate, if_neg (by omega)]
        rfl
      have h := ih (run - min run 6) (by omega) _ hlast'
      rw [append_assoc, replicate_append_replicate, Nat.add_sub_cancel' (Nat.min_le_left ..)] at h
      refine .cons (.repeatLast (by omega) hlast) ?_
      rw [hn]
      exact h
    case isFalse => exact expands_replicate acc hv run

theorem replicate_append_drop_run (v : Nat) (xs : List Nat) : replicate (xs.takeWhile fun l => l = v).length v ++
      xs.drop (xs.takeWhile fun l => l = v).length = xs := by
  have hrun : replicate (xs.takeWhile fun l => l = v).length v = xs.takeWhile fun l => l = v := by
    symm
    apply eq_replicate_of_mem
    intro b hb
    have hall := all_takeWhile (l := xs) (p := fun l => decide (l = v))
    exact of_decide_eq_true (all_eq_true.mp hall b hb)
  have hpre := prefix_iff_eq_take.mp ( takeWhile_prefix (l := xs) fun l => decide (l = v))
  rw [hrun]
  conv_lhs =>
    enter [1]
    rw [hpre]
  exact take_append_drop _ xs

theorem expands_runLengths (acc lengths : List Nat) (hle : ∀ l ∈ lengths, l ≤ 15) :
    Expands acc (runLengths lengths) (acc ++ lengths) := by
  induction lengths using runLengths.induct generalizing acc with
  | case1 =>
    rw [runLengths, append_nil]
    exact .nil acc
  | case2 v rest more ih =>
    have hv : v ≤ 15 := hle v mem_cons_self
    have hdrop : ∀ l ∈ rest.drop more, l ≤ 15 := fun l hl =>
      hle l (mem_cons_of_mem _ (mem_of_mem_drop hl))
    have hsplit : acc ++ v :: rest = acc ++ replicate (more + 1) v ++ rest.drop more := by
      rw [replicate_succ, append_assoc, cons_append, replicate_append_drop_run]
    rw [runLengths, hsplit]
    refine Expands.append ?_ (ih _ hdrop)
    split
    case isTrue hzero =>
      subst hzero
      exact expands_zeroRuns acc (more + 1)
    case isFalse =>
      -- the length itself, then its repetitions
      have h := expands_repeatRuns (acc ++ replicate 1 v) hv (by simp) more
      rw [append_assoc, replicate_append_replicate, add_comm 1 more] at h
      exact .cons (.length hv) h

/-! ## Reading a sequence -/

theorem fill_append_zeros (acc : List Nat) (n m v : Nat) : fill (acc ++ replicate m 0) acc.length n v =
      (acc ++ replicate n v) ++ replicate (m - n) 0 := by
  rw [fill, take_left' rfl, ← drop_drop, drop_left' rfl, drop_replicate]

theorem parses_readRepeat (h : EntryMeans acc e v n) (m : Nat) :
    Parses (readRepeat (acc ++ replicate m 0) acc.length e.1) (lsb e.2.1 e.2.2) (v, n) := by
  cases h with
  | length hl =>
    intro r tail hr hrest
    exact ⟨r, by rw [readRepeat, if_pos hl]; rfl, hr, hrest, rfl⟩
  | repeatLast hn hlast =>
    have hne : acc.length ≠ 0 := by
      intro h0
      rw [length_eq_zero_iff.mp h0] at hlast
      simp at hlast
    have hget : (acc ++ replicate m 0)[acc.length - 1]? = some v := by
      rw [getElem?_append_left (by omega), ← getLast?_eq_getElem?, hlast]
    intro r tail hr hrest
    obtain ⟨r', hread, hwf, htail, hdata⟩ := read_field hr hn hrest
    refine ⟨r', ?_, hwf, htail, hdata⟩
    show readRepeat _ _ 16 r = _
    rw [readRepeat, if_neg (by decide), if_pos rfl, if_neg hne, index_eq_ok hget, ok_bind, hread]
    rfl
  | @zeros k hn =>
    have hparses := (parses_read hn).bind (q := fun x => .ok ((0, 3 + x.1), x.2)) (parses_pure (0, 3 + k))
    rwa [append_nil] at hparses
  | @manyZeros k hn =>
    have hparses := (parses_read hn).bind (q := fun x => .ok ((0, 11 + x.1), x.2)) (parses_pure (0, 11 + k))
    rwa [append_nil] at hparses

theorem parses_readLengths_step {m fuel : Nat} {bits tail : List Bool} (he : EntryMeans acc e v n) (hnm : n ≤ m)
    (hsym : Parses d.decode bits e.1)
    (hrest : Parses (readLengths d fuel ((acc ++ replicate n v) ++ replicate (m - n) 0)
      (acc ++ replicate n v).length) tail out) :
    Parses (readLengths d (fuel + 1) (acc ++ replicate m 0) acc.length) (bits ++ (lsb e.2.1 e.2.2 ++ tail)) out := by
  have hpos := he.pos
  have hlen : (acc ++ replicate m 0).length = acc.length + m := by simp
  have hmore : acc.length < acc.length + m := by omega
  have hfits : ¬ acc.length + m < acc.length + n := by omega
  have hstep := hsym.bind (q := fun x => readRepeat (acc ++ replicate m 0) acc.length x.1 x.2 >>=
      fun y => if acc.length + m < acc.length + y.1.2 then fail .invalidCodeLengths
        else readLengths d fuel (fill (acc ++ replicate m 0) acc.length y.1.2 y.1.1) (acc.length + y.1.2) y.2)
    ((parses_readRepeat he m).bind (by
      simp only [hfits, if_false, fill_append_zeros]
      rw [length_append, length_replicate] at hrest
      exact hrest))
  intro r tail' hr htail
  obtain ⟨r', hread, h⟩ := hstep r tail' hr htail
  refine ⟨r', ?_, h⟩
  rw [readLengths, hlen, if_pos hmore]
  exact hread

theorem writeSequence_spec {codes : List Code} {codeLengths : List Nat} (hagree : Agree d codes codeLengths)
    (hexp : Expands acc es out) (hused : ∀ e ∈ es, codeLengths.getD e.1 0 ≠ 0) {w : BitWriter} (hw : w.WF) :
    ∃ w' bits, writeSequence codes es w = .ok w' ∧ w.Appends w' bits ∧ ∀ fuel, out.length ≤ acc.length + fuel →
        Parses (readLengths d fuel (acc ++ replicate (out.length - acc.length) 0) acc.length) bits out := by
  induction hexp generalizing w with
  | nil =>
    refine ⟨w, [], rfl, .refl hw, fun fuel _ r tail hr hrest => ⟨r, ?_, hr, hrest, rfl⟩⟩
    rw [Nat.sub_self, replicate_zero, append_nil]
    cases fuel <;> rw [readLengths, if_neg (lt_irrefl _)]
  | @cons acc out e es v n he hes ih =>
    obtain ⟨sym, _, _⟩ := e
    obtain ⟨_, hcode, -, hbits, hparse⟩ := hagree sym (hused _ mem_cons_self)
    have h1 := BitWriter.write_appends hw hbits
    have h2 := BitWriter.write_appends h1.wf he.extra_lt
    obtain ⟨w', _, hwrite, happ, hread⟩ := ih (fun e hmem => hused e (mem_cons_of_mem _ hmem)) h2.wf
    refine ⟨w', _, ?_, h1.trans (h2.trans happ), fun fuel hfuel => ?_⟩
    · rw [writeSequence, index_eq_ok hcode, ok_bind]
      exact hwrite
    · have hlen := hes.length_le
      have hpos := he.pos
      rw [length_append, length_replicate] at hlen hread
      obtain ⟨fuel, rfl⟩ : ∃ k, fuel = k + 1 := ⟨fuel - 1, by omega⟩
      have hrest := hread fuel (by omega)
      rw [← Nat.sub_sub] at hrest
      refine parses_readLengths_step he (by omega) hparse ?_
      rw [length_append, length_replicate]
      exact hrest

end Rustlavel.Http.Deflate
