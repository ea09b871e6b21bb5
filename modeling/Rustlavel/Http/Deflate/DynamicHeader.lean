/-
  The header of a dynamic block: what `build_dynamic_header` guarantees, and that `read_dynamic_codes` recovers
  from `write_dynamic_header`'s bits two decoders that agree with the compressor's codes.
-/

import Rustlavel.Http.Deflate.Counting

namespace Rustlavel.Http.Deflate

open BitList BitReader List Outcome Option Nat BitWriter

/-! ## Leaving out trailing unused symbols -/

variable {p : Nat → Bool} {xs cl litlenFreq distFreq : List Nat} {i default k : Nat} {w : BitWriter}

theorem rposition_none (h : rposition p xs = none) : ∀ x ∈ xs, p x = false := by
  induction xs with
  | nil => simp
  | cons y ys ih =>
    rw [rposition] at h
    cases hys : rposition p ys with
    | some => simp [hys] at h
    | none =>
      rw [hys] at h
      have hy : p y = false := by
        by_contra hne
        simp [hne] at h
      intro x hx
      rcases mem_cons.mp hx with rfl | hx
      · exact hy
      · exact ih hys x hx

theorem rposition_some (h : rposition p xs = some i) :
    i < xs.length ∧ ∀ j x, i < j → xs[j]? = some x → p x = false := by
  induction xs generalizing i with
  | nil => simp [rposition] at h
  | cons y ys ih =>
    rw [rposition] at h
    cases hys : rposition p ys with
    | some k =>
      rw [hys] at h
      obtain rfl : k + 1 = i := by simpa using h
      obtain ⟨hlt, hafter⟩ := ih hys
      refine ⟨succ_lt_succ hlt, fun j x hj hx => ?_⟩
      cases j with
      | zero => exact absurd hj (not_lt_zero _)
      | succ j => exact hafter j x (lt_of_succ_lt_succ hj) hx
    | none =>
      rw [hys] at h
      have hi : i = 0 := by
        by_cases hy : p y = true
        · simpa [hy] using h.symm
        · simp [hy] at h
      refine ⟨by rw [hi]; exact succ_pos _, fun j x hj hx => ?_⟩
      cases j with
      | zero => exact absurd hj (not_lt_zero _)
      | succ => exact rposition_none hys x (mem_of_getElem? hx)

theorem getD_of_usedLength_le {j : Nat} (h : usedLength default xs ≤ j) : xs.getD j 0 = 0 := by
  rw [getD_eq_getElem?_getD]
  cases hx : xs[j]? with
  | none => rfl
  | some x =>
    have hp : decide (x ≠ 0) = false := by
      rw [usedLength] at h
      cases hpos : rposition (fun l => decide (l ≠ 0)) xs with
      | none => exact rposition_none hpos x (mem_of_getElem? hx)
      | some =>
        rw [hpos] at h
        exact (rposition_some hpos).2 j x h hx
    simpa using hp

theorem usedLength_le (default : Nat) (xs : List Nat) : usedLength default xs ≤ max default xs.length := by
  rw [usedLength]
  cases hpos : rposition (fun l => decide (l ≠ 0)) xs with
  | none => exact le_max_left ..
  | some => exact le_trans (rposition_some hpos).1 (le_max_right ..)

theorem usedLength_pos (hd : 1 ≤ default) (xs : List Nat) : 1 ≤ usedLength default xs := by
  rw [usedLength]
  split
  · exact succ_pos _
  · exact hd

theorem take_append_zeros (h : ∀ j, k ≤ j → xs.getD j 0 = 0) : xs.take k ++ replicate (xs.length - k) 0 = xs := by
  have hdrop : replicate (xs.length - k) 0 = xs.drop k := by
    symm
    apply eq_replicate_iff.mpr
    refine ⟨length_drop, fun b hb => ?_⟩
    obtain ⟨i, hi, rfl⟩ := getElem_of_mem hb
    have hz := h (k + i) (Nat.le_add_right ..)
    rw [length_drop] at hi
    rwa [getD_eq_getElem?_getD, getElem?_eq_getElem (by omega), getD_some, ← getElem_drop] at hz
  rw [hdrop]
  exact take_append_drop k xs

/-! ## Building the header -/

structure HeaderOk (litlenFreq distFreq : List Nat) (header : DynamicHeader) : Prop where
  litlen : CodeFor litlenFreq maxBits header.litlenLengths
  dist : CodeFor distFreq maxBits header.distLengths
  hlit_ge : 257 ≤ header.hlit
  hlit_le : header.hlit ≤ litlenSymbols
  hdist_ge : 1 ≤ header.hdist
  hdist_le : header.hdist ≤ distSymbols
  hclen_ge : 4 ≤ header.hclen
  hclen_le : header.hclen ≤ codeLengthSymbols
  litlen_unused : ∀ j, header.hlit ≤ j → header.litlenLengths.getD j 0 = 0
  dist_unused : ∀ j, header.hdist ≤ j → header.distLengths.getD j 0 = 0
  expands : Expands [] header.sequence (header.litlenLengths.take header.hlit ++ header.distLengths.take header.hdist)
  codeLength_ok : CodeOk header.codeLengthLengths
  codeLength_length : header.codeLengthLengths.length = codeLengthSymbols
  codeLength_lt : ∀ l ∈ header.codeLengthLengths, l < 2 ^ 3
  codeLength_used : ∀ e ∈ header.sequence, header.codeLengthLengths.getD e.1 0 ≠ 0
  codeLength_unused : ∀ s ∈ codeLengthOrder.drop header.hclen, header.codeLengthLengths.getD s 0 = 0

theorem index_getD (h : i < xs.length) : (index xs i : Res Nat) = .ok (xs.getD i 0) := by
  rw [index_of_lt h, getD_eq_getElem?_getD, getElem?_eq_getElem h, getD_some]

theorem codeLengthOrder_lt : ∀ s ∈ codeLengthOrder, s < codeLengthSymbols := by decide

theorem mem_codeLengthOrder : ∀ s < codeLengthSymbols, s ∈ codeLengthOrder := by decide

theorem unused_of_usedLength_le (h : usedLength default (codeLengthOrder.map fun s => cl.getD s 0) ≤ k) :
    ∀ s ∈ codeLengthOrder.drop k, cl.getD s 0 = 0 := by
  intro s hs
  obtain ⟨i, hi, rfl⟩ := getElem_of_mem hs
  rw [length_drop] at hi
  have hzero := getD_of_usedLength_le (le_trans h (le_add_right k i))
  rwa [getD_eq_getElem?_getD, getElem?_map, getElem?_eq_getElem (by omega), ← getElem_drop] at hzero

theorem buildDynamicHeader_spec (hlit : litlenFreq.length = litlenSymbols) (hdst : distFreq.length = distSymbols)
    (hlsum : litlenFreq.sum < 2 ^ 64) (hdsum : distFreq.sum < 2 ^ 64) :
    ∃ header, buildDynamicHeader litlenFreq distFreq = .ok header ∧ HeaderOk litlenFreq distFreq header := by
  have hlfit : (usedSymbols litlenFreq).length ≤ 2 ^ maxBits := (length_usedSymbols_le _).trans (by rw [hlit]; decide)
  have hdfit : (usedSymbols distFreq).length ≤ 2 ^ maxBits := (length_usedSymbols_le _).trans (by rw [hdst]; decide)
  obtain ⟨ll, hll, hlcode, -⟩ := buildLengths_spec hlsum hlfit (by decide)
  obtain ⟨dl, hdl, hdcode, -⟩ := buildLengths_spec hdsum hdfit (by decide)
  let hlit' := max (usedLength 257 ll) 257
  let hdist' := usedLength 1 dl
  have hlle : hlit' ≤ litlenSymbols := by
    have h := usedLength_le 257 ll
    rw [hlcode.length_eq, hlit] at h
    exact Nat.max_le.mpr ⟨h, by decide⟩
  have hdle : hdist' ≤ distSymbols := by
    have h := usedLength_le 1 dl
    rwa [hdcode.length_eq, hdst] at h
  -- the two alphabets' lengths, run-length coded as one sequence
  let all := ll.take hlit' ++ dl.take hdist'
  have hexp : Expands [] (runLengths all) all := by
    have h := expands_runLengths [] all fun l hl => by
      rcases mem_append.mp hl with hl | hl
      · exact hlcode.le_limit l (mem_of_mem_take hl)
      · exact hdcode.le_limit l (mem_of_mem_take hl)
    rwa [nil_append] at h
  have hseq : (runLengths all).length ≤ litlenSymbols + distSymbols := by
    have hall : all.length ≤ litlenSymbols + distSymbols := by
      simp only [all, length_append, length_take]
      omega
    have h := hexp.length_le
    rw [length_nil, zero_add] at h
    exact le_trans h hall
  -- the code-length code
  have hzero : (replicate codeLengthSymbols 0).sum = 0 := rfl
  obtain ⟨clf, hclf, hgrow, hused⟩ := countRuns_spec (replicate codeLengthSymbols 0)
    (runLengths all) (fun e he => by rw [length_replicate]; exact hexp.symbol_lt e he)
    (by
      rw [hzero, zero_add]
      exact lt_of_le_of_lt hseq (by decide))
  have hclen : clf.length = codeLengthSymbols := by rw [hgrow.length_eq, length_replicate]
  have hcsum : clf.sum < 2 ^ 64 := by
    rw [hgrow.sum_eq, hzero, zero_add]
    exact lt_of_le_of_lt hseq (by decide)
  have hcfit : (usedSymbols clf).length ≤ 2 ^ maxCodeLengthBits :=
    (length_usedSymbols_le _).trans (by rw [hclen]; decide)
  obtain ⟨cl, hcl, hccode, -⟩ := buildLengths_spec hcsum hcfit (by decide)
  have hcllen := hccode.length_eq.trans hclen
  let ordered := codeLengthOrder.map fun s => cl.getD s 0
  have hordered := mapM_eq_ok fun s hs => index_getD (by rw [hcllen]; exact codeLengthOrder_lt s hs)
  refine ⟨{ litlenLengths := ll, distLengths := dl, hlit := hlit', hdist := hdist',
            hclen := max (usedLength 4 ordered) 4, codeLengthLengths := cl,
            sequence := runLengths all }, ?_, ?_⟩
  · rw [buildDynamicHeader, hll, ok_bind, hdl, ok_bind]
    simp only
    rw [hclf, ok_bind, hcl, ok_bind, hordered]
    rfl
  · exact
      { litlen := hlcode
        dist := hdcode
        hlit_ge := le_max_right ..
        hlit_le := hlle
        hdist_ge := usedLength_pos (le_refl 1) dl
        hdist_le := hdle
        hclen_ge := le_max_right ..
        hclen_le := Nat.max_le.mpr ⟨usedLength_le 4 ordered, by decide⟩
        litlen_unused := fun j hj =>
          getD_of_usedLength_le (le_trans (le_max_left ..) hj)
        dist_unused := fun j hj => getD_of_usedLength_le hj
        expands := hexp
        codeLength_ok := codeOk_of_codeFor hccode (by decide) (by rw [hclen]; decide)
        codeLength_length := hcllen
        codeLength_lt := fun l hl => lt_succ_of_le (hccode.le_limit l hl)
        codeLength_used := fun e he hzero => hused e he ((hccode.zero_iff e.1).mp hzero)
        codeLength_unused := unused_of_usedLength_le (le_max_left ..) }

/-! ## The code-length code lengths -/

/-- What the three-bit fields of a header leave in the vector of code-length code lengths. -/
def overwrite (cl : List Nat) : List Nat → List Nat → List Nat
  | [], acc => acc
  | s :: order, acc => overwrite cl order (acc.set s (cl.getD s 0))

theorem getElem?_overwrite (cl order acc : List Nat) (hi : i < acc.length) :
    (overwrite cl order acc)[i]? = if i ∈ order then some (cl.getD i 0) else acc[i]? := by
  induction order generalizing acc with
  | nil => simp [overwrite]
  | cons s order ih =>
    rw [overwrite, ih _ (by rwa [length_set])]
    by_cases hmem : i ∈ order
    · simp [hmem]
    · by_cases his : s = i
      · subst his
        simp [hmem, hi]
      · simp [hmem, his, Ne.symm his]

theorem length_overwrite (cl order acc : List Nat) : (overwrite cl order acc).length = acc.length := by
  induction order generalizing acc with
  | nil => rfl
  | cons s order ih => rw [overwrite, ih, length_set]

theorem overwrite_take_order (hlen : cl.length = codeLengthSymbols)
    (hunused : ∀ s ∈ codeLengthOrder.drop k, cl.getD s 0 = 0) :
    overwrite cl (codeLengthOrder.take k) (replicate codeLengthSymbols 0) = cl := by
  apply ext_getElem?
  intro i
  by_cases hi : i < codeLengthSymbols
  · have hget : cl[i]? = some (cl.getD i 0) := by
      rw [getD_eq_getElem?_getD, getElem?_eq_getElem (by omega), getD_some]
    rw [getElem?_overwrite _ _ _ (by rwa [length_replicate]), hget, getElem?_replicate, if_pos hi]
    split
    case isTrue => rfl
    case isFalse hnot =>
      -- every symbol is in the order, so this one is in the part not sent
      have hmem := mem_codeLengthOrder i hi
      rw [← take_append_drop k codeLengthOrder, mem_append] at hmem
      rw [hunused i (hmem.resolve_left hnot)]
  · rw [getElem?_eq_none (by rw [length_overwrite, length_replicate]; omega), getElem?_eq_none (by omega)]

theorem writeCodeLengths_spec (hlen : cl.length = codeLengthSymbols)
    (hlt : ∀ l ∈ cl, l < 2 ^ 3) (order : List Nat) (horder : ∀ s ∈ order, s < codeLengthSymbols) (hw : w.WF) :
    ∃ w' bits, writeCodeLengths cl order w = .ok w' ∧ w.Appends w' bits ∧
      ∀ acc : List Nat, acc.length = codeLengthSymbols →
        Parses (readCodeLengths acc order) bits (overwrite cl order acc) := by
  induction order generalizing w with
  | nil => exact ⟨w, [], rfl, .refl hw, fun acc _ => parses_pure acc⟩
  | cons s order ih =>
    have hs := horder s mem_cons_self
    have hget : cl.getD s 0 < 2 ^ 3 := by
      rw [getD_eq_getElem?_getD, getElem?_eq_getElem (by omega), getD_some]
      exact hlt _ (getElem_mem _)
    have happ := write_appends hw hget
    obtain ⟨w', _, hwrite, happ', hread⟩ := ih (fun t ht => horder t (mem_cons_of_mem _ ht)) happ.wf
    refine ⟨w', _, ?_, happ.trans happ', fun acc hacc => ?_⟩
    · rw [writeCodeLengths, index_getD (by omega), ok_bind]
      exact hwrite
    · apply (parses_read hget).bind
      simp only [store_of_lt _ (show s < acc.length by omega), ok_bind]
      exact hread _ (by rw [length_set, hacc])

/-! ## The whole header -/

theorem parses_readDynamicCodes {hlit hdist hclen : Nat} {lengths : List Nat}
    {d litlen dist : Decoder} {bits1 bits2 : List Bool} (hlit_ge : 257 ≤ hlit)
    (hlit_le : hlit ≤ litlenSymbols) (hdist_ge : 1 ≤ hdist) (hdist_le : hdist ≤ distSymbols)
    (hclen_ge : 4 ≤ hclen) (hclen_le : hclen ≤ codeLengthSymbols)
    (hcl : Parses (readCodeLengths (replicate codeLengthSymbols 0) (codeLengthOrder.take hclen)) bits1 cl)
    (hd : Decoder.new cl = .ok d)
    (hlengths : Parses (readLengths d (hlit + hdist) (replicate (hlit + hdist) 0) 0) bits2 lengths)
    {l : Nat} (heob : lengths[endOfBlock]? = some l) (hl : l ≠ 0)
    (hlitlen : Decoder.new (lengths.take hlit) = .ok litlen) (hdist' : Decoder.new (lengths.drop hlit) = .ok dist) :
    Parses readDynamicCodes (lsb (hlit - 257) 5 ++ (lsb (hdist - 1) 5 ++ (lsb (hclen - 4) 4 ++ (bits1 ++ bits2))))
      (litlen, dist) := by
  have h1 : hlit - 257 < 2 ^ 5 := by simp only [litlenSymbols] at hlit_le; omega
  have h2 : hdist - 1 < 2 ^ 5 := by simp only [distSymbols] at hdist_le; omega
  have h3 : hclen - 4 < 2 ^ 4 := by simp only [codeLengthSymbols] at hclen_le; omega
  have hok : ¬ (litlenSymbols < hlit ∨ distSymbols < hdist) := by omega
  intro r tail hr hrest
  simp only [append_assoc] at hrest
  obtain ⟨_, hread1, hwf1, hrest1, hdata1⟩ := read_field hr h1 hrest
  obtain ⟨_, hread2, hwf2, hrest2, hdata2⟩ := read_field hwf1 h2 hrest1
  obtain ⟨r3, hread3, hwf3, hrest3, hdata3⟩ := read_field hwf2 h3 hrest2
  obtain ⟨r4, hread4, hwf4, hrest4, hdata4⟩ := hcl r3 _ hwf3 hrest3
  obtain ⟨r5, hread5, hwf5, hrest5, hdata5⟩ := hlengths r4 _ hwf4 hrest4
  refine ⟨r5, ?_, hwf5, hrest5, hdata5.trans (hdata4.trans (hdata3.trans (hdata2.trans hdata1)))⟩
  rw [readDynamicCodes, hread1, ok_bind]
  simp only
  rw [hread2, ok_bind]
  rw [hread3, ok_bind]
  rw [Nat.sub_add_cancel hlit_ge, Nat.sub_add_cancel hdist_ge, Nat.sub_add_cancel hclen_ge,
    if_neg hok, hread4, ok_bind]
  rw [hd, ok_bind, hread5, ok_bind]
  rw [index_eq_ok heob, ok_bind, if_neg hl, hlitlen, ok_bind, hdist']
  rfl

theorem writeDynamicHeader_spec {header : DynamicHeader}
    (h : HeaderOk litlenFreq distFreq header) (hlit : litlenFreq.length = litlenSymbols)
    (hdst : distFreq.length = distSymbols) (heob : litlenFreq.getD endOfBlock 0 ≠ 0) (hw : w.WF) :
    ∃ w' bits litlenCodes distCodes litlen dist, writeDynamicHeader w header = .ok w' ∧
      w.Appends w' bits ∧ assignCodes header.litlenLengths = .ok litlenCodes ∧
      assignCodes header.distLengths = .ok distCodes ∧
      Agree litlen litlenCodes header.litlenLengths ∧ Agree dist distCodes header.distLengths ∧
      Parses readDynamicCodes bits (litlen, dist) := by
  have hllen := h.litlen.length_eq.trans hlit
  have hdlen := h.dist.length_eq.trans hdst
  have hlok := codeOk_of_codeFor h.litlen (le_refl _) (by rw [hlit]; decide)
  have hdok := codeOk_of_codeFor h.dist (le_refl _) (by rw [hdst]; decide)
  -- the inflater sees the used part of each alphabet only
  have hlsplit := take_append_zeros h.litlen_unused
  have hdsplit := take_append_zeros h.dist_unused
  obtain ⟨litlenCodes, litlen, hlcodes, hlnew, hlagree⟩ := agree_of_codeOk (hlsplit.symm ▸ hlok)
  obtain ⟨distCodes, dist, hdcodes, hdnew, hdagree⟩ := agree_of_codeOk (hdsplit.symm ▸ hdok)
  rw [hlsplit] at hlcodes hlagree
  rw [hdsplit] at hdcodes hdagree
  have hcok := h.codeLength_ok
  rw [← append_nil header.codeLengthLengths] at hcok
  obtain ⟨_, _, hcodes, hdec, hagree⟩ := agree_of_codeOk (n := 0) hcok
  rw [replicate_zero, append_nil] at hcodes hagree
  -- three counts, the code-length code, the sequence
  have hge1 := h.hlit_ge
  have hle1 := h.hlit_le
  have hge2 := h.hdist_ge
  have hle2 := h.hdist_le
  have hge3 := h.hclen_ge
  have hle3 := h.hclen_le
  simp only [litlenSymbols, distSymbols, codeLengthSymbols] at hle1 hle2 hle3
  have a1 := write_appends hw (show header.hlit - 257 < 2 ^ 5 by omega)
  have a2 := write_appends a1.wf (show header.hdist - 1 < 2 ^ 5 by omega)
  have a3 := write_appends a2.wf (show header.hclen - 4 < 2 ^ 4 by omega)
  obtain ⟨_, _, hwrite1, a4, hread1⟩ := writeCodeLengths_spec h.codeLength_length h.codeLength_lt
    (codeLengthOrder.take header.hclen) (fun s hs => codeLengthOrder_lt s (mem_of_mem_take hs))
    a3.wf
  obtain ⟨w5, _, hwrite2, a5, hread2⟩ := writeSequence_spec hagree h.expands h.codeLength_used a4.wf
  have hcl := hread1 (replicate codeLengthSymbols 0) (length_replicate ..)
  rw [overwrite_take_order h.codeLength_length h.codeLength_unused] at hcl
  have hllen' : (header.litlenLengths.take header.hlit).length = header.hlit := by
    rw [length_take, hllen]
    exact min_eq_left h.hlit_le
  have hdlen' : (header.distLengths.take header.hdist).length = header.hdist := by
    rw [length_take, hdlen]
    exact min_eq_left h.hdist_le
  have hlengths := hread2 (header.hlit + header.hdist) (by
    rw [length_append, hllen', hdlen', length_nil]
    omega)
  rw [nil_append, length_append, hllen', hdlen', length_nil, Nat.sub_zero] at hlengths
  have hget : (header.litlenLengths.take header.hlit ++ header.distLengths.take header.hdist)[endOfBlock]? =
        some (header.litlenLengths.getD endOfBlock 0) := by
    have hlt : endOfBlock < header.litlenLengths.length := by rw [hllen]; decide
    have hsent : endOfBlock < header.hlit := hge1
    rw [getElem?_append_left (by rwa [hllen']), getElem?_take_of_lt hsent,
      getD_eq_getElem?_getD, getElem?_eq_getElem hlt, getD_some]
  refine ⟨w5, _, litlenCodes, distCodes, litlen, dist, ?_, a1.trans (a2.trans (a3.trans (a4.trans a5))),
    hlcodes, hdcodes, hlagree, hdagree, ?_⟩
  · rw [writeDynamicHeader, sub_of_le hge1, ok_bind, sub_of_le hge2, ok_bind, sub_of_le hge3, ok_bind]
    simp only
    rw [hwrite1, ok_bind, hcodes, ok_bind, hwrite2]
  · exact parses_readDynamicCodes hge1 h.hlit_le hge2 h.hdist_le hge3 h.hclen_le hcl hdec hlengths
      hget (fun hzero => heob ((h.litlen.zero_iff _).mp hzero))
      (by rw [take_left' hllen']; exact hlnew) (by rw [drop_left' hllen']; exact hdnew)

end Rustlavel.Http.Deflate
