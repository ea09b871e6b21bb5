/-
  The two ends of a Huffman code.
-/

import Rustlavel.Http.Deflate.Huffman
import Rustlavel.Http.Deflate.BuildLengths

namespace Rustlavel.Http.Deflate

open BitList CanonicalCode BitReader List Outcome Decoder Nat BitWriter

structure CodeOk (lengths : List Nat) : Prop where
  ok : LengthsOk lengths
  kraft : filled (lengthCount lengths) maxBits = 2 ^ maxBits ∨ firstIndex (lengthCount lengths) (maxBits + 1) ≤ 1

variable {lengths : List Nat} {n : Nat}

theorem CodeOk.filled_le (h : CodeOk lengths) : filled (lengthCount lengths) maxBits ≤ 2 ^ maxBits := by
  rcases h.kraft with heq | hone
  · exact le_of_eq heq
  · rw [filled_eq_kraftSum h.ok.le_maxBits]
    calc kraftSum lengths maxBits ≤ firstIndex (lengthCount lengths) (maxBits + 1) * 2 ^ maxBits :=
          kraftSum_le_used h.ok.le_maxBits
      _ ≤ 1 * 2 ^ maxBits := mul_le_mul_right _ hone
      _ = 2 ^ maxBits := one_mul _

theorem codeOk_of_codeFor {freqs : List Nat} {limit : Nat}
    (h : CodeFor freqs limit lengths) (hlimit : limit ≤ maxBits) (hsize : freqs.length < 2 ^ 16) :
    CodeOk lengths := by
  have hle : ∀ l ∈ lengths, l ≤ maxBits := fun l hl => le_trans (h.le_limit l hl) hlimit
  refine ⟨⟨hle, by rw [h.length_eq]; exact hsize⟩, ?_⟩
  rcases h.kraft with heq | hone
  · left
    rw [filled_eq_kraftSum hle, kraftSum_mul h.le_limit hlimit, heq, ← pow_add, Nat.add_sub_cancel' hlimit]
  · right
    -- both sums count the nonzero lengths
    have h1 := firstIndex_eq_used fun l hl => lt_succ_of_le (h.le_limit l hl)
    have h2 := firstIndex_eq_used fun l hl => lt_succ_of_le (hle l hl)
    rw [succ_eq_add_one] at h1 h2
    omega

/-! ## Lengths the decoder accepts -/

/-- The codewords in use. -/
def codewords (lengths : List Nat) : List Nat := lengths.filter (· ≠ 0)

theorem codewords_count (lengths : List Nat) : (codewords lengths).length + lengths.count 0 = lengths.length := by
  have hsplit := length_eq_countP_add_countP (p := (· ≠ 0)) (l := lengths)
  have hzero : lengths.countP (fun l => ¬ decide (l ≠ 0) = true) = lengths.count 0 :=
    countP_congr fun l _ => by simp
  rw [hzero, countP_eq_length_filter] at hsplit
  exact hsplit.symm

theorem codewords_length (h : ∀ l ∈ lengths, l ≤ maxBits) :
    (codewords lengths).length = firstIndex (lengthCount lengths) (maxBits + 1) := by
  have hused := firstIndex_eq_used fun l hl => lt_succ_of_le (h l hl)
  have hlength := codewords_count lengths
  rw [succ_eq_add_one] at hused
  omega

theorem new_of_codeOk (h : CodeOk lengths) : ∃ d, new lengths = .ok d ∧ d.For lengths :=
  new_spec h.ok (h.kraft.imp_right fun hone => ⟨h.filled_le, hone⟩)

theorem new_of_not_codeOk (h : LengthsOk lengths) (hcode : ¬ CodeOk lengths) : new lengths = fail .invalidCode := by
  have hcount (l : Nat) : lengths.count l < 2 ^ 16 := lt_of_le_of_lt count_le_length h.length_lt
  have hused := firstIndex_eq_used fun l hl => lt_succ_of_le (h.le_maxBits l hl)
  obtain ⟨hok, hnew⟩ := new_ok_iff h.le_maxBits
  refine hnew.resolve_left fun hbuilt => hcode ⟨h, ?_⟩
  have hbuilt := hok.mp hbuilt
  rw [wrapped_eq fun l _ => hcount l, mod_eq_of_lt (hcount 0)] at hbuilt
  rw [succ_eq_add_one] at hused
  omega

theorem kraftSum_codewords (lengths : List Nat) (d : Nat) : kraftSum lengths d = kraftSum (codewords lengths) d := by
  induction lengths with
  | nil => rfl
  | cons l lengths ih =>
    rw [kraftSum_cons, ih]
    by_cases hl : l = 0
    · simp [codewords, hl]
    · have hword : codewords (l :: lengths) = l :: codewords lengths := filter_cons_of_pos (by simpa using hl)
      rw [hword, kraftSum_cons]

theorem count_le_kraftSum {l : Nat} (hl : l ≠ 0) (lengths : List Nat) (d : Nat) :
    lengths.count l ≤ kraftSum lengths d := by
  induction lengths with
  | nil => exact Nat.le_refl _
  | cons k lengths ih =>
    rw [kraftSum_cons, count_cons]
    by_cases hk : k = l
    · have hpow : 0 < 2 ^ (d - k) := Nat.two_pow_pos _
      rw [if_neg fun hzero => hl (hk.symm.trans hzero), if_pos (beq_iff_eq.mpr hk)]
      omega
    · simp [hk]
      omega

/-- The lengths for which counting in `u16`, and counting symbols instead of looking at the lone length, make no
    difference: no lone long codeword; with 2¹⁶ unused symbols, more than a lone codeword; and with 2¹⁶ codewords of
    one length, no complete code by the counts that have wrapped. -/
structure Exact (lengths : List Nat) : Prop where
  lone : ∀ l, codewords lengths = [l] → l = 1 ∨ 2 ^ 16 ≤ lengths.count 0
  unused : 2 ^ 16 ≤ lengths.count 0 → codewords lengths ≠ [] ∧ codewords lengths ≠ [1]
  many : (∃ l ≠ 0, 2 ^ 16 ≤ lengths.count l) → filled (wrapped lengths) maxBits ≠ 2 ^ maxBits

theorem kraftSum_lone {l : Nat} (hle : ∀ l ∈ lengths, l ≤ maxBits) (h : codewords lengths = [l]) :
    l ≠ 0 ∧ kraftSum lengths maxBits ≠ 2 ^ maxBits := by
  have hmem : l ∈ codewords lengths := h ▸ mem_singleton_self l
  have hl : l ≠ 0 := of_decide_eq_true (mem_filter.mp hmem).2
  refine ⟨hl, ?_⟩
  rw [kraftSum_codewords, h, kraftSum_cons, if_neg hl, kraftSum_nil, Nat.add_zero]
  exact Nat.ne_of_lt (Nat.pow_lt_pow_right (by decide) (by have := hle l (mem_filter.mp hmem).1; omega))

theorem exact_of_many (hle : ∀ l ∈ lengths, l ≤ maxBits) {l : Nat} (hl : l ≠ 0) (hmany : 2 ^ 16 ≤ lengths.count l) :
    ((∃ d, new lengths = .ok d) ↔
      kraftSum lengths maxBits = 2 ^ maxBits ∨ codewords lengths = [] ∨ codewords lengths = [1]) ↔ Exact lengths := by
  have hkraft := count_le_kraftSum hl lengths maxBits
  have hwords : 2 ^ 16 ≤ (codewords lengths).length := by
    rw [← count_filter (p := (· ≠ 0)) (by simpa using hl)] at hmany
    exact le_trans hmany count_le_length
  have hlength := codewords_count lengths
  have hmod := mod_le (lengths.count 0) (2 ^ 16)
  have hover : ¬ (kraftSum lengths maxBits = 2 ^ maxBits ∨ codewords lengths = [] ∨ codewords lengths = [1]) := by
    rintro (heq | heq | heq)
    · rw [heq, maxBits] at hkraft
      omega
    · simp [heq] at hwords
    · simp [heq] at hwords
  rw [(new_ok_iff hle).1]
  simp only [hover, iff_false]
  constructor
  · intro hnot
    refine ⟨fun k hk => ?_, fun _ => ?_, fun _ => (not_or.mp hnot).1⟩
    · simp [hk] at hwords
    · exact ⟨fun h => hover (.inr (.inl h)), fun h => hover (.inr (.inr h))⟩
  · rintro hexact (hcomplete | ⟨-, hfew⟩)
    · exact hexact.many ⟨l, hl, hmany⟩ hcomplete
    · omega

theorem exact_of_few (hle : ∀ l ∈ lengths, l ≤ maxBits) (hfew : ∀ l ≠ 0, lengths.count l < 2 ^ 16) :
    ((∃ d, new lengths = .ok d) ↔
      kraftSum lengths maxBits = 2 ^ maxBits ∨ codewords lengths = [] ∨ codewords lengths = [1]) ↔ Exact lengths := by
  have hlength := codewords_count lengths
  have hempty (h : codewords lengths = []) : kraftSum lengths maxBits ≠ 2 ^ maxBits := by
    rw [kraftSum_codewords, h]
    decide
  rw [(new_ok_iff hle).1, wrapped_eq hfew, filled_eq_kraftSum hle]
  by_cases hzero : 2 ^ 16 ≤ lengths.count 0
  · -- as many unused symbols as a `u16` cannot count make every set one of many symbols
    have hmod : lengths.count 0 % 2 ^ 16 < 2 ^ 16 := mod_lt _ (by decide)
    have hused : ¬ (kraftSum lengths maxBits ≤ 2 ^ maxBits ∧ lengths.length - lengths.count 0 % 2 ^ 16 ≤ 1) := by
      omega
    simp only [hused, or_false]
    constructor
    · intro hiff
      refine ⟨fun _ _ => .inr hzero, fun _ => ⟨fun h => ?_, fun h => ?_⟩, fun ⟨l, hl, hmany⟩ => ?_⟩
      · exact hempty h (hiff.mpr (.inr (.inl h)))
      · exact (kraftSum_lone hle h).2 (hiff.mpr (.inr (.inr h)))
      · exact absurd (hfew l hl) (not_lt.mpr hmany)
    · intro hexact
      obtain ⟨hnone, hone⟩ := hexact.unused hzero
      simp [hnone, hone]
  · rw [mod_eq_of_lt (by omega), show lengths.length - lengths.count 0 = (codewords lengths).length by omega]
    have hsmall (h : (codewords lengths).length ≤ 1) : kraftSum lengths maxBits ≤ 2 ^ maxBits := by
      have hsum := kraftSum_le_used hle
      rw [← codewords_length hle] at hsum
      exact le_trans hsum (le_trans (mul_le_mul_right _ h) (le_of_eq (one_mul _)))
    constructor
    · intro hiff
      refine ⟨fun l hl => .inl ?_, fun h => absurd h hzero, fun ⟨l, hl, hmany⟩ => ?_⟩
      · have hone : (codewords lengths).length ≤ 1 := by simp [hl]
        rcases hiff.mp (.inr ⟨hsmall hone, hone⟩) with hkraft | hnil | hsame
        · exact absurd hkraft (kraftSum_lone hle hl).2
        · simp [hl] at hnil
        · simpa [hl] using hsame
      · exact absurd (hfew l hl) (not_lt.mpr hmany)
    · intro hexact
      refine or_congr_right ⟨fun ⟨_, hone⟩ => ?_, fun h => ?_⟩
      · match hwords : codewords lengths with
        | [] => exact .inl rfl
        | [l] => exact .inr (by rw [(hexact.lone l hwords).resolve_right hzero])
        | _ :: _ :: _ => simp [hwords] at hone
      · have hone : (codewords lengths).length ≤ 1 := by
          rcases h with h | h <;> simp [h]
        exact ⟨hsmall hone, hone⟩

/-- The decoder is built for complete codes, for no codeword and for one of a single bit, and every other set of
    lengths is refused, exactly for the lengths of `Exact`. -/
theorem new_iff_complete (lengths : List Nat) (hle : ∀ l ∈ lengths, l ≤ maxBits) :
    (((∃ d, new lengths = .ok d) ↔
      kraftSum lengths maxBits = 2 ^ maxBits ∨ codewords lengths = [] ∨ codewords lengths = [1]) ∧
      ((∃ d, new lengths = .ok d) ∨ new lengths = fail .invalidCode)) ↔ Exact lengths := by
  simp only [(new_ok_iff hle).2, and_true]
  by_cases hmany : ∃ l ≠ 0, 2 ^ 16 ≤ lengths.count l
  · obtain ⟨l, hl, hcount⟩ := hmany
    exact exact_of_many hle hl hcount
  · refine exact_of_few hle fun l hl => not_le.mp fun hcount => ?_
    exact hmany ⟨l, hl, hcount⟩

theorem new_iff_complete_three : ∃ d, Decoder.new [1, 2, 2] = .ok d := by
  have hexact : Exact [1, 2, 2] := by
    refine ⟨fun l h => ?_, fun h => ?_, fun ⟨l, _, h⟩ => ?_⟩
    · simp [codewords] at h
    · simp at h
    · have hle : [1, 2, 2].count l ≤ 3 := count_le_length
      omega
  exact ((new_iff_complete [1, 2, 2] (by decide)).mpr hexact).1.mpr (.inl (by decide))

/-- One codeword of two bits, which leaves three quarters of the code unused, is accepted. -/
theorem lone_long_code : (∃ d, Decoder.new [2] = .ok d) ∧ kraftSum [2] maxBits ≠ 2 ^ maxBits ∧
    codewords [2] ≠ [] ∧ codewords [2] ≠ [1] :=
  ⟨⟨_, rfl⟩, by decide, by decide, by decide⟩

/-! ## Lengths for frequencies -/

/-- For frequencies whose sum a `u64` holds, the lengths are found and make a complete code; the decoder takes them if
    it has room for codewords of the limit and for the symbols. -/
theorem buildLengths_complete (freqs : List Nat) (limit : Nat) (hu32 : ∀ f ∈ freqs, f < 2 ^ 32)
    (hlen : freqs.length ≤ 2 ^ 32) (htwo : 2 ≤ (usedSymbols freqs).length)
    (hfit : (usedSymbols freqs).length ≤ 2 ^ limit) :
    ∃ lengths, buildLengths freqs limit = .ok lengths ∧ lengths.length = freqs.length ∧
      (∀ i, lengths.getD i 0 = 0 ↔ freqs.getD i 0 = 0) ∧ (∀ l ∈ lengths, l ≤ limit) ∧
      kraftSum lengths limit = 2 ^ limit ∧
      (limit ≤ maxBits → freqs.length < 2 ^ 16 → ∃ d, new lengths = .ok d) := by
  have hsum : freqs.sum < 2 ^ 64 := by
    have hle := sum_le_card_nsmul freqs (2 ^ 32 - 1) fun f hf => le_sub_one_of_lt (hu32 f hf)
    rw [smul_eq_mul] at hle
    omega
  have hone : 1 ≤ limit := by
    rcases Nat.eq_zero_or_pos limit with rfl | hpos
    · exact absurd (le_trans htwo hfit) (by decide)
    · exact hpos
  obtain ⟨lengths, hbuild, hcode, hcomplete⟩ := buildLengths_spec hsum hfit hone
  refine ⟨lengths, hbuild, hcode.length_eq, hcode.zero_iff, hcode.le_limit, hcomplete htwo, fun hlimit hsize => ?_⟩
  obtain ⟨d, hnew, -⟩ := new_of_codeOk (codeOk_of_codeFor hcode hlimit hsize)
  exact ⟨d, hnew⟩

theorem buildLengths_complete_five : ∃ lengths, buildLengths [9, 0, 1, 1, 4] 2 = .ok lengths ∧
      kraftSum lengths 2 = 2 ^ 2 ∧ ∃ d, new lengths = .ok d := by
  obtain ⟨lengths, hbuild, -, -, -, hkraft, hnew⟩ :=
    buildLengths_complete [9, 0, 1, 1, 4] 2 (by decide) (by decide) (by decide) (by decide)
  exact ⟨lengths, hbuild, hkraft, hnew (by decide) (by decide)⟩

/-- Under a limit above fifteen there are codewords the decoder cannot even count. -/
theorem long_codeword_panics :
    let freqs := [1, 1, 2, 3, 5, 8, 13, 21, 34, 55, 89, 144, 233, 377, 610, 987, 1597]
    (usedSymbols freqs).length = 17 ∧ (buildLengths freqs 16).isOk = true ∧
      buildLengths freqs 16 >>= new = .error .panic := by
  decide

theorem codeOk_append_zeros (h : CodeOk (lengths ++ replicate n 0)) : CodeOk lengths := by
  refine ⟨⟨fun l hl => h.ok.le_maxBits l (mem_append_left _ hl), ?_⟩, ?_⟩
  · have := h.ok.length_lt
    rw [length_append] at this
    omega
  · have := h.kraft
    rwa [lengthCount_append_zeros] at this

/-- Every symbol with a codeword has a code that the decoder reads back as that symbol. -/
def Agree (d : Decoder) (codes : List Code) (lengths : List Nat) : Prop :=
  ∀ s, lengths.getD s 0 ≠ 0 → ∃ code, codes[s]? = some code ∧ 0 < code.len ∧
    code.bits < 2 ^ code.len ∧ Parses d.decode (lsb code.bits code.len) s

theorem agree_of_codeOk (h : CodeOk (lengths ++ replicate n 0)) :
    ∃ codes d, assignCodes (lengths ++ replicate n 0) = .ok codes ∧
      new lengths = .ok d ∧ Agree d codes (lengths ++ replicate n 0) := by
  have hshort := codeOk_append_zeros h
  obtain ⟨codes, hcodes, hcode⟩ := assignCodes_spec h.ok h.filled_le
  obtain ⟨d, hnew, hfor⟩ := new_of_codeOk hshort
  refine ⟨codes, d, hcodes, hnew, fun s hs => ?_⟩
  -- a symbol with a codeword stands in the used part
  have hlt : s < lengths.length := by
    by_contra hge
    apply hs
    rw [getD_eq_getElem?_getD, getElem?_append_right (by omega), getElem?_replicate]
    split <;> rfl
  have hget := getElem?_eq_getElem hlt
  have hget' : (lengths ++ replicate n 0)[s]? = some lengths[s] := by
    rw [getElem?_append_left hlt, hget]
  rw [getD_eq_getElem?_getD, hget', Option.getD_some] at hs
  have hle := hshort.ok.le_maxBits _ (getElem_mem hlt)
  have hsame : canonicalCode (lengths ++ replicate n 0) lengths[s] s = canonicalCode lengths lengths[s] s := by
    rw [canonicalCode, canonicalCode, codeword_append_zeros hlt]
  refine ⟨canonicalCode lengths lengths[s] s, by rw [hcode s _ hget', hsame], ?_,
    canonicalCode_bits_lt _ _ hle, fun r tail hr hrest => ?_⟩
  · rw [canonicalCode, if_neg hs]
    exact pos_of_ne_zero hs
  · exact decode_canonicalCode hshort.ok hfor hshort.filled_le hget hs hr hrest

/-! ## Runs of symbols -/

/-- Write the codes of some symbols one after the other. -/
def writeSymbols (codes : List Code) (symbols : List Nat) (w : BitWriter) : Res BitWriter :=
  symbols.foldlM (fun w symbol => do pure (w.writeCode (← index codes symbol))) w

/-- Read a number of symbols. -/
def readSymbols (d : Decoder) : Nat → BitReader → Res (List Nat × BitReader)
  | 0, r => .ok ([], r)
  | n + 1, r => do
    let (symbol, r) ← d.decode r
    let (symbols, r) ← readSymbols d n r
    .ok (symbol :: symbols, r)

theorem writeSymbols_spec {codes : List Code} {d : Decoder} (h : CodeOk lengths) (hfor : d.For lengths)
    (hcodes : ∀ s l, lengths[s]? = some l → codes[s]? = some (canonicalCode lengths l s)) (symbols : List Nat)
    (hused : ∀ s ∈ symbols, lengths.getD s 0 ≠ 0) {w : BitWriter} (hw : w.WF) :
    ∃ w' bits, writeSymbols codes symbols w = .ok w' ∧ w.Appends w' bits ∧
      bits.length = (symbols.map fun s => lengths.getD s 0).sum ∧
      Parses (readSymbols d symbols.length) bits symbols := by
  induction symbols generalizing w with
  | nil => exact ⟨w, [], rfl, .refl hw, rfl, parses_pure []⟩
  | cons s symbols ih =>
    have hne := hused s mem_cons_self
    obtain ⟨l, hs, hl⟩ : ∃ l, lengths[s]? = some l ∧ lengths.getD s 0 = l := by
      cases hget : lengths[s]? with
      | none => exact absurd (by rw [getD_eq_getElem?_getD, hget]; rfl) hne
      | some l => exact ⟨l, rfl, by rw [getD_eq_getElem?_getD, hget]; rfl⟩
    rw [hl] at hne
    have hlen : (canonicalCode lengths l s).len = l := by rw [canonicalCode, if_neg hne]
    have hcode := write_appends hw (canonicalCode_bits_lt lengths s (h.ok.le_maxBits l (mem_of_getElem? hs)))
    obtain ⟨w', bits, hwrite, happ, hbits, hread⟩ := ih (fun s hs => hused s (mem_cons_of_mem _ hs)) hcode.wf
    refine ⟨w', _, ?_, hcode.trans happ, ?_, ?_⟩
    · rw [writeSymbols, foldlM_cons, index_eq_ok (hcodes s l hs)]
      exact hwrite
    · rw [length_append, length_lsb, hlen, hbits, map_cons, sum_cons, hl]
    · have hfirst : Parses d.decode (lsb (canonicalCode lengths l s).bits (canonicalCode lengths l s).len) s :=
        fun r tail hr hrest => decode_canonicalCode h.ok hfor h.filled_le hs hne hr hrest
      refine hfirst.bind (?_ : Parses (fun r => readSymbols d symbols.length r >>= _) bits (s :: symbols))
      have hlast := hread.bind (q := fun p => .ok (s :: p.1, p.2)) (parses_pure (s :: symbols))
      rwa [append_nil] at hlast

theorem append_bits {w : BitWriter} (hw : w.WF) (bits : List Bool) :
    w.Appends (bits.foldl (fun w bit => w.write bit.toNat 1) w) bits := by
  induction bits generalizing w with
  | nil => exact .refl hw
  | cons bit bits ih =>
    have hbit : w.Appends (w.write bit.toNat 1) [bit] := by
      have hwrite := write_appends hw (v := bit.toNat) (n := 1) (by cases bit <;> decide)
      cases bit <;> exact hwrite
    exact hbit.trans (ih hbit.wf)

/-- For fewer than 2¹⁶ lengths that the decoder accepts: the symbols written are read back, whatever bits follow, and
    what is left to read is those bits and the padding of the last byte. -/
theorem readSymbols_writeSymbols (lengths : List Nat) (hle : ∀ l ∈ lengths, l ≤ maxBits)
    (hlen : lengths.length < 2 ^ 16) (d : Decoder) (hnew : new lengths = .ok d) (symbols : List Nat)
    (hused : ∀ s ∈ symbols, lengths.getD s 0 ≠ 0) (more : List Bool) :
    ∃ codes w, assignCodes lengths = .ok codes ∧ writeSymbols codes symbols .new = .ok w ∧
      let r := new (more.foldl (fun w bit => w.write bit.toNat 1) w).finish
      ∃ r', readSymbols d symbols.length r = .ok (symbols, r') ∧ (∃ pad < 8, r'.rest = more ++ replicate pad false) ∧
        r.rest.length = (symbols.map fun s => lengths.getD s 0).sum + r'.rest.length := by
  have hcode : CodeOk lengths := by
    by_contra hnot
    cases (new_of_not_codeOk ⟨hle, hlen⟩ hnot).symm.trans hnew
  obtain ⟨d', hnew', hfor⟩ := new_of_codeOk hcode
  obtain rfl : d' = d := Except.ok.inj (hnew'.symm.trans hnew)
  obtain ⟨codes, hcodes, hget⟩ := assignCodes_spec hcode.ok hcode.filled_le
  obtain ⟨w, bits, hwrite, happ, hbits, hread⟩ := writeSymbols_spec hcode hfor hget symbols hused new_wf
  have hmore := append_bits happ.wf more
  obtain ⟨pad, hpad, hfinish⟩ := finish_spec hmore.wf
  have hrest : (new (more.foldl (fun w bit => w.write bit.toNat 1) w).finish).rest =
      bits ++ (more ++ replicate pad false) := by
    rw [rest_new, hfinish, hmore.stream, happ.stream, append_assoc, append_assoc]
    rfl
  obtain ⟨r', hr', -, hleft, -⟩ := hread _ _ (new_wf _) hrest
  refine ⟨codes, w, hcodes, hwrite, r', hr', ⟨pad, hpad, hleft⟩, ?_⟩
  rw [hrest, hleft, length_append, hbits]

theorem readSymbols_writeSymbols_four : ∃ d codes w r', Decoder.new [2, 1, 0, 2] = .ok d ∧
    assignCodes [2, 1, 0, 2] = .ok codes ∧ writeSymbols codes [3, 1, 1, 0] .new = .ok w ∧
    readSymbols d 4 (new (w.write 1 1).finish) = .ok ([3, 1, 1, 0], r') := by
  have hnew : (Decoder.new [2, 1, 0, 2]).isOk = true := by decide
  cases hd : Decoder.new [2, 1, 0, 2] with
  | error => rw [hd] at hnew; cases hnew
  | ok d =>
    obtain ⟨codes, w, hcodes, hwrite, r', hread, -⟩ :=
      readSymbols_writeSymbols [2, 1, 0, 2] (by decide) (by decide) d hd [3, 1, 1, 0] (by decide) [true]
    exact ⟨d, codes, w, r', rfl, hcodes, hwrite, hread⟩

theorem countLengths_zeros (h : n < 2 ^ 16) :
    countLengths (replicate n 0 ++ [1, 1]) = .ok (n :: 2 :: replicate 14 0) := by
  have hzeros : ∀ (n c : Nat) (cs rest : List Nat), c + n < 2 ^ 16 →
      tally (c :: cs) (replicate n 0 ++ rest) = tally ((c + n) :: cs) rest := by
    intro n
    induction n with
    | zero => exact fun c cs rest _ => rfl
    | succ n ih =>
      intro c cs rest hn
      rw [replicate_succ, cons_append, tally, index_eq_ok rfl, ok_bind, set_cons_zero,
        mod_eq_of_lt (by omega), ih _ _ _ (by omega), add_assoc, add_comm 1]
  have hfrom := hzeros n 0 (replicate 15 0) [1, 1] (by omega)
  rw [zero_add] at hfrom
  exact hfrom

theorem fillSymbols_zeros (offsets symbol rest : List Nat) (sym n : Nat) :
    fillSymbols offsets symbol sym (replicate n 0 ++ rest) = fillSymbols offsets symbol (sym + n) rest := by
  induction n generalizing sym with
  | zero => rfl
  | succ n ih =>
    rw [replicate_succ, cons_append, fillSymbols, if_pos rfl, ih, add_assoc, add_comm 1]

theorem new_zeros (h : n < 2 ^ 16) : Decoder.new (replicate n 0 ++ [1, 1]) =
    .ok ⟨n :: 2 :: replicate 14 0, [n % 2 ^ 16, (n + 1) % 2 ^ 16]⟩ := by
  have hlen : (replicate n 0 ++ [1, 1]).length = n + 2 := by simp
  rw [Decoder.new, countLengths_zeros h, ok_bind, index_eq_ok rfl, ok_bind, hlen,
    sub_of_le (by omega), Nat.add_sub_cancel_left, ok_bind]
  simp only [fillSymbols_zeros, zero_add]
  rfl

theorem assignCodes_zeros (h : n < 2 ^ 16) : assignCodes (replicate n 0 ++ [1, 1]) =
    .ok (replicate n ({} : Code) ++ [{ bits := 0, len := 1 }, { bits := 1, len := 1 }]) := by
  rw [assignCodes, countLengths_zeros h, ok_bind]
  simp only [set_cons_zero]
  clear h
  induction n with
  | zero => decide
  | succ n ih =>
    show assignCodesFrom _ (0 :: (replicate n 0 ++ [1, 1])) = _
    rw [assignCodesFrom, if_pos rfl, ih]
    rfl

/-- The last of 65,537 symbols is read back as the first: the table holds symbols as `u16`. -/
theorem high_symbol_lost : ∃ d codes w r', Decoder.new (replicate 65535 0 ++ [1, 1]) = .ok d ∧
    assignCodes (replicate 65535 0 ++ [1, 1]) = .ok codes ∧ writeSymbols codes [65536] .new = .ok w ∧
    readSymbols d 1 (new w.finish) = .ok ([0], r') := by
  have hlast : ∀ (n : Nat) (a b : Code), (replicate n ({} : Code) ++ [a, b])[n + 1]? = some b := by
    intro n a b
    simp
  refine ⟨_, _, new.write 1 1, _, new_zeros (by decide), assignCodes_zeros (by decide), ?_, rfl⟩
  rw [writeSymbols, foldlM_cons, index_eq_ok (hlast 65535 _ _)]
  rfl

end Rustlavel.Http.Deflate
