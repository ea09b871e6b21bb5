/-
  `write_block` and `inflate`'s loop body: whichever of the three encodings the
  compressor picks, the inflater reads the block back.
-/

import Rustlavel.Http.Deflate.DynamicHeader

namespace Rustlavel.Http.Deflate

open Outcome BitWriter
open BitList BitReader Lz77 List

/-- Wherever the bits `w'` ends with stand, they are read as blocks that extend `out` to `out'`. -/
def ReadsAs (maxOut : Nat) (isFinal : Bool) (w' : BitWriter) (bits : List Bool) (out out' : List UInt8) : Prop :=
  ∀ (r : BitReader) (tail : List Bool), r.WF → r.rest = bits ++ tail → (w'.stream.length + tail.length) % 8 = 0 →
    ∃ r', Blocks maxOut isFinal r out r' out' ∧ r'.WF ∧ r'.rest = tail ∧ r'.data = r.data

variable {isFinal : Bool} {out chunk : List UInt8} {bits : List Bool} {len : Nat} {r : BitReader}
  {litlenFreq distFreq : List Nat} {header : DynamicHeader} {maxOut stop : Nat} {w : BitWriter} {input : List UInt8}

theorem ReadsAs.trans {w1 w2 : BitWriter} {bits1 bits2 : List Bool}
    {out1 out2 : List UInt8} (h1 : ReadsAs maxOut false w1 bits1 out out1)
    (happ : w1.Appends w2 bits2) (h2 : ReadsAs maxOut isFinal w2 bits2 out1 out2) :
    ReadsAs maxOut isFinal w2 (bits1 ++ bits2) out out2 := by
  intro r tail hr hrest hbytes
  rw [append_assoc] at hrest
  have hbytes1 : (w1.stream.length + (bits2 ++ tail).length) % 8 = 0 := by
    rw [happ.stream, length_append] at hbytes
    rwa [length_append, ← Nat.add_assoc]
  obtain ⟨r1, hrun1, hwf1, hrest1, hdata1⟩ := h1 r (bits2 ++ tail) hr hrest hbytes1
  obtain ⟨r2, hrun2, hwf2, hrest2, hdata2⟩ := h2 r1 tail hwf1 hrest1 hbytes
  exact ⟨r2, hrun1.trans hrun2, hwf2, hrest2, hdata2.trans hdata1⟩

theorem readsAs_of_block {w' : BitWriter} {out' : List UInt8} (hne : 0 < bits.length)
    (h : ∀ (r : BitReader) (tail : List Bool), r.WF → r.rest = bits ++ tail →
      (w'.stream.length + tail.length) % 8 = 0 →
      ∃ r', inflateBlock maxOut r out = .ok (isFinal, out', r') ∧ r'.WF ∧ r'.rest = tail ∧
        r'.data = r.data) : ReadsAs maxOut isFinal w' bits out out' := by
  intro r tail hr hrest hbytes
  obtain ⟨r', hblock, hwf, htail, hdata⟩ := h r tail hr hrest hbytes
  refine ⟨r', ?_, hwf, htail, hdata⟩
  cases isFinal with
  | true => exact .last hblock
  | false =>
    refine .more hblock ?_ (.refl r' out')
    rw [htail, hrest, length_append]
    omega

/-! ## Stored blocks -/

theorem complement_u32 (h : len < 2 ^ 16) : (2 ^ 32 - 1 - len) &&& 0xFFFF = 2 ^ 16 - 1 - len := by
  show (2 ^ 32 - 1 - len) &&& (2 ^ 16 - 1) = _
  rw [Nat.and_two_pow_sub_one_eq_mod]
  omega

theorem complement_u64 (h : len < 2 ^ 16) : (2 ^ 64 - 1 - (2 ^ 16 - 1 - len)) &&& 0xFFFF = len := by
  show (2 ^ 64 - 1 - (2 ^ 16 - 1 - len)) &&& (2 ^ 16 - 1) = _
  rw [Nat.and_two_pow_sub_one_eq_mod]
  omega

theorem count_eq_zero (hw : w.WF) (h : w.stream.length % 8 = 0) : w.count = 0 := by
  have hlen := length_stream w
  have hlt := hw.count_lt
  omega

theorem reader_count_eq_zero (hr : r.WF) (h : r.rest.length % 8 = 0) : r.count = 0 := by
  have hlen := length_rest r
  have hlt := hr.count_lt
  omega

theorem inflateStored_spec {pad : Nat} (hlen : chunk.length < 2 ^ 16)
    (hmax : out.length + chunk.length ≤ maxOut) (hr : r.WF) {tail : List Bool}
    (hpad : pad < 8) (htail : tail.length % 8 = 0)
    (hrest : r.rest = replicate pad false ++ (lsb chunk.length 16 ++
      (lsb (2 ^ 16 - 1 - chunk.length) 16 ++ (ofBytes chunk ++ tail)))) :
    ∃ r', inflateStored maxOut r out = .ok (out ++ chunk, r') ∧ r'.WF ∧ r'.rest = tail ∧ r'.data = r.data := by
  obtain ⟨hwf0, hrest0, hdata0, -⟩ := alignToByte_spec hr
  have hdrop : r.rest.length % 8 = pad := by
    rw [hrest]
    simp only [length_append, length_replicate, length_lsb, length_ofBytes]
    omega
  rw [hdrop, hrest, drop_left' (length_replicate ..)] at hrest0
  obtain ⟨_, hread1, hwf1, hrest1, hdata1⟩ := read_field hwf0 hlen hrest0
  have hnlen : 2 ^ 16 - 1 - chunk.length < 2 ^ 16 := by omega
  obtain ⟨r2, hread2, hwf2, hrest2, hdata2⟩ := read_field hwf1 hnlen hrest1
  have hcount : r2.count = 0 := reader_count_eq_zero hwf2 (by
    rw [hrest2, length_append, length_ofBytes]
    omega)
  obtain ⟨r3, hread3, hwf3, hrest3, hdata3⟩ := takeBytes_spec hwf2 hcount hrest2
  refine ⟨r3, ?_, hwf3, hrest3, hdata3.trans (hdata2.trans (hdata1.trans hdata0))⟩
  rw [inflateStored]
  simp only
  rw [hread1, ok_bind]
  simp only
  rw [hread2, ok_bind, complement_u64 hlen]
  simp only [ne_eq, not_true_eq_false, if_false]
  rw [hread3, ok_bind]
  rw [if_neg (by omega)]
  rfl

def storedBitString (chunk : List UInt8) (isFinal : Bool) (pad : Nat) : List Bool :=
  lsb isFinal.toNat 1 ++ (lsb 0b00 2 ++ (replicate pad false ++ (lsb chunk.length 16 ++
    (lsb (2 ^ 16 - 1 - chunk.length) 16 ++ ofBytes chunk))))

theorem writeStoredChunk_appends (hw : w.WF) (hlen : chunk.length < 2 ^ 16) (isFinal : Bool) :
    ∃ pad < 8, w.Appends (writeStoredChunk w chunk isFinal) (storedBitString chunk isFinal pad) ∧
      (w.stream.length + 3 + pad) % 8 = 0 := by
  have hnlen : 2 ^ 16 - 1 - chunk.length < 2 ^ 16 := by omega
  rw [writeStoredChunk, complement_u32 hlen]
  have a1 := write_appends hw (show isFinal.toNat < 2 ^ 1 from isFinal.toNat_lt)
  generalize w.write isFinal.toNat 1 = w1 at a1 ⊢
  have a2 := write_appends a1.wf (show 0b00 < 2 ^ 2 by decide)
  generalize w1.write 0b00 2 = w2 at a2 ⊢
  obtain ⟨hwf3, -, pad, hpad, hstream3, hbytes3⟩ := alignToByte_spec a2.wf
  have a3 : w2.Appends w2.alignToByte (replicate pad false) := ⟨hwf3, hstream3⟩
  generalize w2.alignToByte = w3 at a3 ⊢
  have a4 := write_appends a3.wf hlen
  generalize w3.write chunk.length 16 = w4 at a4 ⊢
  have a5 := write_appends a4.wf hnlen
  generalize w4.write (2 ^ 16 - 1 - chunk.length) 16 = w5 at a5 ⊢
  -- two sixteen-bit fields keep the writer on a byte boundary
  have hcount := count_eq_zero a5.wf (by
    rw [a5.stream, a4.stream, a3.stream]
    simp only [length_append, length_replicate, length_lsb]
    omega)
  obtain ⟨hwf6, hstream6⟩ := writeBytes_spec a5.wf hcount chunk
  have a6 : w5.Appends (w5.writeBytes chunk) (ofBytes chunk) := ⟨hwf6, hstream6⟩
  refine ⟨pad, hpad, a1.trans (a2.trans (a3.trans (a4.trans (a5.trans a6)))), ?_⟩
  rw [a2.stream, a1.stream] at hbytes3
  simp only [length_append, length_lsb] at hbytes3
  omega

theorem writeStoredChunk_spec (hw : w.WF) (hlen : chunk.length < 2 ^ 16) (isFinal : Bool)
    (hmax : out.length + chunk.length ≤ maxOut) : ∃ bits, w.Appends (writeStoredChunk w chunk isFinal) bits ∧
      ReadsAs maxOut isFinal (writeStoredChunk w chunk isFinal) bits out (out ++ chunk) := by
  obtain ⟨_, hpad, happ, _⟩ := writeStoredChunk_appends hw hlen isFinal
  refine ⟨_, happ, readsAs_of_block (by simp [storedBitString]) fun r tail hr hrest htotal => ?_⟩
  have htail : tail.length % 8 = 0 := by
    rw [happ.stream, storedBitString] at htotal
    simp only [length_append, length_replicate, length_lsb, length_ofBytes] at htotal
    omega
  rw [storedBitString] at hrest
  simp only [append_assoc] at hrest
  obtain ⟨_, hread1, hwf1, hrest1, hdata1⟩ := readBit_field hr isFinal.toNat_lt hrest
  obtain ⟨_, hread2, hwf2, hrest2, hdata2⟩ := read_field hwf1 (show 0b00 < 2 ^ 2 by decide) hrest1
  obtain ⟨r3, hread3, hwf3, hrest3, hdata3⟩ := inflateStored_spec hlen hmax hwf2 hpad htail hrest2
  refine ⟨r3, ?_, hwf3, hrest3, hdata3.trans (hdata2.trans hdata1)⟩
  rw [inflateBlock, hread1, ok_bind]
  simp only
  rw [hread2, ok_bind]
  rw [hread3]
  cases isFinal <;> rfl

theorem writeStored_spec (hw : w.WF) (raw : List UInt8) (isFinal : Bool) (hmax : out.length + raw.length ≤ maxOut) :
    ∃ bits, w.Appends (writeStored w raw isFinal) bits ∧
      ReadsAs maxOut isFinal (writeStored w raw isFinal) bits out (out ++ raw) := by
  induction w, raw using writeStored.induct generalizing out with
  | case1 w raw hle =>
    rw [writeStored, if_pos hle]
    exact writeStoredChunk_spec hw (by omega) isFinal hmax
  | case2 w raw hgt ih =>
    have hsplit : (raw.take (2 ^ 16 - 1)).length + (raw.drop (2 ^ 16 - 1)).length = raw.length := by
      rw [length_take, length_drop]
      omega
    have hchunk : (raw.take (2 ^ 16 - 1)).length < 2 ^ 16 := by
      rw [length_take]
      omega
    have hroom1 : out.length + (raw.take (2 ^ 16 - 1)).length ≤ maxOut := by omega
    have hroom2 : (out ++ raw.take (2 ^ 16 - 1)).length + (raw.drop (2 ^ 16 - 1)).length ≤
        maxOut := by
      rw [length_append]
      omega
    obtain ⟨bits1, happ1, hread1⟩ := writeStoredChunk_spec hw hchunk false hroom1
    obtain ⟨bits2, happ2, hread2⟩ := ih happ1.wf hroom2
    rw [append_assoc, take_append_drop] at hread2
    rw [writeStored, if_neg hgt]
    exact ⟨bits1 ++ bits2, happ1.trans happ2, hread1.trans happ2 hread2⟩

/-! ## Compressed blocks -/

theorem codeOk_fixedLitlen : CodeOk fixedLitlenLengths := by
  have hle : ∀ l ∈ fixedLitlenLengths, l ≤ maxBits := by decide +kernel
  refine ⟨⟨hle, by decide +kernel⟩, .inl ?_⟩
  decide +kernel

theorem codeOk_fixedDist : CodeOk fixedDistLengths := by
  have hle : ∀ l ∈ fixedDistLengths, l ≤ maxBits := by decide
  refine ⟨⟨hle, by decide⟩, .inl ?_⟩
  decide

theorem getD_ne_zero {xs : List Nat} (h : ∀ x ∈ xs, x ≠ 0) {i : Nat} (hi : i < xs.length) : xs.getD i 0 ≠ 0 := by
  rw [getD_eq_getElem?_getD, getElem?_eq_getElem hi, Option.getD_some]
  exact h _ (getElem_mem hi)

theorem length_fixedLitlen : fixedLitlenLengths.length = 288 := by decide +kernel

theorem fixedLitlen_ne_zero : ∀ l ∈ fixedLitlenLengths, l ≠ 0 := by decide +kernel

theorem fixedDist_ne_zero : ∀ l ∈ fixedDistLengths, l ≠ 0 := by decide

theorem covered_fixed {t : Token} (h : Encodable t) : Covered fixedLitlenLengths fixedDistLengths t := by
  have hlen := length_fixedLitlen
  have hdlen : fixedDistLengths.length = 32 := length_replicate ..
  cases t with
  | literal byte =>
    have := byte.toNat_lt
    exact getD_ne_zero fixedLitlen_ne_zero (by omega)
  | matched =>
    obtain ⟨hlo, hhi, hdlo, hdhi⟩ := h
    obtain ⟨lc, hlc, hls⟩ := lengthCode_spec hlo hhi
    obtain ⟨dc, hdc, hds⟩ := distCode_spec hdlo hdhi
    obtain ⟨_, _, hlb, -⟩ := spells_iff.mp hls
    obtain ⟨_, _, hdb, -⟩ := spells_iff.mp hds
    have hlt : lc < 29 := (List.getElem?_eq_some_iff.mp hlb).1
    have hdt : dc < 30 := (List.getElem?_eq_some_iff.mp hdb).1
    exact ⟨lc, dc, hlc, hdc, hls, hds, getD_ne_zero fixedLitlen_ne_zero (by omega),
      getD_ne_zero fixedDist_ne_zero (by omega)⟩

theorem inflateCodes_bitBound {litlen dist : Decoder} {pos : Nat}
    (h : ∀ fuel, bits.length < fuel → Parses (fun r => inflateCodes maxOut litlen dist fuel r (input.take pos)) bits
        (input.take stop)) :
    Parses (fun r => inflateCodes maxOut litlen dist (bitBound r) r (input.take pos)) bits (input.take stop) := by
  intro r tail hr hrest
  refine h (bitBound r) ?_ r tail hr hrest
  have hlt := length_rest_lt_bitBound hr
  rw [hrest, length_append] at hlt
  omega

section

variable {w : BitWriter} {input : List UInt8} {start stop maxOut : Nat} {tokens : List Token}

theorem fixedBlock_spec (hw : w.WF) (hspell : Spells input start tokens stop)
    (hstart : start ≤ input.length) (hmax : stop ≤ maxOut) (hok : ∀ t ∈ tokens, Encodable t) (isFinal : Bool) :
    ∃ litlenCodes distCodes w' bits, assignCodes fixedLitlenLengths = .ok litlenCodes ∧
      assignCodes fixedDistLengths = .ok distCodes ∧
      writeTokens litlenCodes distCodes tokens ((w.write isFinal.toNat 1).write 0b01 2) = .ok w' ∧
      w.Appends w' bits ∧ ReadsAs maxOut isFinal w' bits (input.take start) (input.take stop) := by
  have hlok := codeOk_fixedLitlen
  have hdok := codeOk_fixedDist
  rw [← append_nil fixedLitlenLengths] at hlok
  rw [← append_nil fixedDistLengths] at hdok
  obtain ⟨litlenCodes, _, hlcodes, hlnew, hlagree⟩ := agree_of_codeOk (n := 0) hlok
  obtain ⟨distCodes, _, hdcodes, hdnew, hdagree⟩ := agree_of_codeOk (n := 0) hdok
  rw [replicate_zero, append_nil] at hlcodes hlagree hdcodes hdagree
  have a1 := write_appends hw (show isFinal.toNat < 2 ^ 1 from isFinal.toNat_lt)
  have a2 := write_appends a1.wf (show 0b01 < 2 ^ 2 by decide)
  have heob : fixedLitlenLengths.getD endOfBlock 0 ≠ 0 :=
    getD_ne_zero fixedLitlen_ne_zero (by rw [length_fixedLitlen]; decide)
  obtain ⟨w', _, hwrite, a3, hread⟩ := writeTokens_spec maxOut hlagree hdagree heob tokens
    (fun t ht => covered_fixed (hok t ht)) a2.wf
  refine ⟨litlenCodes, distCodes, w', _, hlcodes, hdcodes, hwrite, a1.trans (a2.trans a3),
    readsAs_of_block (by simp) fun r tail hr hrest _ => ?_⟩
  obtain ⟨_, hread1, hwf1, hrest1, hdata1⟩ := readBit_field hr isFinal.toNat_lt hrest
  obtain ⟨r2, hread2, hwf2, hrest2, hdata2⟩ := read_field hwf1 (show 0b01 < 2 ^ 2 by decide) hrest1
  obtain ⟨r3, hread3, hwf3, hrest3, hdata3⟩ := inflateCodes_bitBound
    (fun fuel => hread input start stop fuel hspell hstart hmax) r2 tail hwf2 hrest2
  dsimp only at hread3
  refine ⟨r3, ?_, hwf3, hrest3, hdata3.trans (hdata2.trans hdata1)⟩
  rw [inflateBlock, hread1, ok_bind]
  simp only
  rw [hread2, ok_bind]
  simp only
  rw [if_neg (by decide), if_pos trivial, hlnew, ok_bind, hdnew, ok_bind, hread3]
  cases isFinal <;> rfl

theorem dynamicBlock_spec (hw : w.WF) (hspell : Spells input start tokens stop)
    (hstart : start ≤ input.length) (hmax : stop ≤ maxOut) {litlenFreq distFreq : List Nat}
    {header : DynamicHeader} (hheader : HeaderOk litlenFreq distFreq header)
    (hlit : litlenFreq.length = litlenSymbols) (hdst : distFreq.length = distSymbols)
    (heob : litlenFreq.getD endOfBlock 0 ≠ 0) (hcov : ∀ t ∈ tokens, Covered litlenFreq distFreq t) (isFinal : Bool) :
    ∃ w1 litlenCodes distCodes w' bits, writeDynamicHeader ((w.write isFinal.toNat 1).write 0b10 2) header = .ok w1 ∧
      assignCodes header.litlenLengths = .ok litlenCodes ∧
      assignCodes header.distLengths = .ok distCodes ∧
      writeTokens litlenCodes distCodes tokens w1 = .ok w' ∧
      w.Appends w' bits ∧ ReadsAs maxOut isFinal w' bits (input.take start) (input.take stop) := by
  have a1 := write_appends hw (show isFinal.toNat < 2 ^ 1 from isFinal.toNat_lt)
  have a2 := write_appends a1.wf (show 0b10 < 2 ^ 2 by decide)
  obtain ⟨w3, _, litlenCodes, distCodes, litlen, dist, hhead, a3, hlcodes, hdcodes, hlagree,
    hdagree, hparse⟩ := writeDynamicHeader_spec hheader hlit hdst heob a2.wf
  -- a symbol that was counted has a codeword
  have hlused : ∀ j, litlenFreq.getD j 0 ≠ 0 → header.litlenLengths.getD j 0 ≠ 0 :=
    fun j hj hzero => hj ((hheader.litlen.zero_iff j).mp hzero)
  have hdused : ∀ j, distFreq.getD j 0 ≠ 0 → header.distLengths.getD j 0 ≠ 0 :=
    fun j hj hzero => hj ((hheader.dist.zero_iff j).mp hzero)
  obtain ⟨w', _, hwrite, a4, hread⟩ := writeTokens_spec maxOut hlagree hdagree
    (hlused _ heob) tokens (fun t ht => (hcov t ht).mono hlused hdused) a3.wf
  refine ⟨w3, litlenCodes, distCodes, w', _, hhead, hlcodes, hdcodes, hwrite,
    a1.trans (a2.trans (a3.trans a4)), readsAs_of_block (by simp) fun r tail hr hrest _ => ?_⟩
  simp only [append_assoc] at hrest
  obtain ⟨_, hread1, hwf1, hrest1, hdata1⟩ := readBit_field hr isFinal.toNat_lt hrest
  obtain ⟨r2, hread2, hwf2, hrest2, hdata2⟩ := read_field hwf1 (show 0b10 < 2 ^ 2 by decide) hrest1
  obtain ⟨r3, hread3, hwf3, hrest3, hdata3⟩ := hparse r2 _ hwf2 hrest2
  obtain ⟨r4, hread4, hwf4, hrest4, hdata4⟩ := inflateCodes_bitBound
    (fun fuel => hread input start stop fuel hspell hstart hmax) r3 tail hwf3 hrest3
  dsimp only at hread4
  refine ⟨r4, ?_, hwf4, hrest4, hdata4.trans (hdata3.trans (hdata2.trans hdata1))⟩
  rw [inflateBlock, hread1, ok_bind]
  simp only
  rw [hread2, ok_bind]
  simp only
  rw [if_neg (by decide), if_neg (by decide), if_pos trivial, hread3, ok_bind]
  rw [hread4]
  cases isFinal <;> rfl

end

/-! ## Any block -/

theorem mem_sequence_lt (h : HeaderOk litlenFreq distFreq header) :
    ∀ e ∈ header.sequence, e.1 < header.codeLengthLengths.length := fun e he => by
  rw [h.codeLength_length]
  exact h.expands.symbol_lt e he

theorem dynamicBits_spec (h : HeaderOk litlenFreq distFreq header) (extra : Nat) :
    ∃ n, dynamicBits header litlenFreq distFreq extra = .ok n := by
  have hruns : header.sequence.mapM (fun entry => do
      let len ← index header.codeLengthLengths entry.1
      pure (len + entry.2.2)) =
      (.ok (header.sequence.map fun e => header.codeLengthLengths.getD e.1 0 + e.2.2) : Res (List Nat)) :=
    mapM_eq_ok fun e he => by
      rw [index_getD (mem_sequence_lt h e he)]
      rfl
  exact ⟨_, by rw [dynamicBits, hruns]; rfl⟩

theorem writeBlock_spec (hw : w.WF) {start : Nat}
    {tokens : List Token} (hspell : Spells input start tokens stop) (hstart : start ≤ input.length)
    (hmax : stop ≤ maxOut) (hok : ∀ t ∈ tokens, Encodable t) (hfew : tokens.length + 1 < 2 ^ 32) (isFinal : Bool) :
    ∃ w' bits, writeBlock w ((input.take stop).drop start) tokens isFinal = .ok w' ∧
      w.Appends w' bits ∧ ReadsAs maxOut isFinal w' bits (input.take start) (input.take stop) := by
  obtain ⟨hle, _⟩ := hspell.le_length hstart
  -- the frequencies
  have hlzero : (replicate litlenSymbols 0).sum = 0 := by simp
  have hdzero : (replicate distSymbols 0).sum = 0 := by simp
  obtain ⟨lf0, df, extra, _, hcount, hlgrow, hdgrow, _, hcov0⟩ := countTokens_spec
    (replicate litlenSymbols 0) (replicate distSymbols 0) 0 tokens hok
    (length_replicate ..) (length_replicate ..) (by omega) (by omega)
  have hllen0 : lf0.length = litlenSymbols := by rw [hlgrow.length_eq, length_replicate]
  have hdlen : df.length = distSymbols := by rw [hdgrow.length_eq, length_replicate]
  have heob0 : endOfBlock < lf0.length := by rw [hllen0]; decide
  obtain ⟨lf, hbump, hgrow, heob⟩ := bump_spec heob0 (by rw [hlgrow.sum_eq]; omega)
  have hllen := hgrow.length_eq.trans hllen0
  have hcov : ∀ t ∈ tokens, Covered lf df t := fun t ht =>
    (hcov0 t ht).mono hgrow.keep fun _ h => h
  -- the header and its price
  have hlsum : lf.sum < 2 ^ 64 := by rw [hgrow.sum_eq, hlgrow.sum_eq]; omega
  have hdsum : df.sum < 2 ^ 64 := by rw [hdgrow.sum_eq]; omega
  obtain ⟨_, hbuild, hheader⟩ := buildDynamicHeader_spec hllen hdlen hlsum hdsum
  obtain ⟨bits, hbits⟩ := dynamicBits_spec hheader extra
  rw [writeBlock, hcount, ok_bind]
  simp only
  rw [hbump, ok_bind, hbuild, ok_bind, hbits, ok_bind]
  split
  case isTrue =>
    have hraw : (input.take start).length + ((input.take stop).drop start).length ≤ maxOut := by
      rw [length_drop, length_take, length_take]
      omega
    obtain ⟨bits, happ, hread⟩ := writeStored_spec hw ((input.take stop).drop start) isFinal hraw
    have hjoin : input.take start ++ (input.take stop).drop start = input.take stop := by
      have htake : input.take start = (input.take stop).take start := by
        rw [take_take, Nat.min_eq_left hle]
      rw [htake, take_append_drop]
    rw [hjoin] at hread
    exact ⟨_, bits, rfl, happ, hread⟩
  case isFalse =>
    split
    case isTrue =>
      obtain ⟨litlenCodes, distCodes, w', bits, hlcodes, hdcodes, hwrite, happ, hread⟩ :=
        fixedBlock_spec hw hspell hstart hmax hok isFinal
      refine ⟨w', bits, ?_, happ, hread⟩
      rw [hlcodes, ok_bind, hdcodes, ok_bind, hwrite]
    case isFalse =>
      obtain ⟨_, _, _, w', bits, hhead, hlcodes, hdcodes, hwrite, happ, hread⟩ :=
        dynamicBlock_spec hw hspell hstart hmax hheader hllen hdlen heob hcov isFinal
      refine ⟨w', bits, ?_, happ, hread⟩
      rw [hhead, ok_bind, hlcodes, ok_bind, hdcodes, ok_bind, hwrite]

end Rustlavel.Http.Deflate
