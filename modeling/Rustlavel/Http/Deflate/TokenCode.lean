/-
  The body of a compressed block: `inflate_codes` reads back what `write_tokens`
  wrote, for any two codes on which the two sides agree.
-/

import Rustlavel.Http.Deflate.Inflate
import Rustlavel.Http.Deflate.Compress
import Rustlavel.Http.Deflate.CodeBook

namespace Rustlavel.Http.Deflate

open Outcome BitWriter Nat
open BitList BitReader Lz77 List

def Covered (litlen dist : List Nat) : Token → Prop
  | .literal byte => litlen.getD byte.toNat 0 ≠ 0
  | .matched len distance => ∃ lc dc, lengthCode len = .ok lc ∧ distCode distance = .ok dc ∧
      spells lengthBase lengthExtra len lc = true ∧ spells distBase distExtra distance dc = true ∧
      litlen.getD (257 + lc) 0 ≠ 0 ∧ dist.getD dc 0 ≠ 0

theorem parses_readMatch {dist : Decoder} {len distance lc dc lb le db de : Nat} {code : Code}
    (hlc : lengthBase[lc]? = some lb ∧ lengthExtra[lc]? = some le ∧ lb ≤ len ∧ len - lb < 2 ^ le)
    (hdc : distBase[dc]? = some db ∧ distExtra[dc]? = some de ∧ db ≤ distance ∧ distance - db < 2 ^ de)
    (hcode : Parses dist.decode (lsb code.bits code.len) dc) : Parses (readMatch dist (257 + lc))
      (lsb (len - lb) le ++ (lsb code.bits code.len ++ lsb (distance - db) de)) (len, distance) := by
  obtain ⟨hlb, hle, hlb_le, hlen⟩ := hlc
  obtain ⟨hdb, hde, hdb_le, hdist⟩ := hdc
  have hlc_lt := Nat.not_le.mpr (List.getElem?_eq_some_iff.mp hlb).1
  have hdc_lt := Nat.not_le.mpr (List.getElem?_eq_some_iff.mp hdb).1
  intro r tail hr hrest
  rw [append_assoc, append_assoc] at hrest
  obtain ⟨r1, h1, hwf1, hrest1, hdata1⟩ := read_field hr hlen hrest
  obtain ⟨_, h2, hwf2, hrest2, hdata2⟩ := hcode r1 _ hwf1 hrest1
  obtain ⟨r3, h3, hwf3, hrest3, hdata3⟩ := read_field hwf2 hdist hrest2
  refine ⟨r3, ?_, hwf3, hrest3, hdata3.trans (hdata2.trans hdata1)⟩
  rw [readMatch, sub_of_le (Nat.le_add_right ..), ok_bind, Nat.add_sub_cancel_left,
    if_neg hlc_lt, index_eq_ok hle, ok_bind, h1, ok_bind]
  simp only
  rw [index_eq_ok hlb, ok_bind, h2, ok_bind]
  rw [if_neg hdc_lt, index_eq_ok hde, ok_bind, h3, ok_bind]
  rw [index_eq_ok hdb, ok_bind, Nat.add_sub_cancel' hlb_le, Nat.add_sub_cancel' hdb_le]
  rfl

section

variable {litlen dist : Decoder} {litlenCodes distCodes : List Code}
  {litlenLengths distLengths : List Nat} (maxOut : Nat) {input out : List UInt8} {pos fuel : Nat} {tail : List Bool}

theorem parses_literal {byte : UInt8} {bits : List Bool} (hcode : Parses litlen.decode bits byte.toNat)
    (hbyte : input[pos]? = some byte) (hmax : pos < maxOut)
    (hrest : Parses (fun r => inflateCodes maxOut litlen dist fuel r (input.take (pos + 1))) tail out) :
    Parses (fun r => inflateCodes maxOut litlen dist (fuel + 1) r (input.take pos)) (bits ++ tail) out := by
  obtain ⟨hlt, hget⟩ := List.getElem?_eq_some_iff.mp hbyte
  have hlen : (input.take pos).length = pos := by rw [length_take]; omega
  have hsym : byte.toNat < endOfBlock := byte.toNat_lt
  have hroom : ¬ maxOut ≤ pos := not_le.mpr hmax
  apply hcode.bind
  simp only [hsym, hlen, hroom, if_true, if_false, UInt8.ofNat_toNat]
  rw [← hget, take_append_getElem hlt]
  exact hrest

theorem parses_matched {len distance lc : Nat}
    {bits1 bits2 : List Bool} (hcode : Parses litlen.decode bits1 (257 + lc))
    (hmatch : Parses (readMatch dist (257 + lc)) bits2 (len, distance))
    (hm : IsMatch input pos len distance) (hmax : pos + len ≤ maxOut)
    (hrest : Parses (fun r => inflateCodes maxOut litlen dist fuel r (input.take (pos + len))) tail out) :
    Parses (fun r => inflateCodes maxOut litlen dist (fuel + 1) r (input.take pos))
      (bits1 ++ (bits2 ++ tail)) out := by
  have hfits := hm.len_le
  have hdist := hm.dist_le
  have hlen : (input.take pos).length = pos := by rw [length_take]; omega
  have hcopy := copyMatch_spec hm len 0 (zero_add _)
  rw [add_zero] at hcopy
  apply hcode.bind
  have hsym : ¬ 257 + lc < endOfBlock := by simp only [endOfBlock]; omega
  have hend : ¬ 257 + lc = endOfBlock := by simp only [endOfBlock]; omega
  simp only [hsym, hend, if_false]
  apply hmatch.bind
  have hnear : ¬ pos < distance := not_lt.mpr hdist
  have hroom := not_lt.mpr hmax
  simp only [hlen, hnear, hroom, if_false, hcopy]
  exact hrest

theorem writeTokens_spec (hl : Agree litlen litlenCodes litlenLengths)
    (hd : Agree dist distCodes distLengths) (heob : litlenLengths.getD endOfBlock 0 ≠ 0)
    (tokens : List Token) (hcov : ∀ t ∈ tokens, Covered litlenLengths distLengths t) {w : BitWriter} (hw : w.WF) :
    ∃ w' bits, writeTokens litlenCodes distCodes tokens w = .ok w' ∧ w.Appends w' bits ∧
      ∀ (input : List UInt8) (pos stop fuel : Nat), Spells input pos tokens stop →
        pos ≤ input.length → stop ≤ maxOut → bits.length < fuel →
        Parses (fun r => inflateCodes maxOut litlen dist fuel r (input.take pos)) bits (input.take stop) := by
  induction tokens generalizing w with
  | nil =>
    obtain ⟨code, hcode, -, hbits, hparse⟩ := hl endOfBlock heob
    refine ⟨w.writeCode code, lsb code.bits code.len, ?_, write_appends hw hbits, ?_⟩
    · rw [writeTokens, index_eq_ok hcode]
      rfl
    · intro input pos stop fuel hspell _ _ hfuel
      obtain rfl : pos = stop := hspell
      obtain ⟨fuel, rfl⟩ : ∃ k, fuel = k + 1 := ⟨fuel - 1, by omega⟩
      rw [← append_nil (lsb _ _)]
      exact hparse.bind (parses_pure _)
  | cons t tokens ih =>
    have ht := hcov t mem_cons_self
    have hcov' : ∀ t ∈ tokens, Covered litlenLengths distLengths t := fun t ht =>
      hcov t (mem_cons_of_mem _ ht)
    cases t with
    | literal byte =>
      obtain ⟨code, hcode, _, hbits, hparse⟩ := hl byte.toNat ht
      have happ := write_appends hw hbits
      obtain ⟨w', bits, hwrite, happ', hread⟩ := ih hcov' happ.wf
      refine ⟨w', lsb code.bits code.len ++ bits, ?_, happ.trans happ', ?_⟩
      · rw [writeTokens, index_eq_ok hcode, ok_bind]
        exact hwrite
      · intro input pos stop fuel hspell hle hmax hfuel
        have hlt := (List.getElem?_eq_some_iff.mp hspell.1).1
        have hstop := hspell.2.le_length hlt
        rw [length_append, length_lsb] at hfuel
        obtain ⟨fuel, rfl⟩ : ∃ k, fuel = k + 1 := ⟨fuel - 1, by omega⟩
        exact parses_literal maxOut hparse hspell.1 (by omega)
          (hread input (pos + 1) stop fuel hspell.2 hlt hmax (by omega))
    | matched len distance =>
      obtain ⟨lc, dc, hlcode, hdcode, hlspell, hdspell, hlit, hdst⟩ := ht
      obtain ⟨lb, le, hlb, hle, hlb_le, hlen⟩ := spells_iff.mp hlspell
      obtain ⟨db, de, hdb, hde, hdb_le, hdist⟩ := spells_iff.mp hdspell
      obtain ⟨lcode, hlget, _, hlbits, hlparse⟩ := hl (257 + lc) hlit
      obtain ⟨dcode, hdget, -, hdbits, hdparse⟩ := hd dc hdst
      -- length code, its extra bits, distance code, its extra bits
      have h1 := write_appends hw hlbits
      have h2 := write_appends h1.wf hlen
      have h3 := write_appends h2.wf hdbits
      have h4 := write_appends h3.wf hdist
      obtain ⟨w', bits, hwrite, happ', hread⟩ := ih hcov' h4.wf
      refine ⟨w', lsb lcode.bits lcode.len ++ ((lsb (len - lb) le ++ (lsb dcode.bits dcode.len ++
        lsb (distance - db) de)) ++ bits), ?_, ?_, ?_⟩
      · rw [writeTokens, hlcode, ok_bind, index_eq_ok hlget, ok_bind,
          index_eq_ok hlb, ok_bind, sub_of_le hlb_le, ok_bind,
          index_eq_ok hle, ok_bind, hdcode, ok_bind,
          index_eq_ok hdget, ok_bind, index_eq_ok hdb, ok_bind,
          sub_of_le hdb_le, ok_bind, index_eq_ok hde, ok_bind]
        exact hwrite
      · have happ := h1.trans (h2.trans (h3.trans (h4.trans happ')))
        rwa [← append_assoc (lsb dcode.bits _), ← append_assoc (lsb (len - lb) le)] at happ
      · intro input pos stop fuel hspell _ hmax hfuel
        have hstop := hspell.2.le_length hspell.1.len_le
        rw [length_append, length_lsb, length_append] at hfuel
        obtain ⟨fuel, rfl⟩ : ∃ k, fuel = k + 1 := ⟨fuel - 1, by omega⟩
        exact parses_matched maxOut hlparse
          (parses_readMatch ⟨hlb, hle, hlb_le, hlen⟩ ⟨hdb, hde, hdb_le, hdist⟩ hdparse)
          hspell.1 (by omega)
          (hread input (pos + len) stop fuel hspell.2 hspell.1.len_le hmax (by omega))

end

end Rustlavel.Http.Deflate
