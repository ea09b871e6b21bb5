/-
  The loop of `compress` and the theorem that inflating its output gives the input back.
-/

import Rustlavel.Http.Deflate.BlockCode

namespace Rustlavel.Http.Deflate

open Outcome Nat
open BitList BitReader Lz77 List

structure Compressor.Inv (input : List UInt8) (maxOut : Nat) (c : Compressor) : Prop where
  writer_wf : c.writer.WF
  sound : c.finder.Sound
  pos_le : c.pos ≤ input.length
  start_le : c.blockStart ≤ input.length
  spells : Spells input c.blockStart c.tokens c.pos
  encodable : ∀ t ∈ c.tokens, Encodable t
  found : c.pos < input.length → MatchFinder.Found input c.pos c.current
  few : c.pos < input.length → c.tokens.length < blockTokens + c.current.1
  few_last : c.tokens.length ≤ blockTokens + maxMatch
  written : ReadsAs maxOut false c.writer c.writer.stream [] (input.take c.blockStart)

variable {input : List UInt8}

theorem Found.le_maxMatch {pos : Nat} {m : Nat × Nat} (h : MatchFinder.Found input pos m) : m.1 ≤ maxMatch := by
  rcases h with rfl | ⟨-, -, hle, -⟩
  · exact zero_le _
  · exact hle

section

variable {input : List UInt8} {maxOut : Nat} {c : Compressor}

theorem currentToken_spec (hinv : c.Inv input maxOut) (hpos : c.pos < input.length) :
    ∃ token pos, currentToken input c = .ok (token, pos) ∧ c.pos < pos ∧ pos ≤ input.length ∧ Encodable token ∧
      Spells input c.blockStart (c.tokens ++ [token]) pos := by
  rw [currentToken]
  split
  case isTrue hmin =>
    rcases hinv.found hpos with hnone | ⟨hmatch, -, hmax, hwindow⟩
    · rw [hnone] at hmin
      exact absurd hmin (by decide)
    · have hlen : c.current.1 % 2 ^ 16 = c.current.1 := mod_eq_of_lt (lt_of_le_of_lt hmax (by decide))
      have hdist : c.current.2 % 2 ^ 16 = c.current.2 := mod_eq_of_lt (lt_of_le_of_lt hwindow (by decide))
      rw [hlen, hdist]
      refine ⟨_, _, rfl, ?_, hmatch.len_le, ⟨hmin, hmax, hmatch.dist_pos, hwindow⟩, hinv.spells.matched hmatch⟩
      simp only [minMatch] at hmin
      omega
  case isFalse =>
    rw [index_of_lt hpos]
    exact ⟨_, _, rfl, lt_succ_self _, hpos, trivial, hinv.spells.literal (List.getElem?_eq_getElem hpos)⟩

theorem takeCurrent_spec (hinv : c.Inv input maxOut) (hmaxOut : input.length ≤ maxOut)
    (hpos : c.pos < input.length) (hnext : c.finder.nextInsert ≤ c.pos + 1) :
    ∃ c', takeCurrent input c = .ok c' ∧ c'.Inv input maxOut ∧ c'.finder.nextInsert ≤ c'.pos ∧ c.pos < c'.pos := by
  obtain ⟨token, pos, htoken, hlt, hle, henc, hspell⟩ := currentToken_spec hinv hpos
  obtain ⟨finder, hinsert, hsound, hstop⟩ := MatchFinder.insertThrough_spec hinv.sound input
    (show c.finder.nextInsert ≤ pos by omega)
  -- past the end of the input the old match stays, and is not looked at again
  obtain ⟨current, hcurrent, hfound⟩ : ∃ m, nextMatch input finder pos c.current = .ok m ∧
      (pos < input.length → MatchFinder.Found input pos m) := by
    rw [nextMatch]
    split
    case isTrue hmore =>
      obtain ⟨m, hm, hfound⟩ := MatchFinder.longestMatch_spec hsound (le_of_eq hstop)
      exact ⟨m, hm, fun _ => hfound⟩
    case isFalse hend => exact ⟨c.current, rfl, fun h => absurd h hend⟩
  have hencs : ∀ t ∈ c.tokens ++ [token], Encodable t := by
    intro t ht
    rcases mem_append.mp ht with ht | ht
    · exact hinv.encodable t ht
    · rw [mem_singleton.mp ht]
      exact henc
  have hcount : (c.tokens ++ [token]).length ≤ blockTokens + maxMatch := by
    have hfew := hinv.few hpos
    have hcur := Found.le_maxMatch (hinv.found hpos)
    rw [length_append, length_singleton]
    omega
  rw [takeCurrent, htoken, ok_bind]
  simp only
  rw [hinsert, ok_bind, hcurrent, ok_bind]
  split
  case isTrue hfull =>
    have h32 : (c.tokens ++ [token]).length + 1 < 2 ^ 32 := lt_of_le_of_lt (succ_le_succ hcount) (by decide)
    obtain ⟨w', _, hwrite, happ, hread⟩ := writeBlock_spec hinv.writer_wf hspell hinv.start_le
      (le_trans hle hmaxOut) hencs h32 false
    rw [hwrite]
    refine ⟨_, rfl, ?_, le_of_eq hstop, hlt⟩
    exact
      { writer_wf := happ.wf
        sound := hsound
        pos_le := hle
        start_le := hle
        spells := rfl
        encodable := nofun
        found := hfound
        few := fun _ => lt_of_lt_of_le (by decide : 0 < blockTokens) (Nat.le_add_right ..)
        few_last := zero_le _
        written := by
          rw [happ.stream]
          exact hinv.written.trans happ hread }
  case isFalse hroom =>
    refine ⟨_, rfl, ?_, le_of_eq hstop, hlt⟩
    exact
      { hinv with
        sound := hsound
        pos_le := hle
        spells := hspell
        encodable := hencs
        found := hfound
        few := fun hmore => by
          have hmore' : pos < input.length := hmore
          show (c.tokens ++ [token]).length < blockTokens + current.1
          omega
        few_last := hcount }

theorem compressStep_spec (hinv : c.Inv input maxOut) (hmaxOut : input.length ≤ maxOut)
    (hpos : c.pos < input.length) (hnext : c.finder.nextInsert ≤ c.pos) :
    ∃ c', compressStep input c = .ok c' ∧ c'.Inv input maxOut ∧ c'.finder.nextInsert ≤ c'.pos ∧ c.pos < c'.pos := by
  rw [compressStep]
  split
  case isTrue hlazy =>
    obtain ⟨finder, hinsert, hsound, hstop⟩ := MatchFinder.insertThrough_spec hinv.sound input
      (le_succ_of_le hnext)
    obtain ⟨next, hmatch, hfound⟩ := MatchFinder.longestMatch_spec hsound (le_of_eq hstop)
    rw [hinsert, ok_bind, hmatch, ok_bind]
    split
    case isTrue hbetter =>
      -- the byte at hand goes out as a literal, whatever the size of the block
      rw [index_of_lt hpos]
      refine ⟨_, rfl, ?_, le_of_eq hstop, lt_succ_self _⟩
      have hfew := hinv.few hpos
      have hnextle := Found.le_maxMatch hfound
      exact
        { hinv with
          sound := hsound
          pos_le := hpos
          spells := hinv.spells.literal (List.getElem?_eq_getElem hpos)
          encodable := fun t ht => by
            rcases mem_append.mp ht with ht | ht
            · exact hinv.encodable t ht
            · rw [mem_singleton.mp ht]
              trivial
          found := fun _ => hfound
          few := fun _ => by
            show (c.tokens ++ [_]).length < blockTokens + next.1
            rw [length_append, length_singleton]
            omega
          few_last := by
            rw [length_append, length_singleton]
            omega }
    case isFalse =>
      have hinv' : Compressor.Inv input maxOut { c with finder } := { hinv with sound := hsound }
      exact takeCurrent_spec hinv' hmaxOut hpos (le_of_eq hstop)
  case isFalse => exact takeCurrent_spec hinv hmaxOut hpos (le_succ_of_le hnext)

theorem compressLoop_spec (hinv : c.Inv input maxOut) (hmaxOut : input.length ≤ maxOut)
    (hnext : c.finder.nextInsert ≤ c.pos) (fuel : Nat) (hfuel : input.length ≤ c.pos + fuel) :
    ∃ c', compressLoop input fuel c = .ok c' ∧ c'.Inv input maxOut ∧ c'.pos = input.length := by
  induction fuel generalizing c with
  | zero =>
    have := hinv.pos_le
    exact ⟨c, by rw [compressLoop, if_neg (by omega)], hinv, by omega⟩
  | succ fuel ih =>
    by_cases hpos : c.pos < input.length
    · obtain ⟨_, hstep, hinv1, hnext1, _⟩ := compressStep_spec hinv hmaxOut hpos hnext
      obtain ⟨c', hloop, hinv', hend⟩ := ih hinv1 hnext1 (by omega)
      refine ⟨c', ?_, hinv', hend⟩
      rw [compressLoop, if_pos hpos, hstep, ok_bind, hloop]
    · have := hinv.pos_le
      exact ⟨c, by rw [compressLoop, if_neg hpos], hinv, by omega⟩

end

theorem Compressor.inv_initial (maxOut : Nat) {current : Nat × Nat}
    (hfound : MatchFinder.Found input 0 current) : Compressor.Inv input maxOut
      { writer := .new, finder := .new, tokens := [], blockStart := 0, pos := 0, current } where
  writer_wf := BitWriter.new_wf
  sound := MatchFinder.sound_new
  pos_le := zero_le _
  start_le := zero_le _
  spells := rfl
  encodable := nofun
  found := fun _ => hfound
  few := fun _ => lt_of_lt_of_le (by decide : 0 < blockTokens) (Nat.le_add_right ..)
  few_last := zero_le _
  written := fun r _ hr hrest _ => ⟨r, .refl r [], hr, hrest, rfl⟩

theorem decompressWithLimit_of_readsAs {maxOut : Nat} {w : BitWriter} (hw : w.WF) {out : List UInt8}
    (h : ReadsAs maxOut true w w.stream [] out) : decompressWithLimit w.finish maxOut = .ok out := by
  obtain ⟨pad, hpad, hbits⟩ := BitWriter.finish_spec hw
  have hlen := congrArg List.length hbits
  rw [length_ofBytes, length_append, length_replicate] at hlen
  obtain ⟨_, hrun, hwf, hrest, hdata⟩ := h (new w.finish) (List.replicate pad false)
    (new_wf _) (by rw [rest_new, hbits]) (by rw [length_replicate]; omega)
  -- aligning drops the padding, which is all there is
  obtain ⟨hwf', hrest', hdata', -⟩ := alignToByte_spec hwf
  rw [hrest, length_replicate, mod_eq_of_lt hpad, drop_eq_nil_of_le (by rw [length_replicate])] at hrest'
  have hposition := position_eq_length hwf' hrest'
  rw [hdata', hdata] at hposition
  have hloop := inflateLoop_of_blocks hrun (length_rest_lt_bitBound (new_wf _))
  rw [decompressWithLimit, inflate]
  rw [hloop, ok_bind]
  simp only [pure_eq_ok, ok_bind, hposition]
  rw [if_neg (by simp [new])]

/-- Inflating what `compress` returns gives the input back, to the last byte, under any limit that admits it. -/
theorem decompressWithLimit_compress (input : List UInt8) (maxOut : Nat) (hmaxOut : input.length ≤ maxOut) :
    ∃ out, compress input = .ok out ∧ decompressWithLimit out maxOut = .ok input := by
  obtain ⟨_, hmatch, hfound⟩ := MatchFinder.longestMatch_spec MatchFinder.sound_new (zero_le 0)
  obtain ⟨c, hloop, hinv, hend⟩ := compressLoop_spec (Compressor.inv_initial maxOut hfound) hmaxOut
    (le_refl 0) input.length (Nat.le_add_left ..)
  have h32 : c.tokens.length + 1 < 2 ^ 32 := lt_of_le_of_lt (succ_le_succ hinv.few_last) (by decide)
  have hspell := hinv.spells
  rw [hend] at hspell
  obtain ⟨w, _, hwrite, happ, hread⟩ := writeBlock_spec hinv.writer_wf hspell hinv.start_le hmaxOut
    hinv.encodable h32 true
  rw [take_length] at hwrite hread
  have hall := hinv.written.trans happ hread
  rw [← happ.stream] at hall
  refine ⟨w.finish, ?_, decompressWithLimit_of_readsAs happ.wf hall⟩
  rw [compress, hmatch, ok_bind, hloop, ok_bind, hwrite]
  rfl


theorem decompressWithLimit_compress_run :
    [97, 97, 97, 97, 97].length ≤ 5 ∧ ∃ out, compress [97, 97, 97, 97, 97] = .ok out ∧
      decompressWithLimit out 5 = .ok [97, 97, 97, 97, 97] :=
  ⟨by decide, decompressWithLimit_compress [97, 97, 97, 97, 97] 5 (by decide)⟩

end Rustlavel.Http.Deflate
