/-
  The inflating half of `compression/deflate.rs`: the three block types, the
  block loop, and `decompress_with_limit`.
-/

import Rustlavel.Lib.Lz77
import Rustlavel.Http.Deflate.Huffman

namespace Rustlavel.Http.Deflate

open Outcome Decoder List
open Lz77

/-! ## Stored blocks -/

variable (input : List UInt8) (maxOut : Nat) (r : BitReader)

def inflateStored (output : List UInt8) : Res (List UInt8 × BitReader) := do
  let r := r.alignToByte
  let (len, r) ← r.read 16
  let (nlen, r) ← r.read 16
  -- `!nlen` is the complement of a `usize`
  if len ≠ (2 ^ 64 - 1 - nlen) &&& 0xFFFF then fail .lengthMismatch
  else do
    let (bytes, r) ← r.takeBytes len
    if maxOut < output.length + len then fail .outputTooLarge
    else pure (output ++ bytes, r)

/-! ## The dynamic header -/

/-- `for &symbol in &CODE_LENGTH_ORDER[..hclen]`. -/
def readCodeLengths (codeLengths : List Nat) : List Nat → BitReader → Res (List Nat × BitReader)
  | [], r => .ok (codeLengths, r)
  | symbol :: order, r => do
    let (len, r) ← r.read 3
    let codeLengths ← store codeLengths symbol len
    readCodeLengths codeLengths order r

/-- The length a code-length symbol stands for and how often, with the extra bits that say so. -/
def readRepeat (lengths : List Nat) (idx symbol : Nat) (r : BitReader) : Res ((Nat × Nat) × BitReader) :=
  if symbol ≤ 15 then pure ((symbol, 1), r)
  else if symbol = 16 then
    if idx = 0 then fail .invalidCodeLengths
    else do
      let value ← index lengths (idx - 1)
      let (n, r) ← r.read 2
      pure ((value, 3 + n), r)
  else if symbol = 17 then do
    let (n, r) ← r.read 3
    pure ((0, 3 + n), r)
  else do
    let (n, r) ← r.read 7
    pure ((0, 11 + n), r)

/-- `xs[i..i + n].fill(value)`, for a range inside the vector. -/
def fill (xs : List Nat) (i n value : Nat) : List Nat := xs.take i ++ replicate n value ++ xs.drop (i + n)

/-- The `while index < lengths.len()` loop. -/
def readLengths (d : Decoder) : Nat → List Nat → Nat → BitReader → Res (List Nat × BitReader)
  | 0, lengths, idx, r => if idx < lengths.length then .error .diverged else .ok (lengths, r)
  | fuel + 1, lengths, idx, r =>
    if idx < lengths.length then do
      let (symbol, r) ← d.decode r
      let ((value, n), r) ← readRepeat lengths idx symbol r
      if lengths.length < idx + n then fail .invalidCodeLengths
      else readLengths d fuel (fill lengths idx n value) (idx + n) r
    else .ok (lengths, r)

def readDynamicCodes : Res ((Decoder × Decoder) × BitReader) := do
  let (n, r) ← r.read 5
  let hlit := n + 257
  let (n, r) ← r.read 5
  let hdist := n + 1
  let (n, r) ← r.read 4
  let hclen := n + 4
  if litlenSymbols < hlit ∨ distSymbols < hdist then fail .invalidCode
  else do
    let (codeLengths, r) ← readCodeLengths (replicate codeLengthSymbols 0) (codeLengthOrder.take hclen) r
    let d ← new codeLengths
    let (lengths, r) ← readLengths d (hlit + hdist) (replicate (hlit + hdist) 0) 0 r
    -- without an end-of-block code the block could never finish
    if (← index lengths endOfBlock) = 0 then fail .invalidCode
    else do
      let litlen ← new (lengths.take hlit)
      let dist ← new (lengths.drop hlit)
      pure ((litlen, dist), r)

/-! ## Compressed blocks -/

/-- `for i in 0..length { output.push(output[start + i]) }`, from `i` on. -/
def copyMatch (output : List UInt8) (start i : Nat) : Nat → Res (List UInt8)
  | 0 => .ok output
  | n + 1 => do
    let byte ← index output (start + i)
    copyMatch (output ++ [byte]) start (i + 1) n

/-- What follows a length symbol in `inflate_codes`: the extra bits of the
    length, then the distance, as `(length, distance)`. -/
def readMatch (dist : Decoder) (symbol : Nat) (r : BitReader) : Res ((Nat × Nat) × BitReader) := do
  let code ← sub symbol 257
  if lengthBase.length ≤ code then fail .invalidCode
  else do
    let (extra, r) ← r.read (← index lengthExtra code)
    let length := (← index lengthBase code) + extra
    let (code, r) ← dist.decode r
    if distBase.length ≤ code then fail .invalidCode
    else do
      let (extra, r) ← r.read (← index distExtra code)
      let distance := (← index distBase code) + extra
      pure ((length, distance), r)

def inflateCodes (maxOut : Nat) (litlen dist : Decoder) : Nat → BitReader → List UInt8 → Res (List UInt8 × BitReader)
  | 0, _, _ => .error .diverged
  | fuel + 1, r, output => do
    let (symbol, r) ← litlen.decode r
    if symbol < endOfBlock then
      if maxOut ≤ output.length then fail .outputTooLarge
      else inflateCodes maxOut litlen dist fuel r (output ++ [UInt8.ofNat symbol])
    else if symbol = endOfBlock then pure (output, r)
    else do
      let ((length, distance), r) ← readMatch dist symbol r
      if output.length < distance then fail .distanceTooFar
      else if maxOut < output.length + length then fail .outputTooLarge
      else do
        let output ← copyMatch output (output.length - distance) 0 length
        inflateCodes maxOut litlen dist fuel r output

/-! ## The stream -/

def bitBound : Nat := 8 * (r.data.length + 1)

/-- One pass of the loop of `inflate`: a block, and whether it is the final one. -/
def inflateBlock (output : List UInt8) : Res (Bool × List UInt8 × BitReader) := do
  let (bit, r) ← r.readBit
  let isFinal := decide (bit = 1)
  let (type, r) ← r.read 2
  if type = 0b00 then do
    let (output, r) ← inflateStored maxOut r output
    pure (isFinal, output, r)
  else if type = 0b01 then do
    let litlen ← new fixedLitlenLengths
    let dist ← new fixedDistLengths
    let (output, r) ← inflateCodes maxOut litlen dist (bitBound r) r output
    pure (isFinal, output, r)
  else if type = 0b10 then do
    let ((litlen, dist), r) ← readDynamicCodes r
    let (output, r) ← inflateCodes maxOut litlen dist (bitBound r) r output
    pure (isFinal, output, r)
  else fail .invalidBlockType

/-- The `loop` of `inflate`. -/
def inflateLoop (maxOut : Nat) : Nat → BitReader → List UInt8 → Res (List UInt8 × BitReader)
  | 0, _, _ => .error .diverged
  | fuel + 1, r, output => do
    let (isFinal, output, r) ← inflateBlock maxOut r output
    if isFinal then pure (output, r) else inflateLoop maxOut fuel r output

/-- `inflate`: the output, and how many bytes of the input the stream took. -/
def inflate : Res (List UInt8 × Nat) := do
  let r := BitReader.new input
  let (output, r) ← inflateLoop maxOut (bitBound r) r []
  pure (output, r.alignToByte.position)

def decompressWithLimit : Res (List UInt8) := do
  let (output, consumed) ← inflate input maxOut
  if consumed ≠ input.length then fail .trailingData else pure output

/-! ## Copying a match -/

theorem copyMatch_spec {input : List UInt8} {pos len dist : Nat} (hm : IsMatch input pos len dist)
    (n i : Nat) (hn : i + n = len) :
    copyMatch (input.take (pos + i)) (pos - dist) i n = .ok (input.take (pos + len)) := by
  induction n generalizing i with
  | zero =>
    rw [Nat.add_zero] at hn
    rw [hn]
    rfl
  | succ n ih =>
    have hlen := hm.len_le
    have hdist := hm.dist_pos
    have hle := hm.dist_le
    have hlt : pos + i < input.length := by omega
    -- the byte copied stands before the end of the output, so it is the input's
    have hbyte : (input.take (pos + i))[pos - dist + i]? = some input[pos + i] := by
      rw [getElem?_take_of_lt (by omega), hm.agree i (by omega), getElem?_eq_getElem hlt]
    rw [copyMatch, index_eq_ok hbyte, ok_bind, take_append_getElem hlt]
    exact ih (i + 1) (by omega)

/-! ## Runs of blocks -/

theorem length_rest_lt_bitBound {r : BitReader} (hr : r.WF) : r.rest.length < bitBound r := by
  have := hr.count_lt
  rw [BitReader.length_rest, bitBound]
  omega

/-- Any number of blocks, of which the last one and no other is marked final when `isFinal` is set. -/
inductive Blocks (maxOut : Nat) : Bool → BitReader → List UInt8 → BitReader → List UInt8 → Prop where
  | refl (r : BitReader) (output : List UInt8) : Blocks maxOut false r output r output
  | last {r r' : BitReader} {output output' : List UInt8}
      (h : inflateBlock maxOut r output = .ok (true, output', r')) :
      Blocks maxOut true r output r' output'
  | more {isFinal : Bool} {r r1 r' : BitReader} {output output1 output' : List UInt8}
      (h : inflateBlock maxOut r output = .ok (false, output1, r1))
      (hlt : r1.rest.length < r.rest.length) (hrun : Blocks maxOut isFinal r1 output1 r' output') :
      Blocks maxOut isFinal r output r' output'

theorem Blocks.trans {maxOut : Nat} {isFinal : Bool} {r r1 r2 : BitReader}
    {out out1 out2 : List UInt8} (h1 : Blocks maxOut false r out r1 out1)
    (h2 : Blocks maxOut isFinal r1 out1 r2 out2) : Blocks maxOut isFinal r out r2 out2 := by
  generalize hb : false = b at h1
  induction h1 with
  | refl => exact h2
  | last => cases hb
  | more h hlt _ ih => exact .more h hlt (ih h2 hb)

theorem inflateLoop_of_blocks {maxOut : Nat} {r r' : BitReader} {out out' : List UInt8}
    (h : Blocks maxOut true r out r' out') {fuel : Nat} (hfuel : r.rest.length < fuel) :
    inflateLoop maxOut fuel r out = .ok (out', r') := by
  generalize hb : true = b at h
  induction h generalizing fuel with
  | refl => cases hb
  | last h =>
    obtain ⟨fuel, rfl⟩ : ∃ k, fuel = k + 1 := ⟨fuel - 1, by omega⟩
    rw [inflateLoop, h, ok_bind]
    rfl
  | more h hlt _ ih =>
    obtain ⟨fuel, rfl⟩ : ∃ k, fuel = k + 1 := ⟨fuel - 1, by omega⟩
    rw [inflateLoop, h, ok_bind]
    exact ih (by omega) hb

end Rustlavel.Http.Deflate
