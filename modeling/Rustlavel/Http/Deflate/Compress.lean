/-
  The compressing half of `compression/deflate.rs`: the lazy tokeniser of
  `compress`, and `write_block` with its three encodings.
-/

import Rustlavel.Http.Deflate.Huffman
import Rustlavel.Http.Deflate.BuildLengths
import Rustlavel.Http.Deflate.MatchFinder

namespace Rustlavel.Http.Deflate

open Outcome List

/-! ## The dynamic header -/

abbrev RunEntry : Type := Nat × Nat × Nat

structure DynamicHeader where
  litlenLengths : List Nat
  distLengths : List Nat
  hlit : Nat
  hdist : Nat
  hclen : Nat
  codeLengthLengths : List Nat
  sequence : List RunEntry

/-- `Iterator::rposition`: the index of the last entry that passes the test. -/
def rposition (p : Nat → Bool) : List Nat → Option Nat
  | [] => none
  | x :: xs =>
    match rposition p xs with
    | some i => some (i + 1)
    | none => if p x then some 0 else none

/-- `iter().rposition(|&l| l != 0).map_or(default, |i| i + 1)`. -/
def usedLength (default : Nat) (lengths : List Nat) : Nat :=
  match rposition (fun l => l ≠ 0) lengths with
  | some i => i + 1
  | none => default

def zeroRuns (run : Nat) : List RunEntry :=
  if 11 ≤ run then (18, min run 138 - 11, 7) :: zeroRuns (run - min run 138)
  else if 3 ≤ run then [(17, run - 3, 3)]
  else replicate run (0, 0, 0)
termination_by run
decreasing_by omega

/-- The entries for the rest of a run of `value`, once `value` itself stands. -/
def repeatRuns (value run : Nat) : List RunEntry :=
  if 3 ≤ run then (16, min run 6 - 3, 2) :: repeatRuns value (run - min run 6)
  else replicate run (value, 0, 0)
termination_by run
decreasing_by omega

/-- The `while i < all.len()` loop of `build_dynamic_header`, on `all[i..]`. -/
def runLengths : List Nat → List RunEntry
  | [] => []
  | value :: rest =>
    -- the run is `value` itself and the equal lengths right after it
    let more := (rest.takeWhile fun l => l = value).length
    (if value = 0 then zeroRuns (more + 1) else (value, 0, 0) :: repeatRuns value more) ++ runLengths (rest.drop more)
termination_by lengths => lengths.length
decreasing_by
  rw [length_drop, length_cons]
  omega

def bump (freq : List Nat) (i : Nat) : Res (List Nat) := do
  let f ← index freq i
  store freq i ((f + 1) % 2 ^ 32)

/-- `for &(sym, _, _) in &sequence { code_length_freq[sym] += 1 }`. -/
def countRuns (freq : List Nat) : List RunEntry → Res (List Nat)
  | [] => .ok freq
  | (sym, _, _) :: sequence => do countRuns (← bump freq sym) sequence

def buildDynamicHeader (litlenFreq distFreq : List Nat) : Res DynamicHeader := do
  let litlenLengths ← buildLengths litlenFreq maxBits
  let distLengths ← buildLengths distFreq maxBits
  let hlit := max (usedLength 257 litlenLengths) 257
  let hdist := usedLength 1 distLengths
  let sequence := runLengths (litlenLengths.take hlit ++ distLengths.take hdist)
  let codeLengthFreq ← countRuns (replicate codeLengthSymbols 0) sequence
  let codeLengthLengths ← buildLengths codeLengthFreq maxCodeLengthBits
  let ordered ← codeLengthOrder.mapM (index codeLengthLengths)
  let hclen := max (usedLength 4 ordered) 4
  pure { litlenLengths, distLengths, hlit, hdist, hclen, codeLengthLengths, sequence }

/-- `for &sym in &CODE_LENGTH_ORDER[..header.hclen]`. -/
def writeCodeLengths (codeLengths : List Nat) : List Nat → BitWriter → Res BitWriter
  | [], w => .ok w
  | sym :: order, w => do
    let len ← index codeLengths sym
    writeCodeLengths codeLengths order (w.write len 3)

/-- `for &(sym, extra_value, extra_bits) in &header.sequence`. -/
def writeSequence (codes : List Code) : List RunEntry → BitWriter → Res BitWriter
  | [], w => .ok w
  | (sym, value, bits) :: sequence, w => do
    let code ← index codes sym
    writeSequence codes sequence ((w.writeCode code).write value bits)

variable (w : BitWriter)

def writeDynamicHeader (header : DynamicHeader) : Res BitWriter := do
  let w := w.write (← sub header.hlit 257) 5
  let w := w.write (← sub header.hdist 1) 5
  let w := w.write (← sub header.hclen 4) 4
  let w ← writeCodeLengths header.codeLengthLengths (codeLengthOrder.take header.hclen) w
  let codes ← assignCodes header.codeLengthLengths
  writeSequence codes header.sequence w

/-! ## Blocks -/

def writeTokens (litlen dist : List Code) : List Token → BitWriter → Res BitWriter
  | [], w => do
    let code ← index litlen endOfBlock
    pure (w.writeCode code)
  | .literal byte :: tokens, w => do
    let code ← index litlen byte.toNat
    writeTokens litlen dist tokens (w.writeCode code)
  | .matched len distance :: tokens, w => do
    let lc ← lengthCode len
    let w := w.writeCode (← index litlen (257 + lc))
    let w := w.write (← sub len (← index lengthBase lc)) (← index lengthExtra lc)
    let dc ← distCode distance
    let w := w.writeCode (← index dist dc)
    let w := w.write (← sub distance (← index distBase dc)) (← index distExtra dc)
    writeTokens litlen dist tokens w

def writeStoredChunk (chunk : List UInt8) (isFinal : Bool) : BitWriter :=
  let w := w.write isFinal.toNat 1
  let w := w.write 0b00 2
  let w := w.alignToByte
  let w := w.write chunk.length 16
  -- `!` is the complement of a `u32`
  let w := w.write ((2 ^ 32 - 1 - chunk.length) &&& 0xFFFF) 16
  w.writeBytes chunk

/-- Chunks of at most 65 535 bytes, at least one, and only the last one final. -/
def writeStored (w : BitWriter) (raw : List UInt8) (isFinal : Bool) : BitWriter :=
  if raw.length ≤ 2 ^ 16 - 1 then writeStoredChunk w raw isFinal
  else writeStored (writeStoredChunk w (raw.take (2 ^ 16 - 1)) false) (raw.drop (2 ^ 16 - 1)) isFinal
termination_by raw.length
decreasing_by
  rw [length_drop]
  omega

/-- The loop over the tokens at the head of `write_block`: the two frequency vectors and the extra bits. -/
def countTokens (litlen dist : List Nat) (extra : Nat) : List Token → Res (List Nat × List Nat × Nat)
  | [] => .ok (litlen, dist, extra)
  | .literal byte :: tokens => do countTokens (← bump litlen byte.toNat) dist extra tokens
  | .matched len distance :: tokens => do
    let lc ← lengthCode len
    let dc ← distCode distance
    let litlen ← bump litlen (257 + lc)
    let dist ← bump dist dc
    countTokens litlen dist (extra + (← index lengthExtra lc) + (← index distExtra dc)) tokens

/-- `freqs.iter().zip(lengths).map(|(&f, &l)| f * l).sum()`. -/
def price (freqs lengths : List Nat) : Nat := ((freqs.zip lengths).map fun p => p.1 * p.2).sum

def storedBits (len : Nat) : Nat := 3 + 7 + max ((len + (2 ^ 16 - 1) - 1) / (2 ^ 16 - 1)) 1 * 32 + len * 8

def dynamicBits (header : DynamicHeader) (litlenFreq distFreq : List Nat) (extra : Nat) : Res Nat := do
  let runs ← header.sequence.mapM fun entry => do
    let len ← index header.codeLengthLengths entry.1
    pure (len + entry.2.2)
  pure (3 + 14 + header.hclen * 3 + runs.sum + extra + price litlenFreq header.litlenLengths +
    price distFreq header.distLengths)

/-- `write_block`: the cheapest of the three encodings. -/
def writeBlock (raw : List UInt8) (tokens : List Token) (isFinal : Bool) : Res BitWriter := do
  let (litlenFreq, distFreq, extra) ←
    countTokens (replicate litlenSymbols 0) (replicate distSymbols 0) 0 tokens
  let litlenFreq ← bump litlenFreq endOfBlock
  let fixedBits := 3 + extra + price litlenFreq fixedLitlenLengths + (distFreq.map fun f => f * 5).sum
  let header ← buildDynamicHeader litlenFreq distFreq
  let dynamicBits ← dynamicBits header litlenFreq distFreq extra
  if storedBits raw.length ≤ fixedBits ∧ storedBits raw.length ≤ dynamicBits then
    pure (writeStored w raw isFinal)
  else if fixedBits ≤ dynamicBits then do
    let w := (w.write isFinal.toNat 1).write 0b01 2
    let litlen ← assignCodes fixedLitlenLengths
    let dist ← assignCodes fixedDistLengths
    writeTokens litlen dist tokens w
  else do
    let w := (w.write isFinal.toNat 1).write 0b10 2
    let w ← writeDynamicHeader w header
    let litlen ← assignCodes header.litlenLengths
    let dist ← assignCodes header.distLengths
    writeTokens litlen dist tokens w

/-! ## The tokeniser -/

def blockTokens : Nat := 16 * 1024

structure Compressor where
  writer : BitWriter
  finder : MatchFinder
  tokens : List Token
  blockStart : Nat
  pos : Nat
  current : Nat × Nat

variable (input : List UInt8) (c : Compressor)

/-- The token for the match at hand, or for the byte at hand if there is no match, and the position after it. -/
def currentToken : Res (Token × Nat) :=
  if minMatch ≤ c.current.1 then
    pure (.matched (c.current.1 % 2 ^ 16) (c.current.2 % 2 ^ 16), c.pos + c.current.1)
  else do
    let byte ← index input c.pos
    pure (.literal byte, c.pos + 1)

/-- `if pos < input.len() { current = finder.longest_match(input, pos) }`. -/
def nextMatch (input : List UInt8) (finder : MatchFinder) (pos : Nat) (current : Nat × Nat) : Res (Nat × Nat) :=
  if pos < input.length then finder.longestMatch input pos else pure current

/-- Emit the match at hand, hash what it covers, look for the next one, and write out a full block. -/
def takeCurrent : Res Compressor := do
  let (token, pos) ← currentToken input c
  let tokens := c.tokens ++ [token]
  let finder ← c.finder.insertThrough input pos
  let current ← nextMatch input finder pos c.current
  if blockTokens ≤ tokens.length ∧ pos < input.length then do
    let raw := (input.take pos).drop c.blockStart
    let writer ← writeBlock c.writer raw tokens false
    pure { writer, finder, tokens := [], blockStart := pos, pos, current }
  else pure { c with finder, tokens, pos, current }

def compressStep : Res Compressor := do
  let len := c.current.1
  if minMatch ≤ len ∧ len < lazyMatchLimit ∧ c.pos + 1 < input.length then do
    let finder ← c.finder.insertThrough input (c.pos + 1)
    let next ← finder.longestMatch input (c.pos + 1)
    if len < next.1 then do
      let byte ← index input c.pos
      pure { c with finder, tokens := c.tokens ++ [.literal byte], pos := c.pos + 1, current := next }
    else takeCurrent input { c with finder }
  else takeCurrent input c

/-- The `while pos < input.len()` loop of `compress`; every pass moves `pos`. -/
def compressLoop (input : List UInt8) : Nat → Compressor → Res Compressor
  | 0, c => if c.pos < input.length then .error .diverged else .ok c
  | fuel + 1, c =>
    if c.pos < input.length then do compressLoop input fuel (← compressStep input c) else .ok c

def compress (input : List UInt8) : Res (List UInt8) := do
  let finder := MatchFinder.new
  let current ← finder.longestMatch input 0
  let c ← compressLoop input input.length { writer := .new, finder, tokens := [], blockStart := 0, pos := 0, current }
  let w ← writeBlock c.writer (input.drop c.blockStart) c.tokens true
  pure w.finish

end Rustlavel.Http.Deflate
