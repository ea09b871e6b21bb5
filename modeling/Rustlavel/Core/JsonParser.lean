/-
  The JSON parser: recursive descent over the bytes of a text.
-/

import Rustlavel.Core.Json
import Rustlavel.Lib.Float64
import Rustlavel.Lib.Outcome
import Rustlavel.Lib.Utf8

namespace Rustlavel.Json

open Float64 Outcome Utf8 Text

namespace Parser

structure Failure where
  rest : List UInt8
  message : String

structure ParseError where
  line : Nat
  column : Nat
  message : String

/-- `Parser::error`: the place of an error, counted from one. -/
def locate (input : List UInt8) (failure : Failure) : ParseError :=
  let consumed := input.take (input.length - failure.rest.length)
  { line := consumed.count (ascii '\n') + 1
    column := (consumed.reverse.takeWhile (· != ascii '\n')).length + 1
    message := failure.message }

/-! ## Tokens -/

variable (b : UInt8)

def isSpace : Bool := b == ascii ' ' || b == ascii '\t' || b == ascii '\n' || b == ascii '\r'

variable (bs : List UInt8)

def skipWhitespace : List UInt8 := bs.dropWhile isSpace

def expect (c : Char) (bs : List UInt8) : Result Failure (List UInt8) :=
  if bs.head? = some (ascii c) then .ok bs.tail
  else fail ⟨bs, String.ofList (("expected `".toList ++ [c]) ++ ['`'])⟩

def literal (word : String) (value : Json F64) (bs : List UInt8) : Result Failure (Json F64 × List UInt8) :=
  if (encode word.toList).isPrefixOf bs then .ok (value, bs.drop (encode word.toList).length)
  else fail ⟨bs, "invalid literal"⟩

def isDigitByte : Bool := 0x30 ≤ b.toNat && b.toNat ≤ 0x39

def isNumberByte : Bool :=
  isDigitByte b || b == ascii '.' || b == ascii 'e' || b == ascii 'E' || b == ascii '+' || b == ascii '-'

/-- A sign, and then all that could be of a number; whether it is one is left to `str::parse`. -/
def number : Result Failure (Json F64 × List UInt8) :=
  let sign := if bs.head? = some (ascii '-') then 1 else 0
  let length := sign + ((bs.drop sign).takeWhile isNumberByte).length
  match (fromUtf8 (bs.take length)).bind parse with
  | some x => .ok (.number x, bs.drop length)
  | none => fail ⟨bs.drop length, "invalid number"⟩

/-! ## Strings -/

def hex4 : Result Failure (Nat × List UInt8) :=
  if bs.length < 4 then fail ⟨bs, "truncated \\u escape"⟩
  else
    match (fromUtf8 (bs.take 4)).bind (parseUnsigned 16 (2 ^ 32)) with
    | some code => .ok (code, bs.drop 4)
    | none => fail ⟨bs, "invalid \\u escape"⟩

def charFromU32 (code : Nat) (bs : List UInt8) : Result Failure (Char × List UInt8) :=
  if code.isValidChar then .ok (Char.ofNat code, bs) else fail ⟨bs, "invalid code point"⟩

def lowSurrogate (high : Nat) (bs : List UInt8) : Result Failure (Char × List UInt8) :=
  if bs.take 2 = [ascii '\\', ascii 'u'] then do
    let (low, rest) ← hex4 (bs.drop 2)
    if 0xdc00 ≤ low ∧ low < 0xe000 then charFromU32 (0x10000 + (high - 0xd800) * 1024 + (low - 0xdc00)) rest
    else fail ⟨rest, "unpaired surrogate"⟩
  else fail ⟨bs, "unpaired surrogate"⟩

def unicodeEscape : Result Failure (Char × List UInt8) := do
  let (high, rest) ← hex4 bs
  if 0xd800 ≤ high ∧ high < 0xdc00 then lowSurrogate high rest else charFromU32 high rest

def shortEscapes : List (UInt8 × Char) :=
  [(ascii '"', '"'), (ascii '\\', '\\'), (ascii '/', '/'), (ascii 'n', '\n'), (ascii 'r', '\r'), (ascii 't', '\t'),
    (ascii 'b', Char.ofNat 0x08), (ascii 'f', Char.ofNat 0x0c)]

def escapeSequence : List UInt8 → Result Failure (Char × List UInt8)
  | [] => fail ⟨[], "unterminated escape"⟩
  | b :: bs =>
    match shortEscapes.lookup b with
    | some c => .ok (c, bs)
    | none => if b = ascii 'u' then unicodeEscape bs else fail ⟨bs, "invalid escape sequence"⟩

def isPlain : Bool := b != ascii '"' && b != ascii '\\'

def stringLoop : Nat → List Char → List UInt8 → Result Failure (List Char × List UInt8)
  | 0, _, _ => .error .diverged
  | _ + 1, _, [] => fail ⟨[], "unterminated string"⟩
  | fuel + 1, out, b :: bs =>
    if b = ascii '"' then .ok (out, bs)
    else if b = ascii '\\' then do
      let (c, rest) ← escapeSequence bs
      stringLoop fuel (out ++ [c]) rest
    else
      let rest := (b :: bs).dropWhile isPlain
      match fromUtf8 ((b :: bs).takeWhile isPlain) with
      | some chunk => stringLoop fuel (out ++ chunk) rest
      | none => fail ⟨rest, "invalid UTF-8 in string"⟩

def string : Result Failure (String × List UInt8) := do
  let inner ← expect '"' bs
  let (cs, rest) ← stringLoop (inner.length + 1) [] inner
  .ok (String.ofList cs, rest)

/-! ## Values -/

mutual

def value : Nat → List UInt8 → Result Failure (Json F64 × List UInt8)
  | 0, _ => .error .diverged
  | _ + 1, [] => fail ⟨[], "unexpected end of input"⟩
  | fuel + 1, b :: bs =>
    if b = ascii 'n' then literal "null" .null (b :: bs)
    else if b = ascii 't' then literal "true" (.bool true) (b :: bs)
    else if b = ascii 'f' then literal "false" (.bool false) (b :: bs)
    else if b = ascii '"' then do
      let (s, rest) ← string (b :: bs)
      .ok (.string s, rest)
    else if b = ascii '[' then
      let inner := skipWhitespace bs
      if inner.head? = some (ascii ']') then .ok (.array [], inner.tail) else arrayLoop fuel [] inner
    else if b = ascii '\x7b' then
      let inner := skipWhitespace bs
      if inner.head? = some (ascii '\x7d') then .ok (.object [], inner.tail) else objectLoop fuel [] inner
    else if b = ascii '-' || isDigitByte b then number (b :: bs)
    else fail ⟨b :: bs, "unexpected character"⟩

def arrayLoop : Nat → List (Json F64) → List UInt8 → Result Failure (Json F64 × List UInt8)
  | 0, _, _ => .error .diverged
  | fuel + 1, items, bs => do
    let (item, rest) ← value fuel (skipWhitespace bs)
    let rest := skipWhitespace rest
    if rest.head? = some (ascii ',') then arrayLoop fuel (items ++ [item]) rest.tail
    else if rest.head? = some (ascii ']') then .ok (.array (items ++ [item]), rest.tail)
    else fail ⟨rest, "expected `,` or `]`"⟩

def objectLoop : Nat → List (String × Json F64) → List UInt8 → Result Failure (Json F64 × List UInt8)
  | 0, _, _ => .error .diverged
  | fuel + 1, fields, bs => do
    let (key, rest) ← string (skipWhitespace bs)
    let rest ← expect ':' (skipWhitespace rest)
    let (item, rest) ← value fuel (skipWhitespace rest)
    let rest := skipWhitespace rest
    let fields := insertField key item fields
    if rest.head? = some (ascii ',') then objectLoop fuel fields rest.tail
    else if rest.head? = some (ascii '\x7d') then .ok (.object fields, rest.tail)
    else fail ⟨rest, "expected `,` or `\x7d`"⟩

end

def document : Result Failure (Json F64) := do
  let (v, rest) ← value (2 * bs.length + 2) (skipWhitespace bs)
  let rest := skipWhitespace rest
  if rest.isEmpty then .ok v else fail ⟨rest, "unexpected trailing characters"⟩

end Parser

def parse (input : List UInt8) : Result Parser.ParseError (Json F64) :=
  match Parser.document input with
  | .ok v => .ok v
  | .error (.error failure) => fail (Parser.locate input failure)
  | .error .panic => .error .panic
  | .error .diverged => .error .diverged

end Rustlavel.Json
