/-
  Internet addresses of both families, as a standard library reads and writes them. A text is read from left to
  right, each reader taking what it can off the front.
-/

import Rustlavel.Lib.Text

namespace IpAddr

open Text List UInt8 Nat

abbrev V4 : Type := { octets : List UInt8 // octets.length = 4 }

abbrev V6 : Type := { segments : List UInt16 // segments.length = 8 }

inductive Ip where
  | v4 (a : V4)
  | v6 (a : V6)
  deriving DecidableEq

def Ip.octets : Ip → List UInt8
  | .v4 a => a.val
  | .v6 a => a.val.flatMap fun s => [ofNat (s.toNat / 256), ofNat (s.toNat % 256)]

/-! ## Writing -/

def digits (radix n : Nat) : List Char := toDigits radix n

def V4.write (a : V4) : List Char := [ '.' ].intercalate (a.val.map fun b => digits 10 b.toNat)

def writeGroups (groups : List UInt16) : List Char := [ ':' ].intercalate (groups.map fun s => digits 16 s.toNat)

structure Span where
  start : Nat := 0
  len : Nat := 0

def longestZeros : List UInt16 → (index : Nat) → (current longest : Span) → Span
  | [], _, _, longest => longest
  | s :: groups, index, current, longest =>
    if s = 0 then
      let current := { start := if current.len = 0 then index else current.start, len := current.len + 1 }
      longestZeros groups (index + 1) current (if longest.len < current.len then current else longest)
    else longestZeros groups (index + 1) {} longest

def V6.toV4Mapped (a : V6) : Option V4 :=
  match a with
  | ⟨[0, 0, 0, 0, 0, 0xffff, s, t], _⟩ =>
    some ⟨[ofNat (s.toNat / 256), ofNat (s.toNat % 256), ofNat (t.toNat / 256), ofNat (t.toNat % 256)], rfl⟩
  | _ => none

def V6.write (a : V6) : List Char :=
  match a.toV4Mapped with
  | some v4 => "::ffff:".toList ++ v4.write
  | none =>
    let zeros := longestZeros a.val 0 {} {}
    if 1 < zeros.len then
      writeGroups (a.val.take zeros.start) ++ [':', ':'] ++ writeGroups (a.val.drop (zeros.start + zeros.len))
    else writeGroups a.val

def Ip.toString : Ip → String
  | .v4 a => String.ofList a.write
  | .v6 a => String.ofList a.write

/-! ## Reading -/

abbrev Reader (α : Type) : Type := List Char → Option (α × List Char)

def readChar (c : Char) : Reader Unit
  | [] => none
  | d :: cs => if d = c then some ((), cs) else none

def readNumber (radix maxDigits : Nat) (allowZeroPrefix : Bool) : Reader Nat := fun cs =>
  let ds := cs.takeWhile fun c => (digitValue radix c).isSome
  if ds.isEmpty || maxDigits < ds.length then none
  else if !allowZeroPrefix && ds.head? == some '0' && 1 < ds.length then none
  else (digitsValue radix ds).map fun n => (n, cs.drop ds.length)

def readSeparated {α : Type} (sep : Char) (index : Nat) (inner : Reader α) : Reader α := fun cs =>
  if index = 0 then inner cs
  else (readChar sep cs).bind fun r => inner r.2

def readOctet (index : Nat) : Reader UInt8 := fun cs =>
  (readSeparated '.' index (readNumber 10 3 false) cs).bind fun r =>
    if r.1 < 256 then some (ofNat r.1, r.2) else none

def readV4 : Reader V4 := fun cs => do
  let (a, cs) ← readOctet 0 cs
  let (b, cs) ← readOctet 1 cs
  let (c, cs) ← readOctet 2 cs
  let (d, cs) ← readOctet 3 cs
  return (⟨[a, b, c, d], rfl⟩, cs)

def V4.groups (a : V4) : List UInt16 :=
  match a with
  | ⟨[a, b, c, d], _⟩ =>
    [UInt16.ofNat (a.toNat * 256 + b.toNat), UInt16.ofNat (c.toNat * 256 + d.toNat)]

/-- At most `limit` more groups, the last two of them perhaps as an address of the other family; whether they were. -/
def readGroups : (limit index : Nat) → List Char → (List UInt16 × Bool) × List Char
  | 0, _, cs => (([], false), cs)
  | limit + 1, index, cs =>
    let embedded := if 0 < limit then readSeparated ':' index readV4 cs else none
    match embedded with
    | some (v4, rest) => ((v4.groups, true), rest)
    | none =>
      match readSeparated ':' index (readNumber 16 4 true) cs with
      | some (n, rest) =>
        let r := readGroups limit (index + 1) rest
        ((UInt16.ofNat n :: r.1.1, r.1.2), r.2)
      | none => (([], false), cs)

def joinGroups (head tail : List UInt16) : List UInt16 :=
  head ++ List.replicate (8 - head.length - tail.length) 0 ++ tail

def readV6 : Reader V6 := fun cs =>
  let ((head, embedded), rest) := readGroups 8 0 cs
  if h : head.length = 8 then some (⟨head, h⟩, rest)
  else if embedded then none
  else do
    let (_, rest) ← readChar ':' rest
    let (_, rest) ← readChar ':' rest
    let ((tail, _), rest) := readGroups (8 - (head.length + 1)) 0 rest
    if h : (joinGroups head tail).length = 8 then some (⟨joinGroups head tail, h⟩, rest) else none

/-- `str::parse::<IpAddr>`: nothing may be left over. -/
def parse (text : List Char) : Option Ip :=
  match readV4 text with
  | some (a, rest) => if rest.isEmpty then some (.v4 a) else none
  | none =>
    match readV6 text with
    | some (a, rest) => if rest.isEmpty then some (.v6 a) else none
    | none => none

end IpAddr
