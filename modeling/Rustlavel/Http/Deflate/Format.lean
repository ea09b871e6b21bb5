/-
  The constants and tables of `compression/deflate.rs` (RFC 1951 §3.2.5–3.2.7), the error type the decoders
  share, and the lookups between match lengths, distances and their codes.
-/

import Rustlavel.Lib.Outcome

namespace Rustlavel.Http

open List
namespace Deflate

open Outcome

inductive InflateError where
  | truncated
  | invalidBlockType
  | invalidCode
  | invalidCodeLengths
  | distanceTooFar
  | lengthMismatch
  | outputTooLarge
  | invalidHeader
  | checksumMismatch
  | trailingData
  deriving DecidableEq

/-- What a function of `deflate.rs` returns. -/
abbrev Res (α : Type) : Type := Result InflateError α

/-! ## Constants -/

def maxBits : Nat := 15
def maxCodeLengthBits : Nat := 7
def litlenSymbols : Nat := 286
def endOfBlock : Nat := 256
def distSymbols : Nat := 30
def codeLengthSymbols : Nat := 19
def minMatch : Nat := 3
def maxMatch : Nat := 258
def windowSize : Nat := 32 * 1024

/-! ## Tables -/

def lengthBase : List Nat :=
  [3, 4, 5, 6, 7, 8, 9, 10, 11, 13, 15, 17, 19, 23, 27, 31, 35, 43, 51, 59, 67, 83, 99, 115, 131, 163, 195, 227, 258]

def lengthExtra : List Nat := [0, 0, 0, 0, 0, 0, 0, 0, 1, 1, 1, 1, 2, 2, 2, 2, 3, 3, 3, 3, 4, 4, 4, 4, 5, 5, 5, 5, 0]

def distBase : List Nat :=
  [1, 2, 3, 4, 5, 7, 9, 13, 17, 25, 33, 49, 65, 97, 129, 193, 257, 385, 513, 769, 1025, 1537, 2049,
    3073, 4097, 6145, 8193, 12289, 16385, 24577]

def distExtra : List Nat :=
  [0, 0, 0, 0, 1, 1, 2, 2, 3, 3, 4, 4, 5, 5, 6, 6, 7, 7, 8, 8, 9, 9, 10, 10, 11, 11, 12, 12, 13, 13]

def codeLengthOrder : List Nat := [16, 17, 18, 0, 8, 7, 9, 6, 10, 5, 11, 4, 12, 3, 13, 2, 14, 1, 15]

/-! ## Length and distance codes -/

/-- The inner loop of `build_length_codes`: mark `span` lengths from `length` on, stopping after `MAX_MATCH`. -/
def fillLengthCodes (table : List Nat) (code length : Nat) : Nat → List Nat
  | 0 => table
  | span + 1 =>
    if length ≤ maxMatch then
      fillLengthCodes (table.set (length - minMatch) code) code (length + 1) span
    else table

/-- The outer loop of `build_length_codes`, over the codes not yet visited. -/
def buildLengthCodesFrom (table : List Nat) (code : Nat) : List (Nat × Nat) → List Nat
  | [] => table
  | (base, extra) :: rest =>
    buildLengthCodesFrom (fillLengthCodes table code base (2 ^ extra)) (code + 1) rest

/-- `build_length_codes`: the code of each match length, indexed by `length - MIN_MATCH`. -/
def buildLengthCodes : List Nat :=
  buildLengthCodesFrom (replicate (maxMatch - minMatch + 1) 0) 0 (lengthBase.zip lengthExtra)

def lengthCode (length : Nat) : Res Nat := do
  index buildLengthCodes (← sub length minMatch)

/-- `dist_code`: the last code whose base does not exceed the distance. -/
def distCode (dist : Nat) : Res Nat := sub ((distBase.takeWhile fun base => base ≤ dist).length) 1

def fixedLitlenLengths : List Nat := replicate 144 8 ++ replicate 112 9 ++ replicate 24 7 ++ replicate 8 8

def fixedDistLengths : List Nat := replicate 32 5

/-! ## What the lookups return -/

/-- Does code `lc` of a base and an extra-bits table spell `value`? -/
def spells (base extra : List Nat) (value lc : Nat) : Bool :=
  match base[lc]?, extra[lc]? with
  | some b, some e => decide (b ≤ value) && decide (value - b < 2 ^ e)
  | _, _ => false

theorem spells_iff {base extra : List Nat} {value lc : Nat} :
    spells base extra value lc = true ↔ ∃ b e, base[lc]? = some b ∧ extra[lc]? = some e ∧
      b ≤ value ∧ value - b < 2 ^ e := by
  rw [spells]
  cases hb : base[lc]? <;> cases he : extra[lc]? <;> simp

@[simp] theorem length_fillLengthCodes (table : List Nat) (code length span : Nat) :
    (fillLengthCodes table code length span).length = table.length := by
  induction span generalizing table length with
  | zero => rfl
  | succ span ih =>
    rw [fillLengthCodes]
    split
    · rw [ih, length_set]
    · rfl

@[simp] theorem length_buildLengthCodesFrom (table : List Nat) (code : Nat) (codes : List (Nat × Nat)) :
    (buildLengthCodesFrom table code codes).length = table.length := by
  induction codes generalizing table code with
  | nil => rfl
  | cons c codes ih => rw [buildLengthCodesFrom, ih, length_fillLengthCodes]

theorem length_buildLengthCodes : buildLengthCodes.length = 256 := by
  rw [buildLengthCodes, length_buildLengthCodesFrom, length_replicate]
  rfl

theorem buildLengthCodes_spells : ((List.range' minMatch 256).zip buildLengthCodes).all
      (fun p => spells lengthBase lengthExtra p.1 p.2) = true := by
  decide +kernel

theorem lengthCode_spec {length : Nat} (hlo : minMatch ≤ length) (hhi : length ≤ maxMatch) :
    ∃ lc, lengthCode length = .ok lc ∧ spells lengthBase lengthExtra length lc = true := by
  have hlt : length - minMatch < buildLengthCodes.length := by
    rw [length_buildLengthCodes]
    simp only [minMatch, maxMatch] at hlo hhi ⊢
    omega
  refine ⟨buildLengthCodes[length - minMatch], ?_, ?_⟩
  · rw [lengthCode, sub_of_le hlo, ok_bind]
    exact index_of_lt hlt
  · have hmem : (length, buildLengthCodes[length - minMatch]) ∈ (List.range' minMatch 256).zip buildLengthCodes := by
      refine mem_iff_getElem.mpr ⟨length - minMatch, ?_, ?_⟩
      · rw [length_zip, length_range', length_buildLengthCodes]
        rw [length_buildLengthCodes] at hlt
        omega
      · rw [getElem_zip, getElem_range', Nat.one_mul, Nat.add_sub_cancel' hlo]
    have hall := buildLengthCodes_spells
    rw [all_eq_true] at hall
    simpa only using hall _ hmem

theorem distBase_gap : ∀ i < 30,
    (distBase ++ [windowSize + 1]).getD (i + 1) 0 ≤ distBase.getD i 0 + 2 ^ distExtra.getD i 0 := by
  decide

theorem getElem?_length_takeWhile {α : Type} (p : α → Bool) (xs : List α) {x : α}
    (h : xs[(xs.takeWhile p).length]? = some x) : p x = false := by
  induction xs with
  | nil => simp at h
  | cons y ys ih =>
    by_cases hy : p y = true
    · rw [takeWhile_cons_of_pos hy, length_cons, getElem?_cons_succ] at h
      exact ih h
    · rw [takeWhile_cons_of_neg hy, length_nil, getElem?_cons_zero] at h
      simpa [Option.some.inj h] using hy

theorem distCode_spec {dist : Nat} (hlo : 1 ≤ dist) (hhi : dist ≤ windowSize) :
    ∃ dc, distCode dist = .ok dc ∧ spells distBase distExtra dist dc = true := by
  have hbase : distBase.length = 30 := rfl
  have hextra : distExtra.length = 30 := rfl
  let p := fun base : Nat => decide (base ≤ dist)
  have hpos : 0 < (distBase.takeWhile p).length := by
    rw [distBase, takeWhile_cons_of_pos (by simpa [p] using hlo)]
    exact Nat.succ_pos _
  have hpre : distBase.takeWhile p <+: distBase := takeWhile_prefix p
  have hle := hpre.length_le
  obtain ⟨i, hi⟩ : ∃ i, (distBase.takeWhile p).length = i + 1 := ⟨_, (Nat.sub_add_cancel hpos).symm⟩
  have hfst : distBase[i] ≤ dist := by
    have hget : (distBase.takeWhile p)[i] = distBase[i] := hpre.getElem (by omega)
    have hall := all_eq_true.mp (all_takeWhile (l := distBase) (p := p)) _ (getElem_mem (n := i) (by omega))
    rw [hget] at hall
    simpa [p] using hall
  have hnext : dist < (distBase ++ [windowSize + 1]).getD (i + 1) 0 := by
    rw [getD_eq_getElem?_getD]
    by_cases hlast : i + 1 < 30
    · have hstop := getElem?_length_takeWhile p distBase
        (x := distBase[i + 1]) (by rw [hi]; exact getElem?_eq_getElem (by omega))
      rw [getElem?_append_left (by omega), getElem?_eq_getElem (by omega)]
      exact Nat.lt_of_not_le (of_decide_eq_false hstop)
    · have h29 : i + 1 = 30 := by omega
      rw [h29]
      exact Nat.lt_succ_of_le hhi
  have hgap := distBase_gap i (by omega)
  rw [getD_eq_getElem?_getD (l := distBase), getElem?_eq_getElem (by omega),
    getD_eq_getElem?_getD (l := distExtra), getElem?_eq_getElem (by omega)] at hgap
  simp only [Option.getD_some] at hgap
  refine ⟨i, ?_, spells_iff.mpr ⟨distBase[i], distExtra[i], ?_, ?_, hfst, by omega⟩⟩
  · rw [distCode, hi]
    exact sub_of_le (by omega)
  · exact getElem?_eq_getElem (by omega)
  · exact getElem?_eq_getElem (by omega)

end Deflate
end Rustlavel.Http
