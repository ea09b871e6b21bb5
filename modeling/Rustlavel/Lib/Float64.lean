/-
  Doubles by their bits, and the decimal numbers they are read from: a text stands for a fraction, and is read
  as the double nearest to it, on a tie as the one with the even significand.
-/

import Rustlavel.Lib.Double
import Rustlavel.Lib.Text

namespace Float64

open Text List Char Option Nat Double

structure F64 where
  bits : BitVec 64
  deriving DecidableEq

/-- What a double stands for; a finite one for `m * 2 ^ e`, with its sign. -/
inductive Value where
  | finite (neg : Bool) (m : Nat) (e : Int)
  | infinite (neg : Bool)
  | nan
  deriving DecidableEq

variable (x : F64)

def F64.neg : Bool := decide (2 ^ 63 ≤ x.bits.toNat)

def F64.biased : Nat := x.bits.toNat / 2 ^ 52 % 2048

def F64.fraction : Nat := x.bits.toNat % 2 ^ 52

def F64.value : Value :=
  if x.biased = 0 then .finite x.neg x.fraction (-1074)
  else if x.biased = 2047 then if x.fraction = 0 then .infinite x.neg else .nan
  else .finite x.neg (2 ^ 52 + x.fraction) ((x.biased : Int) - 1075)

/-! ## Numbers that are equal -/

variable (neg : Bool)

def signed (n : Nat) : Int := if neg then -(n : Int) else n

/-- Equality of doubles: the numbers are the same, so the two zeros are, and no `NaN` is equal to any. -/
def Value.eq : Value → Value → Bool
  | .finite neg m e, .finite neg' m' e' =>
    let scale := min (min e e') 0
    signed neg (m * 2 ^ (e - scale).toNat) == signed neg' (m' * 2 ^ (e' - scale).toNat)
  | .infinite neg, .infinite neg' => neg == neg'
  | _, _ => false

def F64.eq (x y : F64) : Bool := x.value.eq y.value

/-- `m * 2 ^ e`, if it is whole. -/
def wholePart (m : Nat) (e : Int) : Option Nat :=
  if 0 ≤ e then some (m * 2 ^ e.toNat)
  else if m % 2 ^ (-e).toNat = 0 then some (m / 2 ^ (-e).toNat)
  else none

def F64.whole : Option Int :=
  match x.value with
  | .finite neg m e => (wholePart m e).map (signed neg)
  | _ => none

variable {m n : Nat} {e i : Int} (cs : List Char) (num den : Nat)

theorem scaled_of_wholePart {k : Int} (h : wholePart m e = some n) (hk : k ≤ e) (hk' : k ≤ 0) :
    m * 2 ^ (e - k).toNat = n * 2 ^ (-k).toNat := by
  rw [wholePart] at h
  split at h
  · rename_i he
    cases h
    have hsum : (e - k).toNat = e.toNat + (-k).toNat := by omega
    rw [hsum, pow_add, mul_assoc]
  · split at h
    · rename_i hdvd
      cases h
      have hsum : (-k).toNat = (-e).toNat + (e - k).toNat := by omega
      have hm := Nat.div_mul_cancel (Nat.dvd_of_mod_eq_zero hdvd)
      rw [hsum, pow_add, ← mul_assoc, hm]
    · cases h

theorem signed_mul (n k : Nat) : signed neg (n * k) = signed neg n * k := by
  cases neg with
  | false | true => simp [signed]

theorem eq_of_whole {x y : F64} (hx : x.whole = some i) (hy : y.whole = some i) : x.eq y = true := by
  rw [F64.whole] at hx hy
  rw [F64.eq]
  cases hxv : x.value with
  | infinite | nan =>
    rw [hxv] at hx
    cases hx
  | finite neg m e =>
    cases hyv : y.value with
    | infinite | nan =>
      rw [hyv] at hy
      cases hy
    | finite neg' m' e' =>
      rw [hxv] at hx
      rw [hyv] at hy
      obtain ⟨_, hn, hi⟩ := map_eq_some_iff.mp hx
      obtain ⟨_, hn', hi'⟩ := map_eq_some_iff.mp hy
      have hleft := scaled_of_wholePart hn (k := min (min e e') 0) (by omega) (by omega)
      have hright := scaled_of_wholePart hn' (k := min (min e e') 0) (by omega) (by omega)
      rw [Value.eq, beq_iff_eq, hleft, hright, signed_mul, signed_mul, hi, hi']

/-! ## Rounding -/

def assemble (biased fraction : Nat) : F64 :=
  { bits := BitVec.ofNat 64 ((if neg then 2 ^ 63 else 0) + biased * 2 ^ 52 + fraction) }

/-- The double `m * 2 ^ e`, for a significand that has its leading bit or the least exponent. -/
def pack (m : Nat) (e : Int) : F64 :=
  if m < 2 ^ 52 then assemble neg 0 m else assemble neg (e + 1075).toNat (m - 2 ^ 52)

def infinity : F64 := assemble neg 2047 0

def ratioLog2 : Int :=
  let d : Int := num.log2 - den.log2
  if den * 2 ^ d.toNat ≤ num * 2 ^ (-d).toNat then d else d - 1

def roundRatio : F64 :=
  if num = 0 then pack neg 0 (-1074)
  else
    let e := max (ratioLog2 num den - 52) (-1074)
    let m := nearest (num * 2 ^ (-e).toNat) (den * 2 ^ e.toNat)
    -- rounding up can make the significand one bit longer
    if m = 2 ^ 53 then if 971 < e + 1 then infinity neg else pack neg (2 ^ 52) (e + 1)
    else if 971 < e then infinity neg
    else pack neg m e

section

variable (neg : Bool) {biased fraction : Nat} (hbiased : biased < 2048) (hfraction : fraction < 2 ^ 52)

include hbiased hfraction

theorem toNat_assemble :
    (assemble neg biased fraction).bits.toNat = (if neg then 2 ^ 63 else 0) + biased * 2 ^ 52 + fraction := by
  have hlt : (if neg then 2 ^ 63 else 0) + biased * 2 ^ 52 + fraction < 2 ^ 64 := by
    split <;> omega
  rw [assemble, BitVec.toNat_ofNat, mod_eq_of_lt hlt]

theorem neg_assemble : (assemble neg biased fraction).neg = neg := by
  rw [F64.neg, toNat_assemble neg hbiased hfraction]
  cases neg with
  | true =>
    rw [if_pos rfl, decide_eq_true_iff]
    omega
  | false =>
    rw [if_neg (by decide), decide_eq_false_iff_not]
    omega

theorem biased_assemble : (assemble neg biased fraction).biased = biased := by
  rw [F64.biased, toNat_assemble neg hbiased hfraction]
  split <;> omega

theorem fraction_assemble : (assemble neg biased fraction).fraction = fraction := by
  rw [F64.fraction, toNat_assemble neg hbiased hfraction]
  split <;> omega

end

theorem value_pack (hlow : 2 ^ 52 ≤ m) (hhigh : m < 2 ^ 53)
    (he : -1074 ≤ e) (he' : e ≤ 971) : (pack neg m e).value = .finite neg m e := by
  obtain ⟨k, hk, hk'⟩ : ∃ k : Nat, (e + 1075).toNat = k ∧ (k : Int) = e + 1075 := ⟨_, rfl, by omega⟩
  have hbiased : k < 2048 := by omega
  have hfraction : m - 2 ^ 52 < 2 ^ 52 := by omega
  have hm : 2 ^ 52 + (m - 2 ^ 52) = m := by omega
  have hexponent : (k : Int) - 1075 = e := by omega
  rw [pack, if_neg (by omega), hk, F64.value, neg_assemble neg hbiased hfraction,
    biased_assemble neg hbiased hfraction, fraction_assemble neg hbiased hfraction, if_neg (by omega),
    if_neg (by omega), hm, hexponent]

theorem value_zero : (pack neg 0 (-1074)).value = .finite neg 0 (-1074) := by
  have hbiased : 0 < 2048 := by decide
  have hfraction : 0 < 2 ^ 52 := by decide
  rw [pack, if_pos hfraction, F64.value, neg_assemble neg hbiased hfraction, biased_assemble neg hbiased hfraction,
    fraction_assemble neg hbiased hfraction, if_pos rfl]

theorem wholePart_mul {k : Nat} (h : (-e).toNat = k) (h' : e ≤ 0) : wholePart (n * 2 ^ k) e = some n := by
  rw [wholePart]
  split
  · rename_i hzero
    have he : e.toNat = 0 := by omega
    have hk : k = 0 := by omega
    rw [he, hk, pow_zero, mul_one, mul_one]
  · rw [h, Nat.mul_mod_left, if_pos rfl, Nat.mul_div_cancel _ (Nat.pow_pos (by decide))]

theorem whole_roundRatio (h : n < 2 ^ 53) : (roundRatio neg n 1).whole = some (signed neg n) := by
  by_cases hzero : n = 0
  · have hpart : wholePart 0 (-1074) = some 0 := by
      have hmul := wholePart_mul (n := 0) (e := -1074) rfl (by decide)
      rwa [Nat.zero_mul] at hmul
    rw [hzero, roundRatio, if_pos rfl, F64.whole, value_zero]
    simp only [hpart, map_some]
  · -- shifted so that the leading bit is the 53rd
    obtain ⟨L, hL⟩ : ∃ L, n.log2 = L := ⟨_, rfl⟩
    have hlow : 2 ^ L ≤ n := hL ▸ log2_self_le hzero
    have hhigh : n < 2 ^ (L + 1) := hL ▸ lt_log2_self
    have hle : L ≤ 52 := by
      by_contra hgt
      have hpow : 2 ^ 53 ≤ 2 ^ L := Nat.pow_le_pow_right (by decide) (by omega)
      omega
    have hratio : ratioLog2 n 1 = L := by
      have hone : (1 : Nat).log2 = 0 := by decide
      rw [ratioLog2, hL, hone]
      simp only [Int.natCast_zero, Int.sub_zero, Int.toNat_natCast, one_mul]
      rw [if_pos (le_trans hlow (Nat.le_mul_of_pos_right n (Nat.pow_pos (by decide))))]
    have hexponent : max (ratioLog2 n 1 - 52) (-1074) = (L : Int) - 52 := by
      omega
    have hshift : (-((L : Int) - 52)).toNat = 52 - L := by omega
    have hunit : ((L : Int) - 52).toNat = 0 := by omega
    have hsignificand : nearest (n * 2 ^ (52 - L)) 1 = n * 2 ^ (52 - L) := by
      have hexact := nearest_mul (n * 2 ^ (52 - L)) one_pos
      rwa [mul_one] at hexact
    have hlow' : 2 ^ 52 ≤ n * 2 ^ (52 - L) := by
      have hpow : 2 ^ 52 = 2 ^ L * 2 ^ (52 - L) := by rw [← pow_add, Nat.add_sub_cancel' hle]
      rw [hpow]
      exact mul_le_mul_right _ hlow
    have hhigh' : n * 2 ^ (52 - L) < 2 ^ 53 := by
      have hpow : 2 ^ 53 = 2 ^ (L + 1) * 2 ^ (52 - L) := by
        rw [← pow_add]
        congr 1
        omega
      rw [hpow]
      exact Nat.mul_lt_mul_of_pos_right hhigh (Nat.pow_pos (by decide))
    have hround : roundRatio neg n 1 = pack neg (n * 2 ^ (52 - L)) (L - 52) := by
      rw [roundRatio, if_neg hzero]
      simp only [hexponent, hshift, hunit, pow_zero, one_mul, hsignificand]
      rw [if_neg (Nat.ne_of_lt hhigh'), if_neg (by omega)]
    have hpart : wholePart (n * 2 ^ (52 - L)) (L - 52) = some n := wholePart_mul hshift (by omega)
    rw [hround, F64.whole, value_pack neg hlow' hhigh' (by omega) (by omega)]
    simp only [hpart, map_some]

/-! ## Reading -/

def takeDigits : List Char × List Char := (cs.takeWhile isDigit, cs.dropWhile isDigit)

def takeSign : List Char → Bool × List Char
  | '-' :: cs => (true, cs)
  | '+' :: cs => (false, cs)
  | cs => (false, cs)

def number (ds : List Char) : Nat := (digitsValue 10 ds).getD 0

def parseExponent : List Char → Option Int
  | [] => some 0
  | c :: cs =>
    if c = 'e' ∨ c = 'E' then
      let (neg, cs) := takeSign cs
      let (ds, rest) := takeDigits cs
      if ds.isEmpty || !rest.isEmpty then none else some (signed neg (number ds))
    else none

def takeFraction : List Char → List Char × List Char
  | '.' :: cs => takeDigits cs
  | cs => ([], cs)

def parseMagnitude : Option F64 :=
  let (int, cs) := takeDigits cs
  let (fraction, cs) := takeFraction cs
  if int.isEmpty && fraction.isEmpty then none
  else
    (parseExponent cs).map fun e =>
      let scale : Int := e - fraction.length
      roundRatio neg (number (int ++ fraction) * 10 ^ scale.toNat) (10 ^ (-scale).toNat)

def parseUnsignedPart : Option F64 :=
  let word := cs.map toLower
  if word = ['i', 'n', 'f'] ∨ word = ['i', 'n', 'f', 'i', 'n', 'i', 't', 'y'] then some (infinity neg)
  else if word = ['n', 'a', 'n'] then some (assemble neg 2047 (2 ^ 51))
  else parseMagnitude neg cs

def parse : Option F64 := parseUnsignedPart (takeSign cs).1 (takeSign cs).2

theorem takeDigits_toDigits (n : Nat) : takeDigits (toDigits 10 n) = (toDigits 10 n, []) := by
  have hall : ∀ c ∈ toDigits 10 n, c.isDigit = true := fun c hc =>
    isDigit_of_mem_toDigits (by decide) (by decide) hc
  have htake := takeWhile_eq_self_iff.mpr hall
  have hdrop := dropWhile_eq_nil_iff.mpr hall
  rw [takeDigits, htake, hdrop]

theorem parseMagnitude_toDigits (n : Nat) : parseMagnitude neg (toDigits 10 n) = some (roundRatio neg n 1) := by
  have hne : (toDigits 10 n).isEmpty = false := by simp
  have hnumber : number (toDigits 10 n) = n := by
    rw [number, digitsValue_toDigits (by decide) (by decide), getD_some]
  rw [parseMagnitude, takeDigits_toDigits]
  simp [takeFraction, parseExponent, hne, hnumber]

theorem takeSign_toDigits (n : Nat) : takeSign (toDigits 10 n) = (false, toDigits 10 n) := by
  have hdigit : ∀ c ∈ toDigits 10 n, c.isDigit = true := fun c hc =>
    isDigit_of_mem_toDigits (by decide) (by decide) hc
  rw [takeSign.eq_def]
  split
  · rename_i heq
    rw [heq] at hdigit
    exact absurd (hdigit '-' mem_cons_self) (by decide)
  · rename_i heq
    rw [heq] at hdigit
    exact absurd (hdigit '+' mem_cons_self) (by decide)
  · rfl

theorem toLower_toDigits (n : Nat) {c : Char} (h : c.isDigit = false) (word : List Char) :
    (toDigits 10 n).map toLower ≠ c :: word := by
  intro heq
  have hmem : c ∈ (toDigits 10 n).map toLower := heq ▸ mem_cons_self
  obtain ⟨d, hd, rfl⟩ := mem_map.mp hmem
  have hdigit : d.isDigit = true := isDigit_of_mem_toDigits (by decide) (by decide) hd
  have hlower : d.toLower = d := by
    rw [toLower, dif_neg]
    intro hupper
    simp [isDigit, UInt32.le_iff_toNat_le] at hdigit hupper
    omega
  rw [hlower, hdigit] at h
  cases h

theorem parseUnsignedPart_toDigits (n : Nat) : parseUnsignedPart neg (toDigits 10 n) = some (roundRatio neg n 1) := by
  have hinf := toLower_toDigits n (c := 'i') (by decide)
  have hnan := toLower_toDigits n (c := 'n') (by decide)
  rw [parseUnsignedPart, if_neg (not_or.mpr ⟨hinf _, hinf _⟩), if_neg (hnan _), parseMagnitude_toDigits]

theorem parse_integerText (h : i.natAbs < 2 ^ 53) : ∃ x, parse (integerText i) = some x ∧ x.whole = some i := by
  refine ⟨roundRatio (decide (i < 0)) i.natAbs 1, ?_, ?_⟩
  · by_cases hneg : i < 0
    · rw [integerText, if_pos hneg, singleton_append, parse, decide_eq_true hneg]
      exact parseUnsignedPart_toDigits true i.natAbs
    · rw [integerText, if_neg hneg, nil_append, parse, takeSign_toDigits, decide_eq_false hneg]
      exact parseUnsignedPart_toDigits false i.natAbs
  · have hsigned : signed (decide (i < 0)) i.natAbs = i := by
      simp only [signed, decide_eq_true_eq]
      split <;> omega
    rw [whole_roundRatio _ h, hsigned]

/-! ## Printing -/

def ratioLog10 : Int :=
  if den ≤ num then (toDigits 10 (num / den)).length - 1
  else -((toDigits 10 ((den - 1) / num)).length : Int)

/-- `d * 10 ^ s` without an exponent. -/
def decimalText (d : Nat) (s : Int) : List Char :=
  let ds := toDigits 10 d
  if 0 ≤ s then ds ++ List.replicate s.toNat '0'
  else
    let decimals := (-s).toNat
    let ds := List.replicate (decimals + 1 - ds.length) '0' ++ ds
    ds.take (ds.length - decimals) ++ '.' :: ds.drop (ds.length - decimals)

def candidates (num den digits : Nat) : List (List Char) :=
  let s := ratioLog10 num den - digits + 1
  let n := num * 10 ^ (-s).toNat
  let p := den * 10 ^ s.toNat
  let near := nearest n p
  let other := if near = n / p then near + 1 else n / p
  [near, other].map fun d => if d = 10 ^ digits then decimalText (10 ^ (digits - 1)) (s + 1) else decimalText d s

/-- `Display` of a double: the fewest digits that read back as it, and no exponent. -/
def display : List Char :=
  let sign := if x.neg then ['-'] else []
  match x.value with
  | .nan => ['N', 'a', 'N']
  | .infinite _ => sign ++ ['i', 'n', 'f']
  | .finite neg m e =>
    if m = 0 then sign ++ ['0']
    else
      -- seventeen digits are enough for every double
      let texts := (List.range 17).flatMap fun k => candidates (m * 2 ^ e.toNat) (2 ^ (-e).toNat) (k + 1)
      sign ++ (texts.find? fun text => parseMagnitude neg text == some x).getD []

example : (["-0.1", "0.000001", "5e-324", "1e23"].filterMap fun text => (parse text.toList).map display).map
      (fun text => (text.length, String.ofList (text.take 8))) =
    [(4, "-0.1"), (8, "0.000001"), (326, "0.000000"), (24, "10000000")] := by
  decide +kernel

end Float64
