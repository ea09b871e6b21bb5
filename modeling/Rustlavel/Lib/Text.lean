/-
  The operations of a string library that take texts apart: white space, separators,
  and numbers written in digits.
-/

import Mathlib

namespace Text

open List Nat Option

/-! ## White space -/

/-- The characters with the property `White_Space`. -/
def isWhitespace (c : Char) : Bool :=
  (0x9 ≤ c.toNat && c.toNat ≤ 0xd) || c.toNat == 0x20 || c.toNat == 0x85 || c.toNat == 0xa0 ||
    c.toNat == 0x1680 || (0x2000 ≤ c.toNat && c.toNat ≤ 0x200a) || c.toNat == 0x2028 ||
    c.toNat == 0x2029 || c.toNat == 0x202f || c.toNat == 0x205f || c.toNat == 0x3000

/-- The characters of the general category `Cc`. -/
def isControl (c : Char) : Bool := c.toNat < 0x20 || (0x7f ≤ c.toNat && c.toNat ≤ 0x9f)

def trim (cs : List Char) : List Char := (cs.dropWhile isWhitespace).rdropWhile isWhitespace

variable {cs front back : List Char} {c sep : Char} {radix n : Nat} {i : Int}

theorem trim_of_forall (h : ∀ c ∈ cs, isWhitespace c = false) : trim cs = cs := by
  have hleft : cs.dropWhile isWhitespace = cs := by
    cases cs with
    | nil => rfl
    | cons c => exact dropWhile_cons_of_neg (by simp [h c])
  rw [trim, hleft, rdropWhile_eq_self_iff]
  intro hne
  simp [h _ (getLast_mem hne)]

theorem trim_append (h : ∀ c ∈ front, isWhitespace c = true) (cs : List Char) : trim (front ++ cs) = trim cs := by
  rw [trim, dropWhile_append_of_pos h, trim]

theorem trim_trim (cs : List Char) : trim (trim cs) = trim cs := by
  have hleft : (trim cs).dropWhile isWhitespace = trim cs := by
    cases htrim : trim cs with
    | nil => rfl
    | cons c rest =>
      -- the first character is the first one of the text that is not white space
      have hfirst : (cs.dropWhile isWhitespace).head? = some c := by
        obtain ⟨_, hmore⟩ := rdropWhile_prefix isWhitespace (cs.dropWhile isWhitespace)
        rw [← hmore]
        have hfront : (cs.dropWhile isWhitespace).rdropWhile isWhitespace = c :: rest := htrim
        rw [hfront]
        rfl
      have hnot := List.head?_dropWhile_not isWhitespace cs
      rw [hfirst] at hnot
      exact dropWhile_cons_of_neg (by simpa using hnot)
  rw [trim, hleft]
  exact rdropWhile_idempotent isWhitespace _

/-! ## Separators -/

def splitOnce (sep : Char) : List Char → Option (List Char × List Char)
  | [] => none
  | c :: cs => if c = sep then some ([], cs) else (splitOnce sep cs).map fun r => (c :: r.1, r.2)

def rsplitOnce (sep : Char) (cs : List Char) : Option (List Char × List Char) :=
  (splitOnce sep cs.reverse).map fun r => (r.2.reverse, r.1.reverse)

def splitCrlf : List Char → List (List Char)
  | [] => [[]]
  | '\r' :: '\n' :: cs => [] :: splitCrlf cs
  | c :: cs => (splitCrlf cs).modifyHead (c :: ·)

theorem splitCrlf_append {line : List Char} (h : '\r' ∉ line) (rest : List Char) :
    splitCrlf (line ++ '\r' :: '\n' :: rest) = line :: splitCrlf rest := by
  induction line with
  | nil => rw [nil_append, splitCrlf]
  | cons c line ih =>
    have hc : c ≠ '\r' := fun heq => h (heq ▸ mem_cons_self ..)
    have hline := ih fun hmem => h (mem_cons_of_mem c hmem)
    rw [cons_append, splitCrlf, hline]
    · rfl
    · exact fun _ heq => absurd heq hc

theorem splitOnce_append (h : sep ∉ front) (back : List Char) :
    splitOnce sep (front ++ sep :: back) = some (front, back) := by
  induction front with
  | nil => rw [nil_append, splitOnce, if_pos rfl]
  | cons c front ih =>
    have hc : c ≠ sep := fun heq => h (heq ▸ mem_cons_self ..)
    have hfront : sep ∉ front := fun hmem => h (mem_cons_of_mem c hmem)
    rw [cons_append, splitOnce, if_neg hc, ih hfront]
    rfl

theorem eq_of_splitOnce (h : splitOnce sep cs = some (front, back)) : cs = front ++ sep :: back ∧ sep ∉ front := by
  induction cs generalizing front with
  | nil => cases h
  | cons c cs ih =>
    rw [splitOnce] at h
    split at h
    · rename_i heq
      cases h
      exact ⟨by rw [heq]; rfl, not_mem_nil⟩
    · rename_i hne
      obtain ⟨⟨front', back'⟩, hsplit, heq⟩ := map_eq_some_iff.mp h
      cases heq
      obtain ⟨hcs, hnot⟩ := ih hsplit
      refine ⟨by rw [hcs]; rfl, ?_⟩
      exact fun hmem => (mem_cons.mp hmem).elim (fun heq => hne heq.symm) hnot

theorem splitOnce_eq_none (h : sep ∉ cs) : splitOnce sep cs = none := by
  induction cs with
  | nil => rfl
  | cons c cs ih =>
    have hc : c ≠ sep := fun heq => h (heq ▸ mem_cons_self ..)
    rw [splitOnce, if_neg hc, ih fun hmem => h (mem_cons_of_mem c hmem)]
    rfl

/-! ## Digits -/

def digitValue (radix : Nat) (c : Char) : Option Nat :=
  let n := c.toNat
  let value :=
    if 0x30 ≤ n ∧ n ≤ 0x39 then some (n - 0x30)
    else if 0x61 ≤ n ∧ n ≤ 0x7a then some (n - 0x61 + 10)
    else if 0x41 ≤ n ∧ n ≤ 0x5a then some (n - 0x41 + 10)
    else none
  value.filter (· < radix)

def digitsValue (radix : Nat) (cs : List Char) : Option Nat :=
  cs.foldlM (fun value c => (digitValue radix c).map (value * radix + ·)) 0

def stripPlus : List Char → List Char
  | '+' :: d :: ds => d :: ds
  | cs => cs

/-- `from_str_radix` of an unsigned type: digits, after a sign or not, for a number below the bound. -/
def parseUnsigned (radix bound : Nat) (cs : List Char) : Option Nat :=
  if (stripPlus cs).isEmpty then none else (digitsValue radix (stripPlus cs)).filter (· < bound)

theorem stripPlus_of_digits (h : digitsValue radix cs = some n) : stripPlus cs = cs := by
  unfold stripPlus
  split
  · cases h
  · rfl

theorem parseUnsigned_of_digits (bound : Nat) (hne : cs ≠ []) (h : digitsValue radix cs = some n) :
    parseUnsigned radix bound cs = if n < bound then some n else none := by
  have hempty : cs.isEmpty = false := by simpa using hne
  rw [parseUnsigned, stripPlus_of_digits h, hempty, h]
  simp [Option.filter]

theorem digit_of_mem (h : digitsValue radix cs = some n) : ∀ c ∈ cs, (digitValue radix c).isSome := by
  have hfold : ∀ (cs : List Char) (start n : Nat),
      cs.foldlM (fun value c => (digitValue radix c).map (value * radix + ·)) start = some n →
        ∀ c ∈ cs, (digitValue radix c).isSome := by
    intro cs
    induction cs with
    | nil => exact nofun
    | cons d cs ih =>
      intro start n h c hc
      obtain ⟨value, hvalue, h⟩ := bind_eq_some_iff.mp h
      rcases mem_cons.mp hc with rfl | hc
      · obtain ⟨_, hk, -⟩ := map_eq_some_iff.mp hvalue
        rw [hk]
        rfl
      · exact ih value n h c hc
  exact hfold cs 0 n h

theorem range_of_digit (h : (digitValue radix c).isSome) :
    0x30 ≤ c.toNat ∧ c.toNat ≤ 0x39 ∨ 0x61 ≤ c.toNat ∧ c.toNat ≤ 0x7a ∨ 0x41 ≤ c.toNat ∧ c.toNat ≤ 0x5a := by
  rw [digitValue] at h
  split at h
  · exact .inl (by assumption)
  · split at h
    · exact .inr (.inl (by assumption))
    · split at h
      · exact .inr (.inr (by assumption))
      · cases h

theorem isWhitespace_of_digit (h : (digitValue radix c).isSome) : isWhitespace c = false := by
  have hrange := range_of_digit h
  simp only [isWhitespace, Bool.or_eq_false_iff, Bool.and_eq_false_iff, decide_eq_false_iff_not, beq_eq_false_iff_ne]
  omega

/-! ## Numbers written in digits -/

theorem digitValue_digitChar {d : Nat} (hd : d < radix) (hradix : radix ≤ 16) :
    digitValue radix d.digitChar = some d := by
  have hall : ∀ d : Fin 16, digitValue 16 (digitChar d.val) = some d.val := by decide
  have hsixteen := hall ⟨d, by omega⟩
  obtain ⟨hvalue, -⟩ := filter_eq_some_iff.mp hsixteen
  exact filter_eq_some_iff.mpr ⟨hvalue, by simpa using hd⟩

theorem digitsValue_concat (radix : Nat) (cs : List Char) (c : Char) : digitsValue radix (cs ++ [c]) =
      (digitsValue radix cs).bind fun value => (digitValue radix c).map (value * radix + ·) := by
  rw [digitsValue, foldlM_append]
  simp only [foldlM_cons, foldlM_nil, bind_pure]
  rfl

theorem digitsValue_toDigits (hradix : 1 < radix) (hradix' : radix ≤ 16) (n : Nat) :
    digitsValue radix (toDigits radix n) = some n := by
  induction n using Nat.strongRecOn with
  | ind n ih =>
    by_cases hn : n < radix
    · have hone := digitsValue_concat radix [] n.digitChar
      rw [toDigits_of_lt_base hn, ← nil_append [n.digitChar], hone, digitValue_digitChar hn hradix']
      simp [digitsValue]
    · have hless : n / radix < n := div_lt_self (by omega) hradix
      have hmod : n % radix < radix := mod_lt n (by omega)
      rw [toDigits_of_base_le hradix (by omega), digitsValue_concat, ih _ hless,
        digitValue_digitChar hmod hradix']
      simp [div_add_mod']

theorem digit_of_mem_toDigits (hradix : 1 < radix) (hradix' : radix ≤ 16) :
    ∀ c ∈ toDigits radix n, (digitValue radix c).isSome :=
  digit_of_mem (digitsValue_toDigits hradix hradix' n)

/-! ## Signed numbers -/

def integerText (i : Int) : List Char := (if i < 0 then ['-'] else []) ++ toDigits 10 i.natAbs

/-- `parse` of a signed type: the numbers from `-bound` up to `bound`, without `bound`. -/
def parseSigned (bound : Nat) : List Char → Option Int
  | '-' :: d :: ds => ((digitsValue 10 (d :: ds)).filter (· ≤ bound)).map fun n => -(n : Int)
  | cs => (parseUnsigned 10 bound cs).map Int.ofNat

theorem parseSigned_integerText {bound : Nat} (hlow : -(bound : Int) ≤ i) (hhigh : i < bound) :
    parseSigned bound (integerText i) = some i := by
  have hdigits : digitsValue 10 (toDigits 10 i.natAbs) = some i.natAbs :=
    digitsValue_toDigits (by decide) (by decide) i.natAbs
  cases hcs : toDigits 10 i.natAbs with
  | nil => exact absurd hcs toDigits_ne_nil
  | cons d ds =>
    rw [hcs] at hdigits
    by_cases hneg : i < 0
    · have hle : i.natAbs ≤ bound := by omega
      have hback : -(i.natAbs : Int) = i := by omega
      rw [integerText, if_pos hneg, hcs, singleton_append, parseSigned, hdigits]
      simp only [Option.filter, hle, decide_true, if_true]
      exact congrArg some hback
    · have hlt : i.natAbs < bound := by omega
      have hback : Int.ofNat i.natAbs = i := Int.natAbs_of_nonneg (by omega)
      have hsign : d ≠ '-' := by
        rintro rfl
        have hmem := isDigit_of_mem_toDigits (b := 10) (n := i.natAbs) (by decide) (by decide)
          (hcs ▸ mem_cons_self)
        exact absurd hmem (by decide)
      have hplain : parseSigned bound (d :: ds) = (parseUnsigned 10 bound (d :: ds)).map Int.ofNat := by
        unfold parseSigned
        split
        · rename_i heq
          cases heq
          exact absurd rfl hsign
        · rfl
      rw [integerText, if_neg hneg, hcs, nil_append, hplain,
        parseUnsigned_of_digits bound (cons_ne_nil d ds) hdigits, if_pos hlt, map_some, hback]

theorem isWhitespace_of_mem_integerText (h : c ∈ integerText i) : isWhitespace c = false := by
  rcases mem_append.mp h with hsign | hdigit
  · have hminus : c = '-' := by
      split at hsign
      · exact mem_singleton.mp hsign
      · cases hsign
    rw [hminus]
    rfl
  · exact isWhitespace_of_digit (digit_of_mem_toDigits (by decide) (by decide) c hdigit)

end Text
