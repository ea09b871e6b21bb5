/-
  Texts with holes. A template is a list of parts, fixed ones and holes; filling it writes a numbered mark into
  every hole, counting from left to right.
-/

import Mathlib

namespace Template

open List Nat

variable {F : Type}

inductive Chunk (F : Type) where
  | fixed (f : F)
  | hole

/-! ## Filling -/

def holes : List (Chunk F) → Nat
  | [] => 0
  | .fixed _ :: ps => holes ps
  | .hole :: ps => holes ps + 1

/-- The text of a template whose first hole is number `n + 1`. -/
def fill (write : F → String) (mark : Nat → String) (n : Nat) : List (Chunk F) → String
  | [] => ""
  | .fixed f :: ps => write f ++ fill write mark n ps
  | .hole :: ps => mark (n + 1) ++ fill write mark (n + 1) ps

theorem holes_append (ps qs : List (Chunk F)) : holes (ps ++ qs) = holes ps + holes qs := by
  induction ps with
  | nil => exact (Nat.zero_add _).symm
  | cons p ps ih =>
    cases p with
    | fixed => exact ih
    | hole =>
      show holes (ps ++ qs) + 1 = holes ps + 1 + holes qs
      omega

section

variable {write : F → String} {mark : Nat → String}

theorem fill_append (n : Nat) (ps qs : List (Chunk F)) :
    fill write mark n (ps ++ qs) = fill write mark n ps ++ fill write mark (n + holes ps) qs := by
  induction ps generalizing n with
  | nil => exact (String.empty_append).symm
  | cons p ps ih =>
    cases p with
    | fixed f =>
      show write f ++ fill write mark n (ps ++ qs) = _
      rw [ih, ← String.append_assoc]
      rfl
    | hole =>
      show mark (n + 1) ++ fill write mark (n + 1) (ps ++ qs) = _
      have hn : n + 1 + holes ps = n + holes (.hole :: ps) := by
        show n + 1 + holes ps = n + (holes ps + 1)
        omega
      rw [ih, ← String.append_assoc, hn]
      rfl

end

/-! ## Marks in a text -/

structure Style where
  sign : Char
  letters : List Char
  not_digit : sign.isDigit = false
  not_letter : sign ∉ letters

namespace Style

variable (S : Style)

def mark (n : Nat) : String := .ofList (S.sign :: S.letters) ++ n.repr

def number (text : List Char) : Option Nat :=
  let digits := (text.drop S.letters.length).takeWhile Char.isDigit
  if S.letters.isPrefixOf text ∧ digits ≠ [] then some (ofDigitChars 10 digits 0) else none

def numbersIn : List Char → List Nat
  | [] => []
  | c :: text => if c = S.sign then (S.number text).toList ++ numbersIn text else numbersIn text

def NoDigit (text : List Char) : Prop := ∀ c ∈ text.head?, c.isDigit = false

/-- A text in which, whatever follows it, there are no marks, and which does not go on with a number. -/
structure Quiet (text : List Char) : Prop where
  silent : ∀ rest, S.numbersIn (text ++ rest) = S.numbersIn rest
  ne_nil : text ≠ []
  noDigit : NoDigit text

variable {S}

variable {text rest : List Char} {c : Char}

theorem numbersIn_append_of_not_mem (h : S.sign ∉ text) (rest : List Char) :
    S.numbersIn (text ++ rest) = S.numbersIn rest := by
  induction text with
  | nil => rfl
  | cons c text ih =>
    obtain ⟨hc, htext⟩ := not_or.mp (mem_cons.not.mp h)
    show (if c = S.sign then _ else S.numbersIn (text ++ rest)) = _
    rw [if_neg (Ne.symm hc), ih htext]

theorem number_eq_none (h : ¬ S.letters <+: text) : S.number text = none :=
  if_neg fun hnumber => h (List.isPrefixOf_iff_prefix.mp hnumber.1)

theorem numbersIn_cons_of_none (h : S.number text = none) : S.numbersIn (c :: text) = S.numbersIn text := by
  rw [numbersIn, h]
  exact ite_self _

theorem not_mem_digits (hc : c.isDigit = false) (n : Nat) : c ∉ n.repr.toList := by
  intro hmem
  rw [toList_repr] at hmem
  have hdigit := isDigit_of_mem_toDigits (by decide) (by decide) hmem
  rw [hc] at hdigit
  cases hdigit

theorem takeWhile_digits {n : Nat} (h : NoDigit rest) :
    (n.repr.toList ++ rest).takeWhile Char.isDigit = n.repr.toList := by
  rw [takeWhile_append_of_pos fun c hc => ?_]
  · cases rest with
    | nil => rw [takeWhile_nil, append_nil]
    | cons c =>
      rw [takeWhile_cons_of_neg, append_nil]
      rw [h c rfl]
      exact Bool.false_ne_true
  · rw [toList_repr] at hc
    exact isDigit_of_mem_toDigits (by decide) (by decide) hc

theorem numbersIn_mark (n : Nat) (h : NoDigit rest) :
    S.numbersIn ((S.mark n).toList ++ rest) = n :: S.numbersIn rest := by
  have htext : (S.mark n).toList ++ rest = S.sign :: (S.letters ++ n.repr.toList ++ rest) := by
    simp [mark]
  have hnumber : S.number (S.letters ++ n.repr.toList ++ rest) = some n := by
    unfold number
    rw [append_assoc, drop_left, takeWhile_digits h, toList_repr, if_pos,
      ofDigitChars_toDigits (by decide) (by decide)]
    exact ⟨List.isPrefixOf_iff_prefix.mpr (prefix_append ..), toDigits_ne_nil⟩
  have hquiet : S.sign ∉ S.letters ++ n.repr.toList := by
    intro hmem
    rcases mem_append.mp hmem with hmem | hmem
    · exact S.not_letter hmem
    · exact not_mem_digits S.not_digit n hmem
  rw [htext]
  show (if S.sign = S.sign then _ else _) = _
  rw [if_pos rfl, hnumber, numbersIn_append_of_not_mem hquiet]
  rfl

theorem noDigit_mark (n : Nat) (rest : List Char) : NoDigit ((S.mark n).toList ++ rest) := by
  have htext : (S.mark n).toList ++ rest = S.sign :: (S.letters ++ n.repr.toList ++ rest) := by
    simp [mark]
  rw [htext]
  rintro c ⟨⟩
  exact S.not_digit

theorem numbersIn_fill {write : F → String} (ps : List (Chunk F)) (hquiet : ∀ f, S.Quiet (write f).toList) (n : Nat) :
    S.numbersIn (fill write S.mark n ps).toList = List.range' (n + 1) (holes ps) ∧
      NoDigit (fill write S.mark n ps).toList := by
  induction ps generalizing n with
  | nil => exact ⟨rfl, nofun⟩
  | cons p ps ih =>
    cases p with
    | fixed f =>
      obtain ⟨hnumbers, -⟩ := ih n
      have htext : (fill write S.mark n (.fixed f :: ps)).toList =
          (write f).toList ++ (fill write S.mark n ps).toList := String.toList_append
      rw [htext, (hquiet f).silent]
      refine ⟨hnumbers, ?_⟩
      obtain ⟨_, _, hf⟩ := exists_cons_of_ne_nil (hquiet f).ne_nil
      have hc := (hquiet f).noDigit
      rw [hf] at hc ⊢
      exact hc
    | hole =>
      obtain ⟨hnumbers, hrest⟩ := ih (n + 1)
      have htext : (fill write S.mark n (.hole :: ps)).toList =
          (S.mark (n + 1)).toList ++ (fill write S.mark (n + 1) ps).toList := String.toList_append
      rw [htext, numbersIn_mark (n + 1) hrest, hnumbers]
      exact ⟨rfl, noDigit_mark (n + 1) _⟩

end Style

end Template
