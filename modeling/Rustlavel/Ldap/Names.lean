/-
  Values in distinguished names: `escape_dn_value` of `rustlavel-ldap/src/protocol.rs`, and how RFC 4514 reads a name.
-/

import Rustlavel.Lib.Text
import Rustlavel.Lib.Utf8

namespace Rustlavel.Ldap

open List Text Utf8

def escapeCharacter (first last : Bool) (c : Char) : List Char :=
  if c = '\x00' then ['\\', '0', '0']
  else if c ∈ ['"', '+', ',', ';', '<', '>', '\\', '='] then ['\\', c]
  else if c = '#' ∧ first then ['\\', '#']
  else if c = ' ' ∧ (first ∨ last) then ['\\', ' ']
  else [c]

def escapeDnValue (value : List Char) : List Char :=
  value.zipIdx.flatMap fun (c, index) => escapeCharacter (index = 0) (index + 1 = value.length) c

/-! ## Reading -/

/-- A character as it stands, or an escaped byte. -/
inductive Token where
  | plain (c : Char)
  | pair (byte : UInt8)
  deriving DecidableEq

def Token.bytes : Token → List UInt8
  | .plain c => String.utf8EncodeChar c
  | .pair byte => [byte]

def hexpair (a b : Char) : Option UInt8 := (digitsValue 16 [a, b]).map UInt8.ofNat

def specials : List Char := ['\\', '"', '+', ',', ';', '<', '>', ' ', '#', '=']

/-- The characters and pairs of a value, and what follows it. -/
def tokens : List Char → Option (List Token × List Char)
  | [] => some ([], [])
  | c :: rest =>
    if c = '\\' then match rest with
      | [] => none
      | a :: rest =>
        if a ∈ specials then (tokens rest).map (.map (.pair (ascii a) :: ·) id)
        else match rest with
          | [] => none
          | b :: rest => (hexpair a b).bind fun byte => (tokens rest).map (.map (.pair byte :: ·) id)
    else if c = ',' ∨ c = '+' then some ([], c :: rest)
    else if c ∈ ['\x00', '"', ';', '<', '>'] then none
    else (tokens rest).map (.map (.plain c :: ·) id)

/-- A value does not begin with a blank or a number sign, nor end with a blank, but for escaped ones. -/
def readValue (text : List Char) : Option (List UInt8 × List Char) := do
  let (value, rest) ← tokens text
  if value.head? = some (.plain ' ') ∨ value.head? = some (.plain '#') ∨ value.getLast? = some (.plain ' ') then none
  else pure (value.flatMap Token.bytes, rest)

def unescape (text : List Char) : Option (List UInt8) := do
  let (value, rest) ← readValue text
  if rest = [] then pure value else none

/-- Attributes joined by plus signs, up to a comma. -/
def readRdn : Nat → List Char → Option (List (List Char × List UInt8) × List Char)
  | 0, _ => none
  | fuel + 1, text => do
    let type := text.takeWhile fun c => c.isAlphanum || c = '-' || c = '.'
    let (value, rest) ← match text.drop type.length with
      | '=' :: rest => readValue rest
      | _ => none
    match rest with
    | '+' :: rest => (readRdn fuel rest).map (.map ((type, value) :: ·) id)
    | _ => pure ([(type, value)], rest.tail)

/-! ## What was escaped -/

def tokenOf (first last : Bool) (c : Char) : Token :=
  if escapeCharacter first last c = [c] then .plain c else .pair (ascii c)

variable {first last : Bool} {c : Char}

theorem escapeCharacter_cases (first last : Bool) (c : Char) :
    escapeCharacter first last c = [c] ∧ c ∉ ['\x00', '"', '+', ',', ';', '<', '>', '\\'] ∧
        ((first = true → c ≠ '#' ∧ c ≠ ' ') ∧ (last = true → c ≠ ' ')) ∨
      c = '\x00' ∧ escapeCharacter first last c = ['\\', '0', '0'] ∨
      c ∈ specials ∧ escapeCharacter first last c = ['\\', c] := by
  unfold escapeCharacter
  split_ifs with hnul hlisted hsharp hblank
  · exact .inr (.inl ⟨hnul, rfl⟩)
  · refine .inr (.inr ⟨?_, rfl⟩)
    simp [specials] at hlisted ⊢
    grind
  · exact .inr (.inr ⟨hsharp.1 ▸ by decide, by rw [hsharp.1]⟩)
  · exact .inr (.inr ⟨hblank.1 ▸ by decide, by rw [hblank.1]⟩)
  · refine .inl ⟨rfl, ?_⟩
    grind

theorem tokens_escapeCharacter (rest : List Char) :
    tokens (escapeCharacter first last c ++ rest) = (tokens rest).map (.map (tokenOf first last c :: ·) id) := by
  unfold tokenOf
  obtain ⟨heq, hplain, -⟩ | ⟨rfl, heq⟩ | ⟨hspecial, heq⟩ := escapeCharacter_cases first last c
  · rw [heq, if_pos rfl, singleton_append, tokens.eq_def]
    simp only [mem_cons, not_mem_nil, or_false, not_or] at hplain
    simp [hplain]
  · rw [heq, if_neg (by decide)]
    rfl
  · rw [heq, if_neg (by simp), cons_append, tokens.eq_def]
    exact if_pos hspecial

theorem bytes_tokenOf : (tokenOf first last c).bytes = String.utf8EncodeChar c := by
  unfold tokenOf
  split
  · rfl
  · rename_i hescaped
    have hsmall : c.toNat < 0x80 := by
      obtain ⟨heq, -⟩ | ⟨rfl, -⟩ | ⟨hspecial, -⟩ := escapeCharacter_cases first last c
      · exact absurd heq hescaped
      · decide
      · exact of_decide_eq_true (all_eq_true.mp (by decide : specials.all (·.toNat < 0x80) = true) c hspecial)
    exact (encode_one (by omega) (toNat_ascii hsmall)).symm

theorem of_tokenOf_eq_plain {d : Char} (h : tokenOf first last c = .plain d) :
    (first = true → d ≠ '#' ∧ d ≠ ' ') ∧ (last = true → d ≠ ' ') := by
  unfold tokenOf at h
  split at h
  · rename_i hplain
    cases h
    obtain ⟨-, -, hends⟩ | ⟨-, heq⟩ | ⟨-, heq⟩ := escapeCharacter_cases first last c
    · exact hends
    · cases hplain.symm.trans heq
    · cases hplain.symm.trans heq
  · cases h

theorem readValue_escapeDnValue (value rest : List Char) (hrest : tokens rest = some ([], rest)) :
    readValue (escapeDnValue value ++ rest) = some (encode value, rest) := by
  let token (x : Char × Nat) := tokenOf (x.2 = 0) (x.2 + 1 = value.length) x.1
  have htokens : ∀ l : List (Char × Nat), tokens (l.flatMap (fun x =>
      escapeCharacter (x.2 = 0) (x.2 + 1 = value.length) x.1) ++ rest) = some (l.map token, rest) := by
    intro l
    induction l with
    | nil => exact hrest
    | cons x l ih =>
      rw [flatMap_cons, append_assoc, tokens_escapeCharacter, ih]
      rfl
  have hbytes : (value.zipIdx.map token).flatMap Token.bytes = encode value := by
    simp only [flatMap_map, token, bytes_tokenOf, encode]
    conv_rhs => rw [← zipIdx_map_fst 0 value, flatMap_map]
  rw [readValue, escapeDnValue, htokens]
  simp only [Option.bind_eq_bind, Option.bind_some, hbytes]
  rw [if_neg]
  · rfl
  · simp only [head?_map, getLast?_map, head?_zipIdx, getLast?_zipIdx, Option.map_eq_some_iff]
    rintro (⟨_, ⟨c, -, rfl⟩, h⟩ | ⟨_, ⟨c, -, rfl⟩, h⟩ | ⟨_, ⟨c, hc, rfl⟩, h⟩)
    · exact ((of_tokenOf_eq_plain h).1 rfl).2 rfl
    · exact ((of_tokenOf_eq_plain h).1 rfl).1 rfl
    · have hpos := length_pos_of_mem (mem_of_getLast? hc)
      exact (of_tokenOf_eq_plain h).2 (decide_eq_true (by omega)) rfl

/-- Whatever the value, it is read back as it was, and what follows is left. -/
theorem dn_value_read (value rest : List Char) : unescape (escapeDnValue value) = some (encode value) ∧
      ∀ fuel, readRdn (fuel + 1) ("cn=".toList ++ (escapeDnValue value ++ ',' :: rest)) =
        some ([("cn".toList, encode value)], rest) := by
  have halone := readValue_escapeDnValue value [] rfl
  rw [append_nil] at halone
  have hvalue := readValue_escapeDnValue value (',' :: rest) (by rw [tokens.eq_def]; rfl)
  refine ⟨?_, fun fuel => ?_⟩
  · rw [unescape, halone]
    rfl
  · rw [readRdn]
    simp [hvalue]

end Rustlavel.Ldap
