/-
  Percent escapes and query strings: `rustlavel-http/src/url.rs`.
-/

import Rustlavel.Lib.Text
import Rustlavel.Lib.Utf8

namespace Rustlavel.Http.Url

open Text List Utf8

variable (b : UInt8)

def hexDigit : Option Nat :=
  if 0x30 ≤ b.toNat ∧ b.toNat ≤ 0x39 then some (b.toNat - 0x30)
  else if 0x61 ≤ b.toNat ∧ b.toNat ≤ 0x66 then some (b.toNat - 0x61 + 10)
  else if 0x41 ≤ b.toNat ∧ b.toNat ≤ 0x46 then some (b.toNat - 0x41 + 10)
  else none

def hexPair (high low : UInt8) : Option UInt8 := do
  let h ← hexDigit high
  let l ← hexDigit low
  return UInt8.ofNat (h * 16 + l)

def plain : UInt8 := if b = 0x2b then 0x20 else b

def unescape : List UInt8 → List UInt8
  | b :: high :: low :: rest =>
    if b = 0x25 then
      match hexPair high low with
      | some byte => byte :: unescape rest
      | none => b :: unescape (high :: low :: rest)
    else plain b :: unescape (high :: low :: rest)
  -- no room for an escape
  | bs => bs.map plain

def decode (input : String) : String :=
  if '%' ∉ input.toList ∧ '+' ∉ input.toList then input
  else String.ofList (lossy (unescape (encode input.toList)))

/-- A key and its value, both decoded; a part without `=` is a key alone. -/
def parsePair (part : List Char) : String × String :=
  match splitOnce '=' part with
  | some (key, value) => (decode (String.ofList key), decode (String.ofList value))
  | none => (decode (String.ofList part), "")

def parseQuery (query : String) : List (String × String) :=
  ((query.toList.splitOn '&').filter fun part => !part.isEmpty).map parsePair

def splitTarget (target : String) : String × String :=
  match splitOnce '?' target.toList with
  | some (path, query) => (String.ofList path, String.ofList query)
  | none => (target, "")

/-! ## Escapes -/

def escapeAt : List UInt8 → Option UInt8
  | b :: high :: low :: _ => if b = 0x25 then hexPair high low else none
  | _ => none

variable {bs : List UInt8} {cs : List Char} (s : String)

theorem unescape_of_escape {byte : UInt8} (h : escapeAt bs = some byte) :
    unescape bs = byte :: unescape (bs.drop 3) := by
  unfold escapeAt at h
  split at h
  · rename_i b high low rest
    split at h
    · rename_i hb
      rw [unescape, if_pos hb, h]
      rfl
    · cases h
  · cases h

theorem unescape_of_plain {b : UInt8} (h : escapeAt (b :: bs) = none) :
    unescape (b :: bs) = plain b :: unescape bs := by
  match bs with
  | [] => rfl
  | [c] => rfl
  | high :: low :: rest =>
    rw [escapeAt] at h
    rw [unescape]
    split
    · rename_i hb
      rw [if_pos hb] at h
      rw [h, hb]
      rfl
    · rfl

/-- A byte that ends every escape before it and begins none. -/
def Separates (sep : UInt8) : Prop := hexDigit sep = none ∧ sep ≠ 0x25 ∧ sep ≠ 0x2b

instance (sep : UInt8) : Decidable (Separates sep) := inferInstanceAs (Decidable (_ ∧ _))

theorem escapeAt_separator {sep : UInt8} (hsep : Separates sep) : escapeAt (sep :: bs) = none := by
  match bs with
  | [] => rfl
  | [y] => rfl
  | y :: z :: bs => exact if_neg hsep.2.1

theorem escapeAt_append {sep : UInt8} (hsep : Separates sep) {a : List UInt8} (hne : a ≠ []) (b : List UInt8) :
    escapeAt (a ++ sep :: b) = escapeAt a := by
  have hlow : ∀ high, hexPair high sep = none := by
    intro high
    rw [hexPair, hsep.1]
    cases hexDigit high <;> rfl
  have hhigh : ∀ low, hexPair sep low = none := by
    intro low
    rw [hexPair, hsep.1]
    rfl
  match a with
  | [] => exact absurd rfl hne
  | [x] =>
    cases b with
    | nil => rfl
    | cons y =>
      change (if x = 0x25 then hexPair sep y else none) = none
      rw [hhigh, ite_self]
  | [x, y] =>
    change (if x = 0x25 then hexPair y sep else none) = none
    rw [hlow, ite_self]
  | x :: y :: z :: a => rfl

theorem unescape_append {sep : UInt8} (hsep : Separates sep) (a b : List UInt8) :
    unescape (a ++ sep :: b) = unescape a ++ sep :: unescape b := by
  induction hlength : a.length using Nat.strongRecOn generalizing a with
  | ind length ih =>
    cases a with
    | nil =>
      rw [nil_append, unescape_of_plain (escapeAt_separator hsep), plain, if_neg hsep.2.2]
      rfl
    | cons x a =>
      rw [length_cons] at hlength
      have hstay := escapeAt_append hsep (cons_ne_nil x a) b
      cases hescape : escapeAt (x :: a) with
      | none =>
        rw [hescape, cons_append] at hstay
        rw [cons_append, unescape_of_plain hstay, unescape_of_plain hescape,
          ih a.length (by omega) a rfl, cons_append]
      | some =>
        have hlong : 3 ≤ (x :: a).length := by
          match a with
          | [] => cases hescape
          | [y] => cases hescape
          | y :: z :: a =>
            simp only [length_cons]
            omega
        rw [hescape] at hstay
        rw [unescape_of_escape hstay, unescape_of_escape hescape, drop_append_of_le_length hlong,
          ih _ (by rw [length_drop, length_cons]; omega) ((x :: a).drop 3) rfl, cons_append]

def decodeChars (cs : List Char) : List Char := lossy (unescape (encode cs))

def escapeFree : List UInt8 → Bool
  | [] => true
  | b :: bs => (escapeAt (b :: bs)).isNone && b != 0x2b && escapeFree bs

theorem unescape_of_escapeFree (h : escapeFree bs = true) : unescape bs = bs := by
  induction bs with
  | nil => rfl
  | cons b bs ih =>
    rw [escapeFree, Bool.and_eq_true, Bool.and_eq_true, Option.isNone_iff_eq_none, bne_iff_ne] at h
    obtain ⟨⟨hnone, hplus⟩, hrest⟩ := h
    rw [unescape_of_plain hnone, ih hrest, plain, if_neg hplus]

theorem escapeFree_of_not_mem (hpercent : 0x25 ∉ bs) (hplus : 0x2b ∉ bs) : escapeFree bs = true := by
  induction bs with
  | nil => rfl
  | cons b bs ih =>
    have hb : b ≠ 0x25 := fun heq => hpercent (heq ▸ mem_cons_self ..)
    have hb' : b ≠ 0x2b := fun heq => hplus (heq ▸ mem_cons_self ..)
    have hnone : escapeAt (b :: bs) = none := by
      match bs with
      | [] => rfl
      | [y] => rfl
      | y :: z :: bs => exact if_neg hb
    have hrest := ih (fun hmem => hpercent (mem_cons_of_mem b hmem)) fun hmem => hplus (mem_cons_of_mem b hmem)
    rw [escapeFree, hnone, hrest]
    simpa using hb'

/-- The percent signs of a text and its bytes `x`. -/
def weight (x : UInt8) (bs : List UInt8) : Nat := bs.count 0x25 + bs.count x

theorem weight_cons (x b : UInt8) : weight x (b :: bs) = weight x [b] + weight x bs := by
  simp only [weight, count_cons, count_nil]
  omega

theorem weight_singleton_le {x : UInt8} (hx : x ≠ 0x25) (b : UInt8) : weight x [b] ≤ 1 := by
  simp only [weight, count_cons, count_nil, beq_iff_eq]
  split
  · rename_i hb
    rw [if_neg (by rw [hb]; exact Ne.symm hx)]
  · split <;> omega

theorem unescape_digit {b : UInt8} (h : hexDigit b ≠ none) : unescape (b :: bs) = b :: unescape bs := by
  have hpercent : b ≠ 0x25 := by
    rintro rfl
    exact h rfl
  have hplus : b ≠ 0x2b := by
    rintro rfl
    exact h rfl
  have hescape : escapeAt (b :: bs) = none := by
    unfold escapeAt
    split
    · rename_i heq
      cases heq
      exact if_neg hpercent
    · rfl
  rw [unescape_of_plain hescape, plain, if_neg hplus]

theorem escapeAt_eq_some {b byte : UInt8} (h : escapeAt (b :: bs) = some byte) :
    b = 0x25 ∧ ∃ high low rest, bs = high :: low :: rest ∧ hexDigit high ≠ none ∧ hexDigit low ≠ none := by
  match bs with
  | [] => cases h
  | [y] => cases h
  | high :: low :: rest =>
    rw [escapeAt] at h
    split at h
    · rename_i hb
      refine ⟨hb, high, low, rest, rfl, ?_, ?_⟩
      · intro hnone
        rw [hexPair, hnone] at h
        cases h
      · intro hnone
        rw [hexPair, hnone] at h
        cases hhigh : hexDigit high <;> rw [hhigh] at h <;> cases h
    · cases h

/-- An escape takes a percent sign away for at most one percent sign or one `x`, also one that begins in `a` and
    ends in `b`. -/
theorem weight_unescape {x : UInt8} (hpercent : x ≠ 0x25) (hspace : x ≠ 0x20) (a b : List UInt8) :
    weight x (unescape (a ++ b)) ≤ weight x a + weight x (unescape b) := by
  induction hlength : a.length using Nat.strongRecOn generalizing a with
  | ind length ih =>
    cases a with
    | nil => exact Nat.le_add_left _ _
    | cons c a =>
      rw [length_cons] at hlength
      rw [cons_append, weight_cons x c]
      cases hescape : escapeAt (c :: (a ++ b)) with
      | none =>
        have hrest := ih a.length (by omega) a rfl
        have hplain : weight x [plain c] ≤ weight x [c] := by
          rw [plain]
          split
          · simp [weight, Ne.symm hspace]
          · exact Nat.le_refl _
        rw [unescape_of_plain hescape, weight_cons]
        omega
      | some byte =>
        obtain ⟨hc, high, low, rest, hab, hhigh, hlow⟩ := escapeAt_eq_some hescape
        have hbyte := weight_singleton_le hpercent byte
        have hone : 1 ≤ weight x [c] := by simp [weight, hc]
        rw [unescape_of_escape hescape, weight_cons, hab]
        simp only [drop_succ_cons, drop_zero]
        -- the escape ends before `b`, or `b` has its last digit, or both
        match a with
        | [] =>
          rw [nil_append] at hab
          rw [hab, unescape_digit hhigh, unescape_digit hlow, weight_cons x high, weight_cons x low]
          omega
        | [y] =>
          obtain ⟨-, hb⟩ := cons.inj hab
          replace hb : b = low :: rest := hb
          rw [hb, unescape_digit hlow, weight_cons x low]
          omega
        | y :: z :: a =>
          have hrest := ih a.length (by simp only [length_cons] at hlength; omega) a rfl
          obtain ⟨-, htail⟩ := cons.inj hab
          replace htail : a ++ b = rest := (cons.inj htail).2
          rw [← htail, weight_cons x y, weight_cons x z]
          omega

/-! ## Texts -/

theorem decodeChars_of_escapeFree (h : escapeFree (encode cs) = true) : decodeChars cs = cs := by
  rw [decodeChars, unescape_of_escapeFree h, lossy_encode]

theorem decodeChars_of_not_mem (hpercent : '%' ∉ cs) (hplus : '+' ∉ cs) : decodeChars cs = cs := by
  refine decodeChars_of_escapeFree (escapeFree_of_not_mem ?_ ?_)
  · exact fun hmem => hpercent (mem_of_mem_encode (by decide) hmem)
  · exact fun hmem => hplus (mem_of_mem_encode (by decide) hmem)

theorem decode_eq : decode s = String.ofList (decodeChars s.toList) := by
  rw [decode]
  split
  · rename_i h
    rw [decodeChars_of_not_mem h.1 h.2, String.ofList_toList]
  · rfl

/-- The characters between the parts of a target. -/
def separators : List Char := ['/', '?', '&', '=']

theorem count_decodeChars {x : Char} (hx : x ∈ separators) (a b : List Char) :
    (decodeChars (a ++ b)).count '%' + (decodeChars (a ++ b)).count x ≤
      a.count '%' + a.count x + ((decodeChars b).count '%' + (decodeChars b).count x) := by
  have hbyte : ∀ x ∈ separators, x.toNat < 0x80 ∧ UInt8.ofNat x.toNat ≠ 0x25 ∧ UInt8.ofNat x.toNat ≠ 0x20 := by
    rw [separators]
    simp only [forall_mem_cons]
    exact ⟨by decide, by decide, by decide, by decide, nofun⟩
  obtain ⟨hlow, hpercent, hspace⟩ := hbyte x hx
  have hbytes := weight_unescape hpercent hspace (encode a) (encode b)
  rw [← encode_append] at hbytes
  have hascii : '%'.toNat < 0x80 := by decide
  rw [decodeChars, decodeChars, count_lossy hascii, count_lossy hlow, count_lossy hascii, count_lossy hlow,
    ← count_encode hascii a, ← count_encode hlow a]
  exact hbytes

theorem decodeChars_append {sep : Char} (hsep : sep ∈ separators) (a b : List Char) :
    decodeChars (a ++ sep :: b) = decodeChars a ++ sep :: decodeChars b := by
  have hbyte : ∀ sep ∈ separators, String.utf8EncodeChar sep = [UInt8.ofNat sep.toNat] ∧ sep.toNat < 0x80 ∧
      Separates (UInt8.ofNat sep.toNat) := by
    rw [separators]
    simp only [forall_mem_cons]
    exact ⟨by decide, by decide, by decide, by decide, nofun⟩
  obtain ⟨hone, hlow, hseparates⟩ := hbyte sep hsep
  have hbytes : encode (a ++ sep :: b) = encode a ++ UInt8.ofNat sep.toNat :: encode b := by
    rw [encode, flatMap_append, flatMap_cons, hone]
    rfl
  have happend := lossy_append_ascii hlow (unescape (encode a)) (unescape (encode b))
  rw [decodeChars, hbytes, unescape_append hseparates, decodeChars, decodeChars, ← happend, hone]
  simp only [append_assoc]
  rfl

/-! ## Escaping -/

def unreserved : Bool :=
  (0x41 ≤ b.toNat && b.toNat ≤ 0x5a) || (0x61 ≤ b.toNat && b.toNat ≤ 0x7a) || (0x30 ≤ b.toNat && b.toNat ≤ 0x39) ||
    b == 0x2d || b == 0x5f || b == 0x2e || b == 0x7e

def upperHex (n : Nat) : Char := Char.ofNat (if n < 10 then 48 + n else 55 + n)

def escapeByte : List Char :=
  if unreserved b then [Char.ofNat b.toNat] else ['%', upperHex (b.toNat / 16), upperHex (b.toNat % 16)]

def encode (input : String) : String := String.ofList ((Utf8.encode input.toList).flatMap escapeByte)

/-- A byte stands for itself or is escaped; neither is read as something between parts. -/
def EscapedAs (text : List Char) : Prop :=
  (Utf8.encode text = [b] ∧ b ≠ 0x25 ∧ b ≠ 0x2b ∨ escapeAt (Utf8.encode text) = some b ∧
    (Utf8.encode text).length = 3) ∧
    ∀ c ∈ ['&', '=', '/', '?'], c ∉ text

-- The characters are the four of the list: an instance that goes through all of `Char` cannot be evaluated.
instance (b : UInt8) (text : List Char) : Decidable (EscapedAs b text) :=
  @instDecidableAnd _ _ inferInstance (decidableBAll _ _)

theorem escapeByte_spec : ∀ b, EscapedAs b (escapeByte b) := Utf8.forall_byte (by decide +kernel)

theorem unescape_escape (bs : List UInt8) : unescape (Utf8.encode (bs.flatMap escapeByte)) = bs := by
  induction bs with
  | nil => rfl
  | cons b bs ih =>
    rw [flatMap_cons, Utf8.encode_append]
    rcases (escapeByte_spec b).1 with ⟨hplain, hpercent, hplus⟩ | ⟨hescape, hlength⟩
    · rw [hplain, singleton_append, unescape_of_plain, ih, plain, if_neg hplus]
      match Utf8.encode (bs.flatMap escapeByte) with
      | [] | [_] => rfl
      | _ :: _ :: _ => exact if_neg hpercent
    · match hbytes : Utf8.encode (escapeByte b) with
      | [x, y, z] =>
        rw [hbytes] at hescape
        have hfront : escapeAt ([x, y, z] ++ Utf8.encode (bs.flatMap escapeByte)) = some b := hescape
        rw [unescape_of_escape hfront]
        exact congrArg (b :: ·) ih
      | [] | [_] | [_, _] | _ :: _ :: _ :: _ :: _ => simp [hbytes] at hlength

theorem decode_encode : decode (encode s) = s := by
  rw [decode_eq, encode, String.toList_ofList, decodeChars, unescape_escape, lossy_encode, String.ofList_toList]

theorem not_mem_encode {c : Char} (hc : c ∈ ['&', '=', '/', '?']) : c ∉ (encode s).toList := by
  rw [encode, String.toList_ofList]
  intro hmem
  obtain ⟨b, -, hb⟩ := mem_flatMap.mp hmem
  exact (escapeByte_spec b).2 c hc hb

/-! ## Texts of a query -/

def part (pair : String × String) : List Char := (encode pair.1).toList ++ '=' :: (encode pair.2).toList

variable (pairs : List (String × String))

def queryText : List Char := ['&'].intercalate (pairs.map part)

theorem parseQuery_queryText : parseQuery (String.ofList (queryText pairs)) = pairs := by
  have hpart : ∀ pair, parsePair (part pair) = pair := by
    intro pair
    rw [parsePair, part, splitOnce_append (not_mem_encode pair.1 (by decide))]
    simp only [String.ofList_toList, decode_encode]
  rw [parseQuery, String.toList_ofList, queryText]
  cases pairs with
  | nil => rfl
  | cons =>
    rw [splitOn_intercalate '&' ?_ (by simp), filter_eq_self.mpr, map_map]
    · simp [Function.comp_def, hpart]
    · intro text htext
      obtain ⟨p, -, rfl⟩ := mem_map.mp htext
      simp [part]
    · intro text htext
      obtain ⟨p, -, rfl⟩ := mem_map.mp htext
      simp [part, not_mem_encode p.1 (c := '&') (by decide), not_mem_encode p.2 (c := '&') (by decide)]

/-- A text of unreserved characters and escapes. -/
def Escaped (text : List Char) : Prop :=
  ∃ pieces : List (List Char), text = pieces.flatten ∧ ∀ piece ∈ pieces,
    (∃ b, unreserved b ∧ piece = [Char.ofNat b.toNat]) ∨
    ∃ high < 16, ∃ low < 16, piece = ['%', upperHex high, upperHex low]

theorem escaped_encode : Escaped (encode s).toList := by
  refine ⟨(Utf8.encode s.toList).map escapeByte, by rw [encode, String.toList_ofList, flatMap_def],
    fun piece hpiece => ?_⟩
  obtain ⟨b, -, rfl⟩ := mem_map.mp hpiece
  rw [escapeByte]
  split
  · exact .inl ⟨b, ‹_›, rfl⟩
  · exact .inr ⟨_, by have := b.toNat_lt; omega, _, Nat.mod_lt _ (by decide), rfl⟩

end Rustlavel.Http.Url
