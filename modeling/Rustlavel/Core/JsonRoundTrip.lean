/-
  What the parser makes of a written text.
-/

import Rustlavel.Core.JsonParser
import Rustlavel.Core.JsonText

namespace Rustlavel.Json

open Float64 Outcome Utf8 Text List Option

/-! ## Values and their numbers -/

section

variable {N M : Type}

mutual

def Ordered : Json N → Prop
  | .array items => OrderedItems items
  | .object fields => (fields.map Prod.fst).Pairwise (· < ·) ∧ OrderedFields fields
  | _ => True

def OrderedItems : List (Json N) → Prop
  | [] => True
  | item :: items => Ordered item ∧ OrderedItems items

def OrderedFields : List (String × Json N) → Prop
  | [] => True
  | (_, value) :: fields => Ordered value ∧ OrderedFields fields

end

mutual

def AllNumbers (p : N → Prop) : Json N → Prop
  | .number x => p x
  | .array items => AllNumbersItems p items
  | .object fields => AllNumbersFields p fields
  | _ => True

def AllNumbersItems (p : N → Prop) : List (Json N) → Prop
  | [] => True
  | item :: items => AllNumbers p item ∧ AllNumbersItems p items

def AllNumbersFields (p : N → Prop) : List (String × Json N) → Prop
  | [] => True
  | (_, value) :: fields => AllNumbers p value ∧ AllNumbersFields p fields

end

mutual

def mapNumbers (f : N → M) : Json N → Json M
  | .null => .null
  | .bool b => .bool b
  | .number x => .number (f x)
  | .string s => .string s
  | .array items => .array (mapItems f items)
  | .object fields => .object (mapFields f fields)

def mapItems (f : N → M) : List (Json N) → List (Json M)
  | [] => []
  | item :: items => mapNumbers f item :: mapItems f items

def mapFields (f : N → M) : List (String × Json N) → List (String × Json M)
  | [] => []
  | (key, value) :: fields => (key, mapNumbers f value) :: mapFields f fields

end

mutual

/-- Equality of values, with the numbers compared by `same`. -/
def eq (same : N → N → Bool) : Json N → Json N → Bool
  | .null, .null => true
  | .bool b, .bool b' => b == b'
  | .number x, .number y => same x y
  | .string s, .string t => s == t
  | .array items, .array items' => eqItems same items items'
  | .object fields, .object fields' => eqFields same fields fields'
  | _, _ => false

def eqItems (same : N → N → Bool) : List (Json N) → List (Json N) → Bool
  | [], [] => true
  | item :: items, item' :: items' => eq same item item' && eqItems same items items'
  | _, _ => false

def eqFields (same : N → N → Bool) : List (String × Json N) → List (String × Json N) → Bool
  | [], [] => true
  | (key, value) :: fields, (key', value') :: fields' =>
    key == key' && eq same value value' && eqFields same fields fields'
  | _, _ => false

end

section

variable {p : N → Prop} {f : N → N} {same : N → N → Bool}

mutual

theorem eq_mapNumbers (h : ∀ x, p x → same (f x) x = true) :
    ∀ v : Json N, v.AllNumbers p → (v.mapNumbers f).eq same v = true
  | .null, _ => rfl
  | .bool b, _ => by rw [mapNumbers, eq, beq_self_eq_true]
  | .number x, hv => h x hv
  | .string s, _ => by rw [mapNumbers, eq, beq_self_eq_true]
  | .array items, hv => eqItems_mapItems h items hv
  | .object fields, hv => eqFields_mapFields h fields hv

theorem eqItems_mapItems (h : ∀ x, p x → same (f x) x = true) :
    ∀ items : List (Json N), AllNumbersItems p items → eqItems same (mapItems f items) items = true
  | [], _ => rfl
  | item :: items, hv => by
    rw [mapItems, eqItems, eq_mapNumbers h item hv.1, eqItems_mapItems h items hv.2, Bool.and_self]

theorem eqFields_mapFields (h : ∀ x, p x → same (f x) x = true) :
    ∀ fields : List (String × Json N), AllNumbersFields p fields → eqFields same (mapFields f fields) fields = true
  | [], _ => rfl
  | (key, value) :: fields, hv => by
    rw [mapFields, eqFields, eq_mapNumbers h value hv.1, eqFields_mapFields h fields hv.2, beq_self_eq_true]
    rfl

end

end

theorem insertField_of_lt {key : String} {fields : List (String × Json N)} (h : ∀ field ∈ fields, field.1 < key)
    (value : Json N) : insertField key value fields = fields ++ [(key, value)] := by
  induction fields with
  | nil => rfl
  | cons field fields ih =>
    have hlt : field.1 < key := h field mem_cons_self
    rw [insertField, if_neg (Ne.symm (ne_of_lt hlt)), if_neg (not_lt_of_gt hlt),
      ih fun field hfield => h field (mem_cons_of_mem _ hfield), cons_append]

end

variable (s : String)

namespace Parser

/-! ## Strings -/

theorem hex4_append {ds : List Char} {code : Nat} (hlength : (encode ds).length = 4)
    (hcode : parseUnsigned 16 (2 ^ 32) ds = some code) (rest : List UInt8) :
    hex4 (encode ds ++ rest) = .ok (code, rest) := by
  have hlong : ¬ (encode ds ++ rest).length < 4 := by
    rw [length_append]
    omega
  have htake : (encode ds ++ rest).take 4 = encode ds := hlength ▸ take_left
  have hdrop : (encode ds ++ rest).drop 4 = rest := hlength ▸ drop_left
  rw [hex4, if_neg hlong, htake, hdrop, fromUtf8_encode, bind_some, hcode]

variable {c : Char} {b : UInt8} {rest : List UInt8} {x : F64} {v : Json F64} (bs : List UInt8)

theorem escapeChar_spelling : ∀ c ∈ special,
    escapeChar c = ['\\', (escapeChar c).getD 1 c] ∧ ((escapeChar c).getD 1 c).toNat < 0x80 ∧
      shortEscapes.lookup (ascii ((escapeChar c).getD 1 c)) = some c ∨
    escapeChar c = '\\' :: 'u' :: (escapeChar c).drop 2 ∧ (encode ((escapeChar c).drop 2)).length = 4 ∧
      parseUnsigned 16 (2 ^ 32) ((escapeChar c).drop 2) = some c.toNat ∧ c.toNat < 0xd800 := forall_special (by decide)

theorem escapeSequence_of_special (h : c ∈ special) : ∃ spelling, encode (escapeChar c) = ascii '\\' :: spelling ∧
      ∀ rest, escapeSequence (spelling ++ rest) = .ok (c, rest) := by
  rcases escapeChar_spelling c h with ⟨hescape, hlow, hlookup⟩ | ⟨hescape, hlength, hcode, hlow⟩
  · generalize (escapeChar c).getD 1 c = e at hescape hlow hlookup
    refine ⟨[ascii e], ?_, fun rest => ?_⟩
    · rw [hescape, encode_ascii (by decide), encode_ascii hlow, encode_nil]
    · rw [singleton_append, escapeSequence, hlookup]
  · generalize (escapeChar c).drop 2 = ds at hescape hlength hcode
    refine ⟨ascii 'u' :: encode ds, ?_, fun rest => ?_⟩
    · rw [hescape, encode_ascii (by decide), encode_ascii (by decide)]
    · have hnone : shortEscapes.lookup (ascii 'u') = none := by decide
      have hvalid : c.toNat.isValidChar := c.valid
      rw [cons_append, escapeSequence, hnone]
      simp only [if_true]
      rw [unicodeEscape, hex4_append hlength hcode, ok_bind]
      simp only
      rw [if_neg (by omega), charFromU32, if_pos hvalid, Char.ofNat_toNat]

theorem isPlain_of_mem {cs : List Char} (h : ∀ c ∈ cs, c ∉ special) (hb : b ∈ encode cs) : isPlain b = true := by
  by_contra hplain
  have hquote : b = ascii '"' ∨ b = ascii '\\' := by
    simpa [isPlain, Decidable.not_and_iff_or_not, Decidable.or_iff_not_imp_left] using hplain
  rcases hquote with rfl | rfl
  · exact h '"' (mem_of_mem_encode (by decide) hb) (by decide)
  · exact h '\\' (mem_of_mem_encode (by decide) hb) (by decide)

theorem stringLoop_run {run : List Char} (hrun : ∀ c ∈ run, c ∉ special) (hb : isPlain b = false)
    {fuel n : Nat} (hfuel : (encode run).length + n < fuel) (out : List Char) (bs : List UInt8) :
    ∃ left, n < left ∧ stringLoop fuel out (encode run ++ b :: bs) = stringLoop left (out ++ run) (b :: bs) := by
  cases hencode : encode run with
  | nil =>
    have hnil : run = [] := by
      have hdecode := fromUtf8_encode run
      rw [hencode] at hdecode
      exact (some.inj hdecode).symm
    refine ⟨fuel, by omega, ?_⟩
    rw [hnil, append_nil, nil_append]
  | cons first tail =>
    obtain ⟨fuel, rfl⟩ : ∃ f, fuel = f + 1 := ⟨fuel - 1, by omega⟩
    have hall : ∀ x ∈ first :: tail, isPlain x = true := fun x hx => isPlain_of_mem hrun (hencode ▸ hx)
    have hfirst := hall first mem_cons_self
    have hne : first ≠ ascii '"' ∧ first ≠ ascii '\\' := by simpa [isPlain] using hfirst
    have htake : ((first :: tail) ++ b :: bs).takeWhile isPlain = encode run := by
      rw [takeWhile_append_of_pos hall, takeWhile_cons_of_neg (by simp [hb]), append_nil, hencode]
    have hdrop : ((first :: tail) ++ b :: bs).dropWhile isPlain = b :: bs := by
      rw [dropWhile_append_of_pos hall, dropWhile_cons_of_neg (by simp [hb])]
    refine ⟨fuel, ?_, ?_⟩
    · rw [hencode, length_cons] at hfuel
      omega
    · rw [cons_append] at htake hdrop ⊢
      rw [stringLoop, if_neg hne.1, if_neg hne.2]
      simp only [htake, hdrop, fromUtf8_encode]

theorem stringLoop_escaped (cs run : List Char) (hrun : ∀ c ∈ run, c ∉ special) (fuel : Nat)
    (hfuel : (encode run).length + (encode (cs.flatMap escapeChar)).length < fuel) (out : List Char)
    (rest : List UInt8) : stringLoop fuel out (encode run ++ (encode (cs.flatMap escapeChar) ++ ascii '"' :: rest)) =
      .ok (out ++ run ++ cs, rest) := by
  induction cs generalizing run fuel out with
  | nil =>
    obtain ⟨left, hleft, hcopy⟩ := stringLoop_run hrun (b := ascii '"') (by decide) hfuel out rest
    obtain ⟨left, rfl⟩ : ∃ f, left = f + 1 := ⟨left - 1, by omega⟩
    rw [flatMap_nil, encode_nil, nil_append, hcopy, stringLoop, if_pos rfl, append_nil]
  | cons c cs ih =>
    rw [flatMap_cons, encode_append] at hfuel ⊢
    by_cases hc : c ∈ special
    · -- the run ends before the escape
      obtain ⟨spelling, hescape, hread⟩ := escapeSequence_of_special hc
      rw [hescape, cons_append, length_cons, length_append] at hfuel
      obtain ⟨left, _, hcopy⟩ := stringLoop_run hrun (b := ascii '\\') (by decide) hfuel out
        (spelling ++ (encode (cs.flatMap escapeChar) ++ ascii '"' :: rest))
      obtain ⟨left, rfl⟩ : ∃ f, left = f + 1 := ⟨left - 1, by omega⟩
      have hnext := ih [] (by simp) left (by rw [encode_nil, length_nil]; omega) (out ++ run ++ [c])
      rw [encode_nil, nil_append, append_nil] at hnext
      rw [hescape, append_assoc, cons_append, hcopy, stringLoop, if_neg (by decide), if_pos rfl, hread, ok_bind]
      simp only
      rw [hnext, append_assoc (out ++ run), singleton_append]
    · -- the run goes on
      have hself := (escapeChar_eq_self hc).1
      have hrun' : ∀ d ∈ run ++ [c], d ∉ special := by
        intro d hd
        rcases mem_append.mp hd with hd | hd
        · exact hrun d hd
        · rw [mem_singleton.mp hd]
          exact hc
      rw [hself, length_append] at hfuel
      have hnext := ih (run ++ [c]) hrun' fuel (by rw [encode_append, length_append]; omega) out
      rw [hself, append_assoc, ← append_assoc (encode run), ← encode_append, hnext]
      simp only [append_assoc, singleton_append]

theorem string_escape (rest : List UInt8) : string (encode (escape s) ++ rest) = .ok (s, rest) := by
  have hbytes : encode (escape s) ++ rest =
      ascii '"' :: (encode (s.toList.flatMap escapeChar) ++ ascii '"' :: rest) := by
    rw [escape, encode_append, encode_ascii (by decide), encode_ascii (by decide), encode_nil]
    simp
  have hloop := stringLoop_escaped s.toList [] (by simp)
    ((encode (s.toList.flatMap escapeChar) ++ ascii '"' :: rest).length + 1)
    (by rw [encode_nil, length_nil, length_append]; omega) [] rest
  rw [encode_nil, nil_append, append_nil, nil_append] at hloop
  rw [hbytes, string, expect, List.head?_cons, if_pos rfl, ok_bind, tail_cons, hloop, ok_bind]
  simp only [String.ofList_toList]

/-! ## Numbers -/

def Ends : Prop := ∀ b ∈ bs.head?, isNumberByte b = false

theorem ends_nil : Ends [] := by simp [Ends]

theorem ends_cons (h : isNumberByte b = false) (bs : List UInt8) : Ends (b :: bs) := by simpa [Ends] using h

theorem begins_number : ∀ b, (b = ascii '-' || isDigitByte b) = true → isNumberByte b = true ∧ isSpace b = false ∧
    b ∉ [ascii ']', ascii 'n', ascii 't', ascii 'f', ascii '"', ascii '[', ascii '\x7b'] :=
  forall_byte (by decide +kernel)

theorem encode_toDigits (n : Nat) :
    ∃ b bs, encode (Nat.toDigits 10 n) = b :: bs ∧ ∀ x ∈ encode (Nat.toDigits 10 n), isDigitByte x = true := by
  have hdigits : ∀ x ∈ encode (Nat.toDigits 10 n), isDigitByte x = true := by
    intro b hb
    obtain ⟨c, hc, hmem⟩ := mem_flatMap.mp hb
    have hdigit : c.isDigit = true := Nat.isDigit_of_mem_toDigits (by decide) (by decide) hc
    have hrange : 0x30 ≤ c.toNat ∧ c.toNat ≤ 0x39 := by
      simp [Char.isDigit, UInt32.le_iff_toNat_le] at hdigit
      exact hdigit
    rw [encode_one (by omega) (toNat_ascii (by omega)), mem_singleton] at hmem
    rw [hmem, isDigitByte, toNat_ascii (by omega)]
    simp [hrange]
  cases hds : encode (Nat.toDigits 10 n) with
  | nil =>
    have hdecode := fromUtf8_encode (Nat.toDigits 10 n)
    rw [hds] at hdecode
    exact absurd (some.inj hdecode).symm Nat.toDigits_ne_nil
  | cons b bs => exact ⟨b, bs, rfl, hds ▸ hdigits⟩

theorem takeWhile_append_of_ends {bs : List UInt8} (hbs : ∀ b ∈ bs, isNumberByte b = true) (hrest : Ends rest) :
    (bs ++ rest).takeWhile isNumberByte = bs := by
  rw [takeWhile_append_of_pos hbs]
  cases rest with
  | nil => simp
  | cons b =>
    have hb := hrest b rfl
    rw [takeWhile_cons_of_neg (by simp [hb]), append_nil]

theorem number_integerText (i : Int) (h : Float64.parse (integerText i) = some x)
    (hrest : Ends rest) : number (encode (integerText i) ++ rest) = .ok (.number x, rest) := by
  obtain ⟨first, _, hds, hdigits⟩ := encode_toDigits i.natAbs
  have hnumber : ∀ b ∈ encode (Nat.toDigits 10 i.natAbs), isNumberByte b = true := fun b hb =>
    (begins_number b (by simp [hdigits b hb])).1
  have htake := takeWhile_append_of_ends hnumber hrest
  obtain ⟨sign, hsign, hlength⟩ : ∃ sign, sign = (if (encode (integerText i) ++ rest).head? = some (ascii '-')
      then 1 else 0) ∧ sign + (((encode (integerText i) ++ rest).drop sign).takeWhile isNumberByte).length =
        (encode (integerText i)).length := by
    refine ⟨_, rfl, ?_⟩
    by_cases hneg : i < 0
    · rw [integerText, if_pos hneg, singleton_append, encode_ascii (by decide), cons_append,
        List.head?_cons, if_pos rfl, drop_succ_cons, drop_zero, htake, length_cons, Nat.add_comm]
    · have hfirst : first ≠ ascii '-' := by
        rintro rfl
        exact absurd (hdigits _ (hds ▸ mem_cons_self)) (by decide)
      have hhead : (encode (Nat.toDigits 10 i.natAbs) ++ rest).head? ≠ some (ascii '-') := by
        rw [hds, cons_append, List.head?_cons]
        exact fun heq => hfirst (some.inj heq)
      rw [integerText, if_neg hneg, nil_append, if_neg hhead, drop_zero, htake, Nat.zero_add]
  rw [number, ← hsign]
  simp only [hlength, take_left, drop_left, fromUtf8_encode, bind_some, h]

/-! ## Layout -/

variable (indent : Option Nat) (depth : Nat) (items : List (Json F64))

theorem skipWhitespace_newline : skipWhitespace (encode (newline indent depth) ++ bs) = skipWhitespace bs := by
  have hspace : ∀ b ∈ encode (newline indent depth), isSpace b = true := by
    intro b hb
    obtain ⟨c, hc, hmem⟩ := mem_flatMap.mp hb
    have hchar : c = '\n' ∨ c = ' ' := by
      cases indent with
      | none => exact absurd hc not_mem_nil
      | some =>
        rcases mem_cons.mp hc with rfl | hc
        · exact .inl rfl
        · exact .inr (mem_replicate.mp hc).2
    rcases hchar with rfl | rfl
    · rw [mem_singleton.mp hmem]
      rfl
    · rw [mem_singleton.mp hmem]
      rfl
  exact dropWhile_append_of_pos hspace

theorem skipWhitespace_cons (h : isSpace b = false) (bs : List UInt8) :
    skipWhitespace (b :: bs) = b :: bs := dropWhile_cons_of_neg (by simp [h])

theorem skipWhitespace_comma (text : List Char) (rest : List UInt8) :
    skipWhitespace (encode (',' :: text) ++ rest) = ascii ',' :: (encode text ++ rest) := by
  rw [encode_ascii (by decide)]
  exact skipWhitespace_cons (by decide) _

def SmallInteger (x : F64) : Prop := ∃ i, x.whole = some i ∧ i.natAbs < 10 ^ 15

theorem numberText_of_small (h : SmallInteger x) :
    ∃ i : Int, i.natAbs < 10 ^ 15 ∧ x.whole = some i ∧ numberText x = integerText i := by
  obtain ⟨i, hwhole, hsmall⟩ := h
  have hintegral : integral x = some i := filter_eq_some_iff.mpr ⟨hwhole, by simpa using hsmall⟩
  refine ⟨i, hsmall, hwhole, ?_⟩
  rw [numberText, hintegral]
  rw [F64.whole] at hwhole
  cases hvalue : x.value with
  | finite => rfl
  | infinite | nan =>
    rw [hvalue] at hwhole
    cases hwhole

def reread (x : F64) : F64 := (Float64.parse (numberText x)).getD x

theorem parse_numberText (h : SmallInteger x) :
    Float64.parse (numberText x) = some (reread x) ∧ (reread x).eq x = true := by
  obtain ⟨i, hsmall, hwhole, htext⟩ := numberText_of_small h
  obtain ⟨y, hparse, hy⟩ := parse_integerText (i := i) (Nat.lt_trans hsmall (by decide))
  have hread : reread x = y := by rw [reread, htext, hparse, getD_some]
  rw [hread, htext]
  exact ⟨hparse, eq_of_whole hy hwhole⟩

theorem head_integerText (i : Int) :
    ∃ b bs, encode (integerText i) = b :: bs ∧ (b = ascii '-' || isDigitByte b) = true := by
  obtain ⟨first, tail, hds, hdigits⟩ := encode_toDigits i.natAbs
  by_cases hneg : i < 0
  · rw [integerText, if_pos hneg, singleton_append, encode_ascii (by decide)]
    exact ⟨_, _, rfl, rfl⟩
  · rw [integerText, if_neg hneg, nil_append]
    refine ⟨first, tail, hds, ?_⟩
    rw [hdigits first (hds ▸ mem_cons_self), Bool.or_true]

theorem head_layout (h : v.AllNumbers SmallInteger) :
    ∃ b bs, encode (layout indent depth v) = b :: bs ∧ isSpace b = false ∧ b ≠ ascii ']' := by
  cases v with
  | null | string => exact ⟨_, _, rfl, by decide, by decide⟩
  | bool b =>
    cases b with
    | false | true => exact ⟨_, _, rfl, by decide, by decide⟩
  | number =>
    obtain ⟨i, -, -, htext⟩ := numberText_of_small h
    obtain ⟨b, bs, hbytes, hb⟩ := head_integerText i
    obtain ⟨-, hspace, hother⟩ := begins_number b hb
    rw [layout, htext]
    exact ⟨b, bs, hbytes, hspace, fun heq => hother (heq ▸ mem_cons_self)⟩
  | array parts | object parts =>
    cases parts with
    | nil | cons => exact ⟨_, _, rfl, by decide, by decide⟩

/-! ## Values -/

theorem literal_append (word : String) (v : Json F64) (rest : List UInt8) :
    literal word v (encode word.toList ++ rest) = .ok (v, rest) := by
  have hbegins : (encode word.toList).isPrefixOf (encode word.toList ++ rest) = true :=
    isPrefixOf_iff_prefix.mpr (prefix_append _ _)
  rw [literal, if_pos hbegins, drop_left]

theorem value_number (h : (b = ascii '-' || isDigitByte b) = true) (fuel : Nat) (bs : List UInt8) :
    value (fuel + 1) (b :: bs) = number (b :: bs) := by
  obtain ⟨-, -, hother⟩ := begins_number b h
  simp only [mem_cons, not_mem_nil, or_false, not_or] at hother
  obtain ⟨-, hn, ht, hf, hquote, hbracket, hbrace⟩ := hother
  rw [value, if_neg hn, if_neg ht, if_neg hf, if_neg hquote, if_neg hbracket, if_neg hbrace, if_pos h]

theorem ends_newline (h : isNumberByte b = false) (bs : List UInt8) :
    Ends (encode (newline indent depth) ++ b :: bs) := by
  cases indent with
  | none => exact ends_cons h bs
  | some =>
    exact ends_cons (by decide) _

theorem skipWhitespace_idem : skipWhitespace (skipWhitespace bs) = skipWhitespace bs :=
  dropWhile_idempotent isSpace bs

theorem skipWhitespace_layout (h : v.AllNumbers SmallInteger) (bs : List UInt8) :
    skipWhitespace (encode (layout indent depth v) ++ bs) = encode (layout indent depth v) ++ bs := by
  obtain ⟨_, _, hbytes, hspace, -⟩ := head_layout indent depth h
  rw [hbytes, cons_append, skipWhitespace_cons hspace]

def itemsText : List Char :=
  layoutItems indent depth true items ++ newline indent depth ++ [']']

def itemsRest : List Char :=
  layoutItems indent depth false items ++ newline indent depth ++ [']']

theorem itemsText_cons (item : Json F64) (items : List (Json F64)) : itemsText indent depth (item :: items) =
      newline indent (depth + 1) ++ (layout indent (depth + 1) item ++ itemsRest indent depth items) := by
  simp [itemsText, itemsRest, layoutItems, comma]

theorem itemsRest_cons (item : Json F64) (items : List (Json F64)) :
    itemsRest indent depth (item :: items) = ',' :: itemsText indent depth (item :: items) := by
  simp [itemsText, itemsRest, layoutItems, comma]

theorem skipWhitespace_itemsText {item : Json F64}
    (h : item.AllNumbers SmallInteger) (items : List (Json F64)) (rest : List UInt8) :
    skipWhitespace (encode (itemsText indent depth (item :: items)) ++ rest) =
      encode (layout indent (depth + 1) item) ++ (encode (itemsRest indent depth items) ++ rest) := by
  rw [itemsText_cons, encode_append, append_assoc, skipWhitespace_newline, encode_append, append_assoc,
    skipWhitespace_layout indent (depth + 1) h]

variable (fields : List (String × Json F64))

def fieldsText : List Char := layoutFields indent depth true fields ++ newline indent depth ++ ['\x7d']

def fieldsRest : List Char := layoutFields indent depth false fields ++ newline indent depth ++ ['\x7d']

theorem fieldsText_cons (key : String) (value : Json F64) (fields : List (String × Json F64)) :
    fieldsText indent depth ((key, value) :: fields) =
      newline indent (depth + 1) ++ (escape key ++ (colon indent ++ (layout indent (depth + 1) value ++
        fieldsRest indent depth fields))) := by
  simp [fieldsText, fieldsRest, layoutFields, comma]

theorem fieldsRest_cons (field : String × Json F64) (fields : List (String × Json F64)) :
    fieldsRest indent depth (field :: fields) = ',' :: fieldsText indent depth (field :: fields) := by
  simp [fieldsText, fieldsRest, layoutFields, comma]

theorem encode_escape : ∃ bs, encode (escape s) = ascii '"' :: bs := by
  exact ⟨_, rfl⟩

theorem skipWhitespace_fieldsText (key : String) (value : Json F64)
    (fields : List (String × Json F64)) (rest : List UInt8) :
    skipWhitespace (encode (fieldsText indent depth ((key, value) :: fields)) ++ rest) =
      encode (escape key) ++ (encode (colon indent) ++ (encode (layout indent (depth + 1) value) ++
        (encode (fieldsRest indent depth fields) ++ rest))) := by
  obtain ⟨_, hbytes⟩ := encode_escape key
  rw [fieldsText_cons, encode_append, append_assoc, skipWhitespace_newline, encode_append, hbytes]
  simp only [cons_append, encode_append, append_assoc]
  exact skipWhitespace_cons (by decide) _

theorem expect_colon (indent : Option Nat) (bs : List UInt8) :
    ∃ bs', expect ':' (skipWhitespace (encode (colon indent) ++ bs)) = .ok bs' ∧
      skipWhitespace bs' = skipWhitespace bs := by
  cases indent with
  | none => exact ⟨bs, rfl, rfl⟩
  | some => exact ⟨ascii ' ' :: bs, rfl, rfl⟩

theorem ends_itemsRest (rest : List UInt8) : Ends (encode (itemsRest indent depth items) ++ rest) := by
  cases items with
  | nil =>
    rw [itemsRest, layoutItems, nil_append, encode_append, append_assoc]
    exact ends_newline indent depth (by decide) rest
  | cons =>
    exact ends_cons (by decide) _

theorem ends_fieldsRest (rest : List UInt8) : Ends (encode (fieldsRest indent depth fields) ++ rest) := by
  cases fields with
  | nil =>
    rw [fieldsRest, layoutFields, nil_append, encode_append, append_assoc]
    exact ends_newline indent depth (by decide) rest
  | cons =>
    exact ends_cons (by decide) _

mutual

theorem value_layout (indent : Option Nat) :
    ∀ (v : Json F64) (depth : Nat), v.Ordered → v.AllNumbers SmallInteger → ∀ (fuel : Nat) {rest : List UInt8},
      2 * (encode (layout indent depth v)).length < fuel → Ends rest →
        value fuel (encode (layout indent depth v) ++ rest) = .ok (v.mapNumbers reread, rest)
  | _, _, _, _, 0, _, hfuel, _ => absurd hfuel (Nat.not_lt_zero _)
  | .null, _, _, _, _ + 1, rest, _, _ => literal_append "null" .null rest
  | .bool true, _, _, _, _ + 1, rest, _, _ => literal_append "true" (.bool true) rest
  | .bool false, _, _, _, _ + 1, rest, _, _ => literal_append "false" (.bool false) rest
  | .number x, _, _, hsmall, fuel + 1, rest, _, hrest => by
    obtain ⟨i, -, -, htext⟩ := numberText_of_small hsmall
    obtain ⟨b, bs, hbytes, hb⟩ := head_integerText i
    have hparse := (parse_numberText hsmall).1
    rw [htext] at hparse
    have hnumber := number_integerText i hparse hrest
    rw [layout, htext]
    rw [hbytes] at hnumber ⊢
    rw [cons_append, value_number hb, ← cons_append, hnumber, mapNumbers]
  | .string s, _, _, _, fuel + 1, rest, _, _ => by
    have hstring := string_escape s rest
    obtain ⟨bs, hbytes⟩ := encode_escape s
    rw [hbytes, cons_append] at hstring
    rw [layout, hbytes, cons_append, value, if_neg (by decide), if_neg (by decide), if_neg (by decide),
      if_pos rfl, hstring, ok_bind, mapNumbers]
  | .array [], _, _, _, _ + 1, rest, _, _ => rfl
  | .array (item :: items), depth, hordered, hsmall, fuel + 1, rest, hfuel, _ => by
    have htext : layout indent depth (.array (item :: items)) = '[' :: itemsText indent depth (item :: items) := by
      rw [layout, itemsText]
    rw [htext, encode_ascii (by decide)] at hfuel ⊢
    rw [length_cons] at hfuel
    -- what follows the bracket is an item, not the other bracket
    have hskip := skipWhitespace_itemsText indent depth hsmall.1 items rest
    obtain ⟨_, bs, hbytes, -, hclose⟩ := head_layout indent (depth + 1) hsmall.1
    have hhead : (skipWhitespace (encode (itemsText indent depth (item :: items)) ++ rest)).head? ≠
        some (ascii ']') := by
      rw [hskip, hbytes, cons_append, List.head?_cons]
      exact fun heq => hclose (some.inj heq)
    rw [cons_append, value, if_neg (by decide), if_neg (by decide), if_neg (by decide), if_neg (by decide),
      if_pos rfl]
    simp only [if_neg hhead]
    exact arrayLoop_layout indent (item :: items) depth (cons_ne_nil _ _) hordered hsmall [] (by omega)
      (skipWhitespace_idem _)
  | .object [], _, _, _, _ + 1, rest, _, _ => rfl
  | .object ((key, item) :: fields), depth, hordered, hsmall, fuel + 1, rest, hfuel, _ => by
    have htext : layout indent depth (.object ((key, item) :: fields)) =
        '\x7b' :: fieldsText indent depth ((key, item) :: fields) := by rw [layout, fieldsText]
    rw [htext, encode_ascii (by decide)] at hfuel ⊢
    rw [length_cons] at hfuel
    have hskip := skipWhitespace_fieldsText indent depth key item fields rest
    obtain ⟨_, hbytes⟩ := encode_escape key
    have hhead : (skipWhitespace (encode (fieldsText indent depth ((key, item) :: fields)) ++ rest)).head? ≠
        some (ascii '\x7d') := by
      rw [hskip, hbytes, cons_append, List.head?_cons]
      decide
    rw [cons_append, value, if_neg (by decide), if_neg (by decide), if_neg (by decide), if_neg (by decide),
      if_neg (by decide), if_pos rfl]
    simp only [if_neg hhead]
    exact objectLoop_layout indent ((key, item) :: fields) depth (cons_ne_nil _ _) hordered.1 hordered.2 hsmall
      [] (by simp) (by omega) (skipWhitespace_idem _)

theorem arrayLoop_layout (indent : Option Nat) :
    ∀ (items : List (Json F64)) (depth : Nat), items ≠ [] → OrderedItems items → AllNumbersItems SmallInteger items →
      ∀ {fuel : Nat} (before : List (Json F64)) {bs rest : List UInt8},
        2 * (encode (itemsText indent depth items)).length < fuel →
        skipWhitespace bs = skipWhitespace (encode (itemsText indent depth items) ++ rest) →
        arrayLoop fuel before bs = .ok (.array (before ++ mapItems reread items), rest)
  | [], _, hne, _, _, _, _, _, _, _, _ => absurd rfl hne
  | _ :: _, _, _, _, _, 0, _, _, _, hfuel, _ => absurd hfuel (Nat.not_lt_zero _)
  | item :: items, depth, _, hordered, hsmall, fuel + 1, before, bs, rest, hfuel, hbs => by
    have hlength : (encode (itemsText indent depth (item :: items))).length =
        (encode (newline indent (depth + 1))).length + ((encode (layout indent (depth + 1) item)).length +
          (encode (itemsRest indent depth items)).length) := by
      rw [itemsText_cons, encode_append, encode_append, length_append, length_append]
    have hpos : 0 < (encode (itemsRest indent depth items)).length := by
      rw [itemsRest, encode_append, length_append, encode_ascii (by decide), length_cons]
      omega
    have hitem := value_layout indent item (depth + 1) hordered.1 hsmall.1 fuel (by omega)
      (ends_itemsRest indent depth items rest)
    rw [arrayLoop, hbs, skipWhitespace_itemsText indent depth hsmall.1, hitem, ok_bind]
    simp only
    cases items with
    | nil =>
      have hend : skipWhitespace (encode (itemsRest indent depth []) ++ rest) = ascii ']' :: rest := by
        rw [itemsRest, layoutItems, nil_append, encode_append, append_assoc, skipWhitespace_newline]
        rfl
      rw [hend, List.head?_cons, if_neg (by decide), if_pos rfl]
      rfl
    | cons next items =>
      rw [itemsRest_cons, encode_ascii (by decide), length_cons] at hlength
      rw [itemsRest_cons, skipWhitespace_comma, List.head?_cons, if_pos rfl, tail_cons]
      rw [arrayLoop_layout indent (next :: items) depth (cons_ne_nil _ _) hordered.2 hsmall.2
        (before ++ [mapNumbers reread item]) (by omega) rfl]
      simp [mapItems]

theorem objectLoop_layout (indent : Option Nat) : ∀ (fields : List (String × Json F64)) (depth : Nat), fields ≠ [] →
      (fields.map Prod.fst).Pairwise (· < ·) → OrderedFields fields → AllNumbersFields SmallInteger fields →
      ∀ {fuel : Nat} (before : List (String × Json F64)) {bs rest : List UInt8},
        (∀ old ∈ before, ∀ field ∈ fields, old.1 < field.1) →
        2 * (encode (fieldsText indent depth fields)).length < fuel →
        skipWhitespace bs = skipWhitespace (encode (fieldsText indent depth fields) ++ rest) →
        objectLoop fuel before bs = .ok (.object (before ++ mapFields reread fields), rest)
  | [], _, hne, _, _, _, _, _, _, _, _, _, _ => absurd rfl hne
  | _ :: _, _, _, _, _, _, 0, _, _, _, _, hfuel, _ => absurd hfuel (Nat.not_lt_zero _)
  | (key, item) :: fields, depth, _, hkeys, hordered, hsmall, fuel + 1, before, bs, rest, hbefore, hfuel, hbs => by
    have hlength : (encode (fieldsText indent depth ((key, item) :: fields))).length =
        (encode (newline indent (depth + 1))).length + ((encode (escape key)).length +
          ((encode (colon indent)).length + ((encode (layout indent (depth + 1) item)).length +
            (encode (fieldsRest indent depth fields)).length))) := by
      rw [fieldsText_cons]
      simp only [encode_append, length_append]
    have hpos : 0 < (encode (fieldsRest indent depth fields)).length := by
      rw [fieldsRest, encode_append, length_append, encode_ascii (by decide), length_cons]
      omega
    obtain ⟨_, hcolon, hafter⟩ := expect_colon indent
      (encode (layout indent (depth + 1) item) ++ (encode (fieldsRest indent depth fields) ++ rest))
    have hitem := value_layout indent item (depth + 1) hordered.1 hsmall.1 fuel (by omega)
      (ends_fieldsRest indent depth fields rest)
    have hinsert : insertField key (mapNumbers reread item) before = before ++ [(key, mapNumbers reread item)] :=
      insertField_of_lt (fun old hold => hbefore old hold (key, item) mem_cons_self) _
    rw [objectLoop, hbs, skipWhitespace_fieldsText, string_escape, ok_bind]
    simp only
    rw [hcolon, ok_bind, hafter, skipWhitespace_layout indent (depth + 1) hsmall.1, hitem, ok_bind]
    rw [hinsert]
    cases fields with
    | nil =>
      have hend : skipWhitespace (encode (fieldsRest indent depth []) ++ rest) = ascii '\x7d' :: rest := by
        rw [fieldsRest, layoutFields, nil_append, encode_append, append_assoc, skipWhitespace_newline]
        rfl
      rw [hend, List.head?_cons, if_neg (by decide), if_pos rfl]
      rfl
    | cons next fields =>
      rw [map_cons, pairwise_cons] at hkeys
      have hbefore' : ∀ old ∈ before ++ [(key, mapNumbers reread item)], ∀ field ∈ next :: fields,
          old.1 < field.1 := by
        intro old hold field hfield
        rcases mem_append.mp hold with hold | hold
        · exact hbefore old hold field (mem_cons_of_mem _ hfield)
        · rw [mem_singleton.mp hold]
          exact hkeys.1 field.1 (mem_map_of_mem hfield)
      rw [fieldsRest_cons, encode_ascii (by decide), length_cons] at hlength
      rw [fieldsRest_cons, skipWhitespace_comma, List.head?_cons, if_pos rfl, tail_cons]
      rw [objectLoop_layout indent (next :: fields) depth (cons_ne_nil _ _) hkeys.2 hordered.2 hsmall.2
        (before ++ [(key, mapNumbers reread item)]) hbefore' (by omega) rfl]
      simp [mapFields]

end

theorem document_layout (indent : Option Nat) (hordered : v.Ordered)
    (hsmall : v.AllNumbers SmallInteger) : document (encode (layout indent 0 v)) = .ok (v.mapNumbers reread) := by
  have hskip := skipWhitespace_layout indent 0 hsmall []
  have hvalue := value_layout indent v 0 hordered hsmall (2 * (encode (layout indent 0 v)).length + 2)
    (by omega) ends_nil
  rw [append_nil] at hskip hvalue
  rw [document, hskip, hvalue, ok_bind]
  rfl

end Parser

/-! ## Angle brackets -/

theorem not_mem_escapeChar (c : Char) : '<' ∉ escapeChar c := by
  by_cases hc : c ∈ special
  · have hall : special.all (fun c => !(escapeChar c).contains '<') = true := by decide
    simpa using all_eq_true.mp hall c hc
  · rw [(escapeChar_eq_self hc).1, mem_singleton]
    rintro rfl
    exact hc (by decide)

theorem not_mem_escape : '<' ∉ escape s := by
  simp [escape, not_mem_escapeChar]

theorem not_mem_integerText (i : Int) : '<' ∉ integerText i := by
  have hdigits : '<' ∉ Nat.toDigits 10 i.natAbs := fun hmem =>
    absurd (Nat.isDigit_of_mem_toDigits (by decide) (by decide) hmem) (by decide)
  rw [integerText]
  split <;> simp [hdigits]

theorem not_mem_newline (indent : Option Nat) (depth : Nat) : '<' ∉ newline indent depth := by
  cases indent with
  | none => exact not_mem_nil
  | some => simp [newline]

theorem not_mem_comma (first : Bool) : '<' ∉ comma first := by
  cases first <;> decide

theorem not_mem_colon (indent : Option Nat) : '<' ∉ colon indent := by
  cases indent <;> simp [colon]

mutual

theorem not_mem_layout (indent : Option Nat) :
    ∀ (v : Json F64) (depth : Nat), v.AllNumbers Parser.SmallInteger → '<' ∉ layout indent depth v
  | .null, _, _ => by simp [layout]
  | .bool true, _, _ => by simp [layout]
  | .bool false, _, _ => by simp [layout]
  | .number x, _, h => by
    obtain ⟨i, -, -, htext⟩ := Parser.numberText_of_small h
    rw [layout, htext]
    exact not_mem_integerText i
  | .string s, _, _ => not_mem_escape s
  | .array [], _, _ => by simp [layout]
  | .array (item :: items), depth, h => by
    simp [layout, not_mem_layoutItems indent (item :: items) depth true h, not_mem_newline]
  | .object [], _, _ => by simp [layout]
  | .object (field :: fields), depth, h => by
    simp [layout, not_mem_layoutFields indent (field :: fields) depth true h, not_mem_newline]

theorem not_mem_layoutItems (indent : Option Nat) :
    ∀ (items : List (Json F64)) (depth : Nat) (first : Bool), AllNumbersItems Parser.SmallInteger items →
      '<' ∉ layoutItems indent depth first items
  | [], _, _, _ => by simp [layoutItems]
  | item :: items, depth, first, h => by
    simp [layoutItems, not_mem_comma, not_mem_newline, not_mem_layout indent item (depth + 1) h.1,
      not_mem_layoutItems indent items depth false h.2]

theorem not_mem_layoutFields (indent : Option Nat) :
    ∀ (fields : List (String × Json F64)) (depth : Nat) (first : Bool),
      AllNumbersFields Parser.SmallInteger fields → '<' ∉ layoutFields indent depth first fields
  | [], _, _, _ => by simp [layoutFields]
  | (key, value) :: fields, depth, first, h => by
    simp [layoutFields, not_mem_comma, not_mem_newline, not_mem_colon, not_mem_escape,
      not_mem_layout indent value (depth + 1) h.1, not_mem_layoutFields indent fields depth false h.2]

end

/-! ## Round trip -/

theorem parse_writeTo (indent : Option Nat) {v : Json F64} (hordered : v.Ordered)
    (hnumbers : v.AllNumbers Parser.SmallInteger) :
    ∃ text, writeTo indent 0 v = .ok text ∧ parse text = .ok (v.mapNumbers Parser.reread) ∧ ascii '<' ∉ text := by
  refine ⟨_, writeTo_eq indent 0 v, ?_, fun hmem => ?_⟩
  · rw [parse, Parser.document_layout indent hordered hnumbers]
  · exact not_mem_layout indent v 0 hnumbers (mem_of_mem_encode (by decide) hmem)

/-- A value with integers for numbers is read back from its text, compact or not, and
    neither text has an angle bracket. -/
theorem parse_toText (v : Json F64) (hordered : v.Ordered) (hnumbers : v.AllNumbers Parser.SmallInteger) :
    ∃ text pretty parsed, v.toText = .ok text ∧ v.toTextPretty = .ok pretty ∧ parse text = .ok parsed ∧
      parse pretty = .ok parsed ∧ parsed.eq F64.eq v = true ∧ ascii '<' ∉ text ∧ ascii '<' ∉ pretty := by
  obtain ⟨text, htext, hparse, hbracket⟩ := parse_writeTo none hordered hnumbers
  obtain ⟨pretty, hpretty, hparse', hbracket'⟩ := parse_writeTo (some 2) hordered hnumbers
  have hsame := eq_mapNumbers (fun x hx => (Parser.parse_numberText hx).2) v hnumbers
  exact ⟨text, pretty, _, htext, hpretty, hparse, hparse', hsame, hbracket, hbracket'⟩

theorem parse_toText_nested :
    let v : Json F64 := .object [("<\n", .array [.number (roundRatio true 7 1), .null]), ("é", .object [])]
    ∃ text pretty parsed, v.toText = .ok text ∧ v.toTextPretty = .ok pretty ∧ parse text = .ok parsed ∧
      parse pretty = .ok parsed ∧ parsed.eq F64.eq v = true ∧ ascii '<' ∉ text ∧ ascii '<' ∉ pretty :=
  parse_toText _ ⟨by decide, ⟨trivial, trivial, trivial⟩, ⟨List.Pairwise.nil, trivial⟩, trivial⟩
    ⟨⟨⟨-7, whole_roundRatio true (by decide), by decide⟩, trivial, trivial⟩, trivial, trivial⟩

end Rustlavel.Json
