/-
  How a JSON value is written, compactly or with an indent.
-/

import Rustlavel.Core.Json
import Rustlavel.Lib.Float64
import Rustlavel.Lib.Outcome
import Rustlavel.Lib.Utf8

namespace Rustlavel.Json

open Float64 Outcome Text Utf8 List Nat

/-! ## Strings -/

/-- `\u0000` through `\u001f`. -/
def controlEscapes : List (List Char) :=
  (List.range 32).map fun n => ['\\', 'u', '0', '0', hexDigit (n / 16), hexDigit (n % 16)]

def replacement (b : UInt8) : Option (List UInt8) :=
  if b = ascii '"' then some (encode ['\\', '"'])
  else if b = ascii '\\' then some (encode ['\\', '\\'])
  else if b = ascii '\n' then some (encode ['\\', 'n'])
  else if b = ascii '\r' then some (encode ['\\', 'r'])
  else if b = ascii '\t' then some (encode ['\\', 't'])
  else if b = 0x08 then some (encode ['\\', 'b'])
  else if b = 0x0c then some (encode ['\\', 'f'])
  else if b = ascii '<' then some (encode ['\\', 'u', '0', '0', '3', 'c'])
  else controlEscapes[b.toNat]?.map encode

variable (s : List UInt8) (x : F64)

def slice (start stop : Nat) : Result Empty (List UInt8) :=
  if isCharBoundary s start ∧ isCharBoundary s stop ∧ start ≤ stop then .ok ((s.drop start).take (stop - start))
  else .error .panic

/-- The loop of `escape_into`: `cleanFrom` is where the run began that is not copied yet. -/
def escapeLoop (s : List UInt8) (cleanFrom index : Nat) : List UInt8 → List UInt8 → Result Empty (List UInt8)
  | [], out => do
    let run ← slice s cleanFrom s.length
    .ok (out ++ run ++ [ascii '"'])
  | b :: bs, out =>
    match replacement b with
    | none => escapeLoop s cleanFrom (index + 1) bs out
    | some text => do
      let run ← slice s cleanFrom index
      escapeLoop s (index + 1) (index + 1) bs (out ++ run ++ text)

def escapeInto : Result Empty (List UInt8) := escapeLoop s 0 0 s [ascii '"']

theorem replacement_of_special : ∀ c ∈ special, String.utf8EncodeChar c = [ascii c] ∧
    replacement (ascii c) = some (encode (escapeChar c)) := forall_special (by decide)

theorem special_of_replacement : ∀ b, replacement b ≠ none → b.toNat < 0x80 ∧ Char.ofNat b.toNat ∈ special :=
  forall_byte (by decide +kernel)

theorem replacement_eq_none {c : Char} (hc : c ∉ special) {b : UInt8} (hb : b ∈ String.utf8EncodeChar c) :
    replacement b = none := by
  by_contra hne
  obtain ⟨hlow, hspecial⟩ := special_of_replacement b hne
  rw [← char_of_mem_encode hb hlow, Char.ofNat_toNat] at hspecial
  exact hc hspecial

theorem escapeLoop_skip (cleanFrom index : Nat) {run : List UInt8}
    (h : ∀ b ∈ run, replacement b = none) (bs out : List UInt8) :
    escapeLoop s cleanFrom index (run ++ bs) out = escapeLoop s cleanFrom (index + run.length) bs out := by
  induction run generalizing index with
  | nil => rfl
  | cons b run ih =>
    have hb := h b mem_cons_self
    have hrun := ih (index + 1) fun b hb => h b (mem_cons_of_mem _ hb)
    rw [cons_append, escapeLoop, hb]
    rw [hrun, length_cons, add_assoc, add_comm 1]

theorem slice_encode (before run rest : List Char) :
    slice (encode before ++ encode run ++ encode rest) (encode before).length
        ((encode before).length + (encode run).length) = .ok (encode run) := by
  have hstart := isCharBoundary_encode before (run ++ rest)
  have hstop := isCharBoundary_encode (before ++ run) rest
  rw [encode_append, ← append_assoc] at hstart
  rw [encode_append, length_append] at hstop
  rw [slice, if_pos ⟨hstart, hstop, by omega⟩, append_assoc, drop_left, Nat.add_sub_cancel_left, take_left]

theorem escapeLoop_encode {s : List UInt8} {cs : List Char} (before run : List Char) {cleanFrom index : Nat}
    (hs : s = encode before ++ encode run ++ encode cs) (hclean : cleanFrom = (encode before).length)
    (hindex : index = (encode before).length + (encode run).length) (out : List UInt8) :
    escapeLoop s cleanFrom index (encode cs) out =
      .ok (out ++ encode run ++ encode (cs.flatMap escapeChar) ++ [ascii '"']) := by
  have hslice : slice s cleanFrom index = .ok (encode run) := by
    rw [hs, hclean, hindex]
    exact slice_encode before run cs
  induction cs generalizing before run cleanFrom index out with
  | nil =>
    have hlength : s.length = index := by
      rw [hs, hindex, encode_nil, append_nil, length_append]
    rw [encode_nil, escapeLoop, hlength, hslice]
    simp
  | cons c cs ih =>
    by_cases hc : c ∈ special
    · -- the run is copied, and the next one begins after the escape
      obtain ⟨hone, hreplace⟩ := replacement_of_special c hc
      have hbytes : encode (c :: cs) = ascii c :: encode cs := by rw [encode_cons, hone, singleton_append]
      have hwhole : s = encode (before ++ run ++ [c]) ++ encode [] ++ encode cs := by
        rw [hs, hbytes, encode_append, encode_append, encode_cons, hone]
        simp
      have hlength : index + 1 = (encode (before ++ run ++ [c])).length := by
        rw [hindex, encode_append, encode_append, encode_cons, hone]
        simp only [length_append, encode_nil, append_nil, length_singleton]
      have hnext := ih (before ++ run ++ [c]) [] hwhole hlength hlength (out ++ encode run ++ encode (escapeChar c))
        (by rw [hwhole, hlength]; exact slice_encode _ [] cs)
      rw [hbytes, escapeLoop, hreplace]
      simp only
      rw [hslice, ok_bind, hnext, flatMap_cons, encode_append, encode_nil, append_nil]
      simp only [append_assoc]
    · -- the run grows by a character
      have hnone : ∀ b ∈ String.utf8EncodeChar c, replacement b = none := fun b hb => replacement_eq_none hc hb
      have hone : encode (run ++ [c]) = encode run ++ String.utf8EncodeChar c := by
        rw [encode_append, encode_cons, encode_nil, append_nil]
      have hwhole : s = encode before ++ encode (run ++ [c]) ++ encode cs := by
        rw [hs, hone, encode_cons]
        simp only [append_assoc]
      have hlength : index + (String.utf8EncodeChar c).length =
          (encode before).length + (encode (run ++ [c])).length := by
        rw [hindex, hone, length_append, Nat.add_assoc]
      have hnext := ih before (run ++ [c]) hwhole hclean hlength out
        (by rw [hwhole, hclean, hlength]; exact slice_encode _ _ cs)
      rw [encode_cons, escapeLoop_skip _ _ _ hnone, hnext, flatMap_cons, (escapeChar_eq_self hc).1, hone,
        encode_append, encode_cons, encode_nil, append_nil]
      simp only [append_assoc]

theorem escapeInto_encode (s : String) : escapeInto (encode s.toList) = .ok (encode (escape s)) := by
  have hloop := escapeLoop_encode (s := encode s.toList) [] [] rfl rfl rfl [ascii '"']
  rw [encode_nil, length_nil, add_zero, append_nil] at hloop
  rw [escapeInto, hloop, escape, encode_append, encode_ascii (by decide), encode_ascii (by decide), encode_nil]
  rfl

/-! ## Integers -/

def digitsLoop : Nat → Nat → List UInt8 → Result Empty (Nat × List UInt8)
  | 0, magnitude, digits => if magnitude = 0 then .ok (0, digits) else .error .panic
  | index + 1, magnitude, digits =>
    if magnitude = 0 then .ok (index + 1, digits)
    else digitsLoop index (magnitude / 10) (UInt8.ofNat (48 + magnitude % 10) :: digits)

def pushInteger (value : Int) : Result Empty (List UInt8) :=
  if value = 0 then .ok [ascii '0']
  else do
    let (index, digits) ← digitsLoop 20 value.natAbs []
    if value < 0 then
      let _ ← sub index 1
      .ok (ascii '-' :: digits)
    else .ok digits

theorem digitsLoop_zero (index : Nat) (digits : List UInt8) : digitsLoop index 0 digits = .ok (index, digits) := by
  cases index with
  | zero | succ => rfl

theorem encode_digitChar {d : Nat} (h : d < 10) : encode [d.digitChar] = [UInt8.ofNat (48 + d)] := by
  have hall : ∀ d : Fin 10, encode [digitChar d.val] = [UInt8.ofNat (48 + d.val)] := by decide
  exact hall ⟨d, h⟩

theorem digitsLoop_eq {k m : Nat} (index : Nat) (hpos : 0 < m) (h : m < 10 ^ k) (hk : k ≤ index) (digits : List UInt8) :
    ∃ left, index - k ≤ left ∧ digitsLoop index m digits = .ok (left, encode (toDigits 10 m) ++ digits) := by
  induction k generalizing index m digits with
  | zero => omega
  | succ k ih =>
    obtain ⟨index, rfl⟩ : ∃ i, index = i + 1 := ⟨index - 1, by omega⟩
    rw [digitsLoop, if_neg (by omega), ← singleton_append, ← encode_digitChar (mod_lt m (by decide))]
    by_cases hm : m < 10
    · have hdiv : m / 10 = 0 := div_eq_of_lt hm
      refine ⟨index, by omega, ?_⟩
      rw [hdiv, digitsLoop_zero, mod_eq_of_lt hm, toDigits_of_lt_base hm]
    · have hless : m / 10 < 10 ^ k := by
        rw [div_lt_iff_lt_mul (by decide), ← pow_succ]
        exact h
      obtain ⟨left, _, hloop⟩ := ih index (div_pos (by omega) (by decide)) hless (by omega)
        (encode [(m % 10).digitChar] ++ digits)
      have hdigits : toDigits 10 m = toDigits 10 (m / 10) ++ [(m % 10).digitChar] :=
        toDigits_of_base_le (by decide) (by omega)
      refine ⟨left, by omega, ?_⟩
      rw [hloop, hdigits, encode_append, append_assoc]

theorem pushInteger_eq {i : Int} (h : i.natAbs < 10 ^ 19) : pushInteger i = .ok (encode (integerText i)) := by
  rw [pushInteger]
  by_cases hzero : i = 0
  · rw [if_pos hzero, hzero]
    rfl
  · obtain ⟨_, _, hloop⟩ := digitsLoop_eq 20 (by omega) h (by decide) []
    rw [if_neg hzero, hloop, append_nil, integerText]
    by_cases hneg : i < 0
    · simp only [ok_bind, if_pos hneg]
      rw [sub_of_le (by omega), ok_bind, singleton_append, encode_ascii (by decide)]
    · simp only [ok_bind, if_neg hneg, nil_append]

/-! ## Values -/

/-- Below `1e15` a whole number is written without a point. -/
def integral : Option Int := x.whole.filter fun i => i.natAbs < 10 ^ 15

def writeNumber : Result Empty (List UInt8) :=
  match x.value with
  | .finite .. =>
    match integral x with
    | some i => pushInteger i
    | none => .ok (encode (display x))
  | _ => .ok (encode "null".toList)

def newline (indent : Option Nat) (depth : Nat) : List Char :=
  match indent with
  | none => []
  | some width => '\n' :: List.replicate (width * depth) ' '

def colon (indent : Option Nat) : List Char := if indent.isSome then [':', ' '] else [':']

def comma (first : Bool) : List Char := if first then [] else [',']

mutual

def writeTo (indent : Option Nat) (depth : Nat) : Json F64 → Result Empty (List UInt8)
  | .null => .ok (encode "null".toList)
  | .bool true => .ok (encode "true".toList)
  | .bool false => .ok (encode "false".toList)
  | .number x => writeNumber x
  | .string s => escapeInto (encode s.toList)
  | .array [] => .ok (encode ['[', ']'])
  | .array (item :: items) => do
    let inner ← writeItemsTo indent depth true (item :: items)
    .ok (ascii '[' :: inner ++ encode (newline indent depth) ++ [ascii ']'])
  | .object [] => .ok (encode ['\x7b', '\x7d'])
  | .object (field :: fields) => do
    let inner ← writeFieldsTo indent depth true (field :: fields)
    .ok (ascii '\x7b' :: inner ++ encode (newline indent depth) ++ [ascii '\x7d'])

def writeItemsTo (indent : Option Nat) (depth : Nat) : Bool → List (Json F64) → Result Empty (List UInt8)
  | _, [] => .ok []
  | first, item :: items => do
    let text ← writeTo indent (depth + 1) item
    let rest ← writeItemsTo indent depth false items
    .ok (encode (comma first ++ newline indent (depth + 1)) ++ text ++ rest)

def writeFieldsTo (indent : Option Nat) (depth : Nat) : Bool → List (String × Json F64) → Result Empty (List UInt8)
  | _, [] => .ok []
  | first, (key, value) :: fields => do
    let literal ← escapeInto (encode key.toList)
    let text ← writeTo indent (depth + 1) value
    let rest ← writeFieldsTo indent depth false fields
    .ok (encode (comma first ++ newline indent (depth + 1)) ++ literal ++ encode (colon indent) ++ text ++ rest)

end

def toText (v : Json F64) : Result Empty (List UInt8) := writeTo none 0 v

def toTextPretty (v : Json F64) : Result Empty (List UInt8) := writeTo (some 2) 0 v

/-! ## The text that is written -/

def numberText : List Char :=
  match x.value with
  | .finite .. =>
    match integral x with
    | some i => integerText i
    | none => display x
  | _ => "null".toList

mutual

def layout (indent : Option Nat) (depth : Nat) : Json F64 → List Char
  | .null => "null".toList
  | .bool true => "true".toList
  | .bool false => "false".toList
  | .number x => numberText x
  | .string s => escape s
  | .array [] => ['[', ']']
  | .array (item :: items) =>
    '[' :: (layoutItems indent depth true (item :: items) ++ newline indent depth ++ [']'])
  | .object [] => ['\x7b', '\x7d']
  | .object (field :: fields) =>
    '\x7b' :: (layoutFields indent depth true (field :: fields) ++ newline indent depth ++ ['\x7d'])

def layoutItems (indent : Option Nat) (depth : Nat) : Bool → List (Json F64) → List Char
  | _, [] => []
  | first, item :: items =>
    comma first ++ newline indent (depth + 1) ++ layout indent (depth + 1) item ++
      layoutItems indent depth false items

def layoutFields (indent : Option Nat) (depth : Nat) : Bool → List (String × Json F64) → List Char
  | _, [] => []
  | first, (key, value) :: fields =>
    comma first ++ newline indent (depth + 1) ++ escape key ++ colon indent ++ layout indent (depth + 1) value ++
      layoutFields indent depth false fields

end

theorem writeNumber_eq : writeNumber x = .ok (encode (numberText x)) := by
  rw [writeNumber, numberText]
  cases x.value with
  | nan | infinite => rfl
  | finite =>
    cases hi : integral x with
    | none => rfl
    | some i =>
      obtain ⟨-, hsmall⟩ := Option.filter_eq_some_iff.mp hi
      have hlt : i.natAbs < 10 ^ 15 := by simpa using hsmall
      exact pushInteger_eq (lt_trans hlt (by decide))

mutual

theorem writeTo_eq (indent : Option Nat) (depth : Nat) :
    ∀ v : Json F64, writeTo indent depth v = .ok (encode (layout indent depth v))
  | .null => rfl
  | .bool true => rfl
  | .bool false => rfl
  | .number x => writeNumber_eq x
  | .string s => escapeInto_encode s
  | .array [] => rfl
  | .array (item :: items) => by
    rw [writeTo, writeItemsTo_eq indent depth true (item :: items), ok_bind, layout, encode_ascii (by decide),
      encode_append, encode_append, encode_ascii (by decide)]
    rfl
  | .object [] => rfl
  | .object (field :: fields) => by
    rw [writeTo, writeFieldsTo_eq indent depth true (field :: fields), ok_bind, layout, encode_ascii (by decide),
      encode_append, encode_append, encode_ascii (by decide)]
    rfl

theorem writeItemsTo_eq (indent : Option Nat) (depth : Nat) (first : Bool) :
    ∀ items : List (Json F64), writeItemsTo indent depth first items =
      .ok (encode (layoutItems indent depth first items))
  | [] => rfl
  | item :: items => by
    rw [writeItemsTo, writeTo_eq indent (depth + 1) item, writeItemsTo_eq indent depth false items, layoutItems]
    simp only [ok_bind, encode_append]

theorem writeFieldsTo_eq (indent : Option Nat) (depth : Nat) (first : Bool) : ∀ fields : List (String × Json F64),
      writeFieldsTo indent depth first fields = .ok (encode (layoutFields indent depth first fields))
  | [] => rfl
  | (key, value) :: fields => by
    rw [writeFieldsTo, escapeInto_encode, writeTo_eq indent (depth + 1) value,
      writeFieldsTo_eq indent depth false fields, layoutFields]
    simp only [ok_bind, encode_append]

end

end Rustlavel.Json
