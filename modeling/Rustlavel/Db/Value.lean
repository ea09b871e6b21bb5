/-
  The values that cross the database boundary, the rows they come in, and their conversions: into JSON, which is
  where a whole number becomes a double and a byte string becomes its length, and into the fields of a model.
-/

import Rustlavel.Core.Json
import Rustlavel.Lib.Double
import Rustlavel.Lib.Traverse
import Rustlavel.Lib.Utf8

open Double (Whole)

namespace Rustlavel.Db

open List String

/-! ## Text as bytes -/

def utf8 (s : String) : List UInt8 := s.toList.flatMap utf8EncodeChar

theorem utf8_inj {s t : String} (h : utf8 s = utf8 t) : s = t := by
  refine toByteArray_inj.mp ?_
  rw [← utf8Encode_toList, ← utf8Encode_toList]
  exact congrArg List.toByteArray h

theorem not_mem_utf8 (s : String) : (0xff : UInt8) ∉ utf8 s := by
  intro h
  obtain ⟨_, -, hc⟩ := mem_flatMap.mp h
  exact absurd (Utf8.byte_cases hc) (by simp)

/-! ## Values -/

inductive Value where
  | null
  | bool (b : Bool)
  | int (n : Int)
  | float (x : Whole)
  | text (s : String)
  | bytes (bs : List UInt8)
  | json (j : Json Whole)

def lengthText (bs : List UInt8) : String := "<" ++ bs.length.repr ++ " bytes>"

def Value.toJson : Value → Json Whole
  | .null => .null
  | .bool b => .bool b
  | .int n => .number (.ofInt n)
  | .float x => .number x
  | .text s => .string s
  | .bytes bs => .string (lengthText bs)
  | .json j => j

abbrev Row : Type := List (String × Value)

def Row.value (row : Row) (column : String) : Except String Value :=
  match row.lookup column with
  | some value => .ok value
  | none => .error ("no column `" ++ column ++ "` in this result. Available: " ++ ", ".intercalate (row.map (·.1)))

/-! ## Fields -/

inductive FieldType where
  | int
  | float
  | text
  | bool
  | bytes
  deriving DecidableEq

def Value.variantName : Value → String
  | .null => "NULL"
  | .bool _ => "boolean"
  | .int _ => "integer"
  | .float _ => "float"
  | .text _ => "text"
  | .bytes _ => "bytea"
  | .json _ => "json"

namespace FieldType

def typeName : FieldType → String
  | .int => "i64"
  | .float => "f64"
  | .text => "alloc::string::String"
  | .bool => "bool"
  | .bytes => "alloc::vec::Vec<u8>"

def mismatch (type : FieldType) (value : Value) : Except String Value :=
  .error ("cannot read a " ++ value.variantName ++ " column as " ++ type.typeName)

def fromValue : FieldType → Value → Except String Value
  | .int, .int n => .ok (.int n)
  | .float, .float x => .ok (.float x)
  | .float, .int n => .ok (.float (.ofInt n))
  | .text, .text s => .ok (.text s)
  | .text, .json j => .ok (.text (j.text Whole.text))
  | .bool, .bool b => .ok (.bool b)
  | .bool, .int n =>
    if n = 0 then .ok (.bool false)
    else if n = 1 then .ok (.bool true)
    else .error ("cannot read " ++ toString n ++ " as a bool. A `bool` field maps to 0 or 1; " ++
      "this column holds something else, so it is probably a number rather than a flag.")
  | .bytes, .bytes bs => .ok (.bytes bs)
  | .bytes, .text s => .ok (.bytes (utf8 s))
  | type, value => type.mismatch value

end FieldType

structure Field where
  column : String
  type : FieldType
  nullable : Bool := false

def Field.fromValue (field : Field) (value : Value) : Except String Value :=
  match field.nullable, value with
  | true, .null => .ok .null
  | _, value => field.type.fromValue value

variable {field : Field} {value : Value} {type : FieldType}

theorem Field.fromValue_eq_ok {read : Value} (h : field.fromValue value = .ok read)
    (hnull : read ≠ .null) : field.type.fromValue value = .ok read := by
  unfold Field.fromValue at h
  split at h
  · cases h
    exact absurd rfl hnull
  · exact h

theorem Field.fromValue_of_ne (h : value ≠ .null) : field.fromValue value = field.type.fromValue value := by
  unfold Field.fromValue
  split
  · exact absurd rfl h
  · rfl

theorem FieldType.fromValue_eq_int {n : Int}
    (h : type.fromValue value = .ok (.int n)) : type = .int ∧ value = .int n := by
  unfold FieldType.fromValue at h
  split at h <;> first | (cases h; exact ⟨rfl, rfl⟩) | cases h | skip
  split at h
  · cases h
  · split at h <;> cases h

theorem FieldType.fromValue_eq_bytes {bs : List UInt8}
    (h : type.fromValue value = .ok (.bytes bs)) : value = .bytes bs ∨ ∃ s, value = .text s ∧ bs = utf8 s := by
  unfold FieldType.fromValue at h
  split at h <;> first
    | (cases h; exact .inl rfl)
    | (cases h; exact .inr ⟨_, rfl, rfl⟩)
    | cases h
    | skip
  split at h
  · cases h
  · split at h <;> cases h

def Row.get (row : Row) (field : Field) : Except String Value := do
  match field.fromValue (← row.value field.column) with
  | .ok value => .ok value
  | .error e => .error ("column `" ++ field.column ++ "`: " ++ e)

structure Model where
  table : String
  key : Field
  fields : List Field
  key_mem : key ∈ fields

namespace Model

variable (M : Model)

def fromRow (row : Row) : Except String (List Value) := M.fields.mapM row.get

theorem get_key {row : Row} {model : List Value} (h : M.fromRow row = .ok model) :
    ∃ value key, row.lookup M.key.column = some value ∧ M.key.fromValue value = .ok key := by
  obtain ⟨key, -, hkey⟩ := Traverse.exists_right (Traverse.forall₂_of_mapM_ok h) M.key_mem
  rw [Row.get, Row.value] at hkey
  cases hvalue : row.lookup M.key.column with
  | none =>
    rw [hvalue] at hkey
    cases hkey
  | some value =>
    rw [hvalue] at hkey
    change (match M.key.fromValue value with | .ok v => _ | .error e => _) = _ at hkey
    cases hread : M.key.fromValue value with
    | error =>
      rw [hread] at hkey
      cases hkey
    | ok v => exact ⟨value, v, rfl, hread⟩

end Model

end Rustlavel.Db
