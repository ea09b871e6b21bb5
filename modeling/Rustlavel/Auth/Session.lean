/-
  The session value: what is remembered about one visitor between requests.
-/

import Rustlavel.Core.Json
import Rustlavel.Lib.Double

namespace Rustlavel.Auth

open List

open Double (Whole)

/-- The doubles in session data: how whole ones are embedded, what `as u64` makes of one, and how it is written. -/
class Number (N : Type) where
  whole : Whole → N
  truncate : N → Nat
  text : N → String
  truncate_whole : ∀ x, truncate (whole x) = min x.val.toNat (2 ^ 64 - 1)

instance : Number Whole where
  whole := id
  truncate x := min x.val.toNat (2 ^ 64 - 1)
  text := Whole.text
  truncate_whole _ := rfl

structure Session (N : Type) where
  id : String
  data : List (String × Json N)
  /-- Flashed during this request; must still be readable in the next one. -/
  freshFlash : List String
  /-- Flashed during the previous request; readable now, dropped at its end. -/
  staleFlash : List String
  updatedAt : Nat
  dirty : Bool

namespace Session

variable {N : Type}

def tokenKey : String := "_token"

def withId (now : Nat) (id : String) : Session N where
  id := id
  data := []
  freshFlash := []
  staleFlash := []
  updatedAt := now
  dirty := false

section

variable (s : Session N) (key : String)

def get : Option (Json N) := s.data.lookup key

def getString [Number N] (key : String) : Option String :=
  match s.get key with
  | some (.string value) => some value
  | some .null => none
  | some other => some (String.ofList (other.write Number.text))
  | none => none

def has : Bool := (s.get key).isSome

def put (value : Json N) : Session N := { s with data := Json.insertField key value s.data, dirty := true }

def forget : Session N := { s with
    data := s.data.filter (·.1 ≠ key)
    freshFlash := s.freshFlash.filter (· ≠ key)
    staleFlash := s.staleFlash.filter (· ≠ key)
    dirty := s.dirty || s.has key }

def flush : Session N := { s with data := [], freshFlash := [], staleFlash := [], dirty := true }

def flash (value : Json N) : Session N := { s with freshFlash := s.freshFlash.insert key }.put key value

def keep : Session N :=
  if key ∈ s.staleFlash then
    { s with
      staleFlash := s.staleFlash.filter (· ≠ key)
      freshFlash := s.freshFlash.insert key
      dirty := true }
  else s

def reflash : Session N := { s with
    staleFlash := []
    dirty := s.dirty || !s.staleFlash.isEmpty
    freshFlash := s.freshFlash ∪ s.staleFlash }

/-- One request further: what was flashed in the last one is dropped, what was flashed in this one takes its place. -/
def ageFlash : Session N :=
  let expiring := s.staleFlash.filter (· ∉ s.freshFlash)
  { s with
    data := s.data.filter (·.1 ∉ expiring)
    dirty := s.dirty || !expiring.isEmpty
    staleFlash := s.freshFlash
    freshFlash := [] }

def regenerate (newId : String) : Session N := { { s with id := newId }.forget tokenKey with dirty := true }

def invalidate (newId : String) : Session N := s.flush.regenerate newId

def token [Number N] (drawn : String) : Session N :=
  if (s.getString tokenKey).isSome then s else s.put tokenKey (.string drawn)

def touch (now : Nat) : Session N := { s with updatedAt := now }

/-! ### Storing -/

def toJson [Number N] : Json N := .ofPairs [("data", .object s.data), ("flash", .array (s.staleFlash.map .string)),
     ("updated_at", .number (Number.whole (.ofInt s.updatedAt)))]

def fromJson [Number N] (now : Nat) (id : String) (payload : Json N) : Session N where
  id := id
  data := match payload.get "data" with
    | some (.object data) => data
    | _ => []
  freshFlash := []
  staleFlash := match payload.get "flash" with
    | some (.array keys) => keys.filterMap Json.asStr
    | _ => []
  updatedAt := match (payload.get "updated_at").bind Json.asNumber with
    | some number => Number.truncate number
    | none => now
  dirty := false

end

/-! ## What the operations leave under a key -/

section

variable (s : Session N) (key k newId : String) (value : Json N)

theorem get_put : (s.put key value).get k = if k = key then some value else s.get k :=
  Json.lookup_insertField key k value s.data

theorem lookup_filter_key (p : String → Bool) (fields : List (String × Json N)) :
    (fields.filter fun field => p field.1).lookup k = if p k then fields.lookup k else none := by
  induction fields with
  | nil => split <;> rfl
  | cons field fields ih =>
    obtain ⟨key, _⟩ := field
    rw [filter_cons]
    by_cases hkey : k = key
    · subst hkey
      by_cases hp : p k = true
      · rw [if_pos hp, if_pos hp, lookup_cons_self, lookup_cons_self]
      · rw [if_neg hp, if_neg hp, ih, if_neg hp]
    · have hbeq := beq_eq_false_iff_ne.mpr hkey
      rw [lookup_cons, hbeq, ← ih]
      split
      · rw [lookup_cons, hbeq]
      · rfl

theorem get_forget : (s.forget key).get k = if k = key then none else s.get k := by
  refine (lookup_filter_key k (· ≠ key) s.data).trans ?_
  by_cases hkey : k = key
  · rw [if_pos hkey, if_neg (by simpa using hkey)]
  · rw [if_neg hkey, if_pos (by simpa using hkey)]
    rfl

theorem get_regenerate : (s.regenerate newId).get k = if k = tokenKey then none else s.get k :=
  get_forget { s with id := newId } tokenKey k

theorem get_invalidate : (s.invalidate newId).get k = none := by
  refine (get_regenerate s.flush k newId).trans ?_
  split <;> rfl

theorem getString_of_get [Number N] {v : String} (h : s.get k = some (.string v)) : s.getString k = some v := by
  unfold getString
  rw [h]

theorem getString_of_get_none [Number N] (h : s.get k = none) : s.getString k = none := by
  unfold getString
  rw [h]

end

/-! ## What is stored is read back -/

theorem fromJson_toJson [Number N] (now : Nat) (s : Session N) : fromJson now s.id s.toJson = { s with
        freshFlash := []
        updatedAt := min (Double.roundNat s.updatedAt) (2 ^ 64 - 1)
        dirty := false } := by
  have hseconds : (Whole.ofInt s.updatedAt).val.toNat = Double.roundNat s.updatedAt := Double.toNat_round s.updatedAt
  have hflash : (s.staleFlash.map (Json.string (N := N))).filterMap Json.asStr = s.staleFlash := by
    rw [filterMap_map]
    exact filterMap_some
  simp [fromJson, toJson, Json.ofPairs, Json.get, Json.lookup_insertField, Json.asNumber,
    Number.truncate_whole, hseconds, hflash]

end Session

end Rustlavel.Auth
