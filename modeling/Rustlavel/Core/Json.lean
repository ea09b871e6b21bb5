/-
  JSON values and their compact text. The type of numbers is a parameter: each use brings the doubles it needs
  and how they are written.
-/

import Rustlavel.Lib.PrefixCode

namespace Rustlavel

open List

inductive Json (N : Type) where
  | null
  | bool (b : Bool)
  | number (n : N)
  | string (s : String)
  | array (items : List (Json N))
  | object (fields : List (String × Json N))

namespace Json

variable {N : Type}

def asStr : Json N → Option String
  | .string s => some s
  | _ => none

def asNumber : Json N → Option N
  | .number n => some n
  | _ => none

def asArray : Json N → Option (List (Json N))
  | .array items => some items
  | _ => none

def get (key : String) : Json N → Option (Json N)
  | .object fields => fields.lookup key
  | _ => none

def insertField (key : String) (value : Json N) : List (String × Json N) → List (String × Json N)
  | [] => [(key, value)]
  | (key', value') :: fields =>
    if key = key' then (key, value) :: fields
    else if key < key' then (key, value) :: (key', value') :: fields
    else (key', value') :: insertField key value fields

def ofPairs (pairs : List (String × Json N)) : Json N :=
  .object (pairs.foldl (fun fields pair => insertField pair.1 pair.2 fields) [])

theorem lookup_insertField (key k : String) (value : Json N) (fields : List (String × Json N)) :
    (insertField key value fields).lookup k = if k = key then some value else fields.lookup k := by
  by_cases hk : k = key
  · subst hk
    rw [if_pos rfl]
    induction fields with
    | nil => exact lookup_cons_self
    | cons field fields ih =>
      unfold insertField
      split
      · exact lookup_cons_self
      · split
        · exact lookup_cons_self
        · rename_i hne _
          rw [lookup_cons, beq_eq_false_iff_ne.mpr hne]
          exact ih
  · have hbeq := beq_eq_false_iff_ne.mpr hk
    rw [if_neg hk]
    induction fields with
    | nil => simp only [insertField, lookup_cons, hbeq, lookup_nil]
    | cons field fields ih =>
      obtain ⟨key', value'⟩ := field
      unfold insertField
      split
      · rename_i heq
        subst heq
        simp only [lookup_cons, hbeq]
      · split
        · simp only [lookup_cons, hbeq]
        · simp only [lookup_cons, ih]

theorem lookup_foldl_insertField {k : String} {value : Json N} :
    ∀ (pairs fields : List (String × Json N)), (∀ pair ∈ pairs, pair.1 = k → pair.2 = value) →
      ((∃ pair ∈ pairs, pair.1 = k) ∨ fields.lookup k = some value) →
      (pairs.foldl (fun fields pair => insertField pair.1 pair.2 fields) fields).lookup k = some value
  | [], fields, _, hfound => by
    rcases hfound with ⟨pair, hmem, -⟩ | hfound
    · exact absurd hmem not_mem_nil
    · exact hfound
  | pair :: pairs, fields, hagree, hfound => by
    refine lookup_foldl_insertField pairs _ (fun p hp => hagree p (mem_cons_of_mem _ hp)) ?_
    by_cases hk : pair.1 = k
    · refine .inr ?_
      rw [lookup_insertField, if_pos hk.symm, hagree pair mem_cons_self hk]
    · rcases hfound with ⟨p, hmem, hp⟩ | hfound
      · rcases mem_cons.mp hmem with rfl | hmem
        · exact absurd hp hk
        · exact .inl ⟨p, hmem, hp⟩
      · refine .inr ?_
        rw [lookup_insertField, if_neg (Ne.symm hk)]
        exact hfound

/-! ## Strings -/

def hexDigit (n : Nat) : Char := if n < 10 then Char.ofNat (48 + n) else Char.ofNat (87 + n)

def escapeChar (c : Char) : List Char :=
  if c = '"' then ['\\', '"']
  else if c = '\\' then ['\\', '\\']
  else if c = '\n' then ['\\', 'n']
  else if c = '\r' then ['\\', 'r']
  else if c = '\t' then ['\\', 't']
  else if c.toNat = 0x08 then ['\\', 'b']
  else if c.toNat = 0x0c then ['\\', 'f']
  -- so that embedded JSON does not close a script tag
  else if c = '<' then ['\\', 'u', '0', '0', '3', 'c']
  else if c.toNat < 0x20 then
    ['\\', 'u', '0', '0', hexDigit (c.toNat / 16), hexDigit (c.toNat % 16)]
  else [c]

def escape (s : String) : List Char := '"' :: s.toList.flatMap escapeChar ++ ['"']

def special : List Char := '"' :: '\\' :: '<' :: (List.range 32).map Char.ofNat

theorem escapeChar_eq_self {c : Char} (h : c ∉ special) : escapeChar c = [c] ∧ c ≠ '\\' := by
  have hctl : ¬ c.toNat < 0x20 := by
    intro hlt
    refine h ?_
    simp only [special, mem_cons, mem_map, mem_range]
    exact .inr (.inr (.inr ⟨c.toNat, hlt, Char.ofNat_toNat c⟩))
  have hne : ∀ x ∈ special, c ≠ x := fun x hx heq => h (heq ▸ hx)
  refine ⟨?_, hne _ (by decide)⟩
  unfold escapeChar
  rw [if_neg (hne _ (by decide)), if_neg (hne _ (by decide)), if_neg (hne _ (by decide)),
    if_neg (hne _ (by decide)), if_neg (hne _ (by decide)), if_neg (by omega), if_neg (by omega),
    if_neg (hne _ (by decide)), if_neg hctl]

theorem forall_special {P : Char → Prop} [DecidablePred P] (h : special.all (P ·) = true) : ∀ c ∈ special, P c :=
  fun c hc => of_decide_eq_true (all_eq_true.mp h c hc)

theorem escapeChar_special {c : Char} (h : c ∈ special) : ∃ rest, escapeChar c = '\\' :: rest := by
  have hhead : ∀ c ∈ special, (escapeChar c).head? = some '\\' := forall_special (by decide)
  exact List.head?_eq_some_iff.mp (hhead c h)

theorem special_prefixFree : ∀ a ∈ special, ∀ b ∈ special, escapeChar a <+: escapeChar b → a = b := by
  have hall : special.all (fun a => special.all fun b => decide (escapeChar a <+: escapeChar b → a = b)) = true := by
    decide
  intro a ha b hb
  exact of_decide_eq_true (all_eq_true.mp (all_eq_true.mp hall a ha) b hb)

theorem escapeChar_prefixFree : PrefixFree escapeChar := by
  intro a b hpre
  by_cases ha : a ∈ special
  · by_cases hb : b ∈ special
    · exact special_prefixFree a ha b hb hpre
    · obtain ⟨rest, hrest⟩ := escapeChar_special ha
      obtain ⟨hself, hne⟩ := escapeChar_eq_self hb
      rw [hrest, hself] at hpre
      exact absurd (cons_prefix_cons.mp hpre).1.symm hne
  · obtain ⟨hself, hne⟩ := escapeChar_eq_self ha
    by_cases hb : b ∈ special
    · obtain ⟨_, hrest⟩ := escapeChar_special hb
      rw [hself, hrest] at hpre
      exact absurd (cons_prefix_cons.mp hpre).1 hne
    · rw [hself, (escapeChar_eq_self hb).1] at hpre
      exact (cons_prefix_cons.mp hpre).1

theorem escapeChar_ne_nil (c : Char) : escapeChar c ≠ [] := by
  unfold escapeChar
  repeat' split
  all_goals exact cons_ne_nil _ _

theorem escape_inj {s t : String} : escape s = escape t ↔ s = t := by
  refine ⟨fun h => ?_, fun h => by rw [h]⟩
  have hbody := append_cancel_right (List.cons.inj h).2
  exact String.toList_inj.mp (escapeChar_prefixFree.flatMap_inj escapeChar_ne_nil hbody)

/-! ## Text -/

mutual

/-- The compact form, with numbers written by `num`. -/
def write (num : N → String) : Json N → List Char
  | .null => "null".toList
  | .bool true => "true".toList
  | .bool false => "false".toList
  | .number n => (num n).toList
  | .string s => escape s
  | .array items => '[' :: writeItems num items ++ [']']
  | .object fields => '\x7b' :: writeFields num fields ++ ['\x7d']

def writeItems (num : N → String) : List (Json N) → List Char
  | [] => []
  | [item] => write num item
  | item :: items => write num item ++ ',' :: writeItems num items

def writeFields (num : N → String) : List (String × Json N) → List Char
  | [] => []
  | [(key, value)] => escape key ++ ':' :: write num value
  | (key, value) :: fields => escape key ++ ':' :: write num value ++ ',' :: writeFields num fields

end

def text (num : N → String) (value : Json N) : String := String.ofList (value.write num)

end Json

end Rustlavel
