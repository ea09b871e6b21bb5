/-
  What a cached thing is stored under, and when two things are stored under the same key.
-/

import Rustlavel.Db.Value

open Double (Whole)

namespace Rustlavel.ModelCache

open Db String Json

/-! ## The keys -/

def keyPrefix : String := "rl:mc"

variable (table table' : String) (key : String)

def entity : String := keyPrefix ++ ":e:" ++ table ++ ":" ++ key

/-- `width` hexadecimal digits, with zeros in front. -/
def hexDigits : Nat → Nat → List Char
  | 0, _ => []
  | width + 1, n => hexDigits width (n / 16) ++ [hexDigit (n % 16)]

def query (fingerprint : UInt64) : String :=
  keyPrefix ++ ":q:" ++ table ++ ":" ++ ofList (hexDigits 16 fingerprint.toNat)

def generation : String := keyPrefix ++ ":g:" ++ table

def jsonText (value : Value) : String := value.toJson.text Whole.text

/-- The bytes that are hashed: every text is followed by `0xff`. -/
def fingerprintInput (sql : String) (bindings : List Value) : List UInt8 :=
  (sql :: bindings.map jsonText).flatMap fun s => utf8 s ++ [0xff]

def fingerprint (hash : List UInt8 → UInt64) (sql : String) (bindings : List Value) : UInt64 :=
  hash (fingerprintInput sql bindings)

/-! ## Keys are told apart -/

theorem entity_inj {table key key' : String} : entity table key = entity table key' ↔ key = key' :=
  ⟨fun h => (append_right_inj _).mp h, fun h => by rw [h]⟩

theorem hexDigit_inj : ∀ m < 16, ∀ n < 16, hexDigit m = hexDigit n → m = n := by decide

theorem hexDigits_inj {width m n : Nat} (hm : m < 16 ^ width) (hn : n < 16 ^ width)
    (h : hexDigits width m = hexDigits width n) : m = n := by
  induction width generalizing m n with
  | zero =>
    omega
  | succ width ih =>
    obtain ⟨hfront, hlast⟩ := List.append_inj' h rfl
    have hdigit := hexDigit_inj _ (Nat.mod_lt m (by decide)) _ (Nat.mod_lt n (by decide)) (List.cons.inj hlast).1
    have hrest := ih (by omega) (by omega) hfront
    omega

theorem query_inj {table : String} {f g : UInt64} : query table f = query table g ↔ f = g := by
  refine ⟨fun h => ?_, fun h => by rw [h]⟩
  have hdigits := ofList_injective ((append_right_inj _).mp h)
  exact UInt64.toNat_inj.mp (hexDigits_inj f.toNat_lt g.toNat_lt hdigits)

theorem query_ne_generation (f : UInt64) : query table f ≠ generation table' := by
  intro h
  have hchar := congrArg (fun s : String => s.toList[6]?) h
  simp [query, generation, keyPrefix, toList_append] at hchar

theorem entity_ne_generation : entity table key ≠ generation table' := by
  intro h
  have hchar := congrArg (fun s : String => s.toList[6]?) h
  simp [entity, generation, keyPrefix, toList_append] at hchar

theorem entity_ne_query (f : UInt64) : entity table key ≠ query table' f := by
  intro h
  have hchar := congrArg (fun s : String => s.toList[6]?) h
  simp [entity, query, keyPrefix, toList_append] at hchar

theorem fingerprintInput_inj {sql : String} {bindings bindings' : List Value}
    (h : fingerprintInput sql bindings = fingerprintInput sql bindings') :
    bindings.map jsonText = bindings'.map jsonText := by
  have hfree := PrefixFree.of_mark (fun _ _ => utf8_inj) not_mem_utf8
  exact (List.cons.inj (hfree.flatMap_inj (by simp) h)).2

/-! ## Values that share a text -/

inductive Key where
  | int (n : Int)
  | text (s : String)
  | bytes (bs : List UInt8)
  deriving DecidableEq

namespace Key

def toValue : Key → Value
  | .int n => .int n
  | .text s => .text s
  | .bytes bs => .bytes bs

/-- Whole numbers that round to one double, byte strings of one length, and a byte
    string and the text that says its length. -/
def Alike : Key → Key → Prop
  | .int m, .int n => Double.round m = Double.round n
  | .text s, .text t => s = t
  | .bytes as, .bytes bs => as.length = bs.length
  | .bytes bs, .text s | .text s, .bytes bs => s = lengthText bs
  | .int _, .text _ | .int _, .bytes _ | .text _, .int _ | .bytes _, .int _ => False

instance (k l : Key) : Decidable (Alike k l) := by
  cases k <;> cases l <;> unfold Alike <;> infer_instance

end Key

theorem lengthText_inj {as bs : List UInt8} : lengthText as = lengthText bs ↔ as.length = bs.length := by
  refine ⟨fun h => ?_, fun h => by rw [lengthText, h, lengthText]⟩
  have hnum := (append_left_inj _).mp h
  exact Double.repr_inj ((append_right_inj _).mp hnum)

theorem jsonText_int_inj {m n : Int} : jsonText (.int m) = jsonText (.int n) ↔ Double.round m = Double.round n := by
  rw [← Whole.ofInt_eq_iff, ← Whole.text_inj]
  refine ⟨fun h => ?_, fun h => ?_⟩
  · exact toList_inj.mp (ofList_injective h)
  · show ofList (Whole.text _).toList = ofList (Whole.text _).toList
    rw [h]

theorem jsonText_string_inj {s t : String} : jsonText (.text s) = jsonText (.text t) ↔ s = t :=
  ⟨fun h => escape_inj.mp (ofList_injective h), fun h => by rw [h]⟩

theorem jsonText_int_ne (n : Int) (s : String) : jsonText (.int n) ≠ jsonText (.text s) := by
  intro h
  have hlist : (Whole.text (.ofInt n)).toList = escape s := ofList_injective h
  have hmem : '"' ∈ (Whole.text (.ofInt n)).toList := hlist ▸ List.mem_cons_self ..
  rw [Whole.text, String.toList_append] at hmem
  rcases List.mem_append.mp hmem with hmem | hmem
  · split at hmem <;> exact absurd hmem (by decide)
  · rw [Nat.toList_repr] at hmem
    exact absurd (Nat.isDigit_of_mem_toDigits (by decide) (by decide) hmem) (by decide)

theorem jsonText_eq_iff (k l : Key) : jsonText k.toValue = jsonText l.toValue ↔ k.Alike l := by
  cases k with
  | int m =>
    cases l with
    | int => exact jsonText_int_inj
    | text s => exact ⟨jsonText_int_ne m s, False.elim⟩
    | bytes bs => exact ⟨fun h => jsonText_int_ne m (lengthText bs) h, False.elim⟩
  | text s =>
    cases l with
    | int n => exact ⟨fun h => jsonText_int_ne n s h.symm, False.elim⟩
    | text => exact jsonText_string_inj
    | bytes bs => exact jsonText_string_inj (t := lengthText bs)
  | bytes as =>
    cases l with
    | int n => exact ⟨fun h => jsonText_int_ne n (lengthText as) h.symm, False.elim⟩
    | text s => exact (jsonText_string_inj (s := lengthText as)).trans eq_comm
    | bytes => exact (jsonText_string_inj (s := lengthText as)).trans lengthText_inj

theorem map_jsonText_eq_iff {ks ls : List Key} :
    (ks.map Key.toValue).map jsonText = (ls.map Key.toValue).map jsonText ↔ List.Forall₂ Key.Alike ks ls := by
  induction ks generalizing ls with
  | nil =>
    cases ls with
    | nil => exact ⟨fun _ => .nil, fun _ => rfl⟩
    | cons => exact ⟨nofun, nofun⟩
  | cons k ks ih =>
    cases ls with
    | nil => exact ⟨nofun, nofun⟩
    | cons =>
      rw [List.forall₂_cons, ← ih, ← jsonText_eq_iff]
      simp only [List.map_cons, List.cons.injEq]

end Rustlavel.ModelCache
