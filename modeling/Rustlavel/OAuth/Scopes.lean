/-
  Scope sets: a sorted set of strings, written on the wire and in the tables as one line with a blank between
  two scopes.
-/

import Rustlavel.Lib.Words

namespace Rustlavel.OAuth

open Words List

/-- `char::is_whitespace`: the characters with the property `White_Space`. -/
def isWhitespace (c : Char) : Bool :=
  let n := c.toNat
  9 ≤ n && n ≤ 13 || n == 0x20 || n == 0x85 || n == 0xA0 || n == 0x1680 ||
    0x2000 ≤ n && n ≤ 0x200A || n == 0x2028 || n == 0x2029 || n == 0x202F || n == 0x205F ||
    n == 0x3000

variable (raw : String)

def splitWhitespace : List String := (words isWhitespace raw.toList).map String.ofList

structure Scopes where
  values : List String
  sorted : values.Pairwise (· < ·)
  deriving DecidableEq

namespace Scopes

variable {s t granted : Scopes}

@[ext] theorem ext (h : s.values = t.values) : s = t := by
  cases s
  cases t
  cases h
  rfl

instance : Membership String Scopes := ⟨fun s w => w ∈ s.values⟩

instance (w : String) (s : Scopes) : Decidable (w ∈ s) := inferInstanceAs (Decidable (w ∈ s.values))

instance : HasSubset Scopes := ⟨fun s t => ∀ w ∈ s.values, w ∈ t.values⟩

instance (s t : Scopes) : Decidable (s ⊆ t) :=
  inferInstanceAs (Decidable (∀ w ∈ s.values, w ∈ t.values))

theorem subset_trans {s t u : Scopes} (h : s ⊆ t) (h' : t ⊆ u) : s ⊆ u := fun w hw => h' w (h w hw)

/-! ## Operations -/

def of (scopes : List String) : Scopes where
  values := (scopes.insertionSort (· ≤ ·)).dedup
  sorted := by
    have hle := (pairwise_insertionSort (· ≤ ·) scopes).sublist (dedup_sublist _)
    exact (hle.and (nodup_dedup _)).imp fun h => lt_of_le_of_ne h.1 h.2

def parse : Scopes := of (splitWhitespace raw)

def new : Scopes := of []

def covers (s required : Scopes) : Bool := decide (required ⊆ s)

def intersect (s allowed : Scopes) : Scopes where
  values := s.values.filter (· ∈ allowed.values)
  sorted := s.sorted.filter _

def beyond (s allowed : Scopes) : Scopes where
  values := s.values.filter (· ∉ allowed.values)
  sorted := s.sorted.filter _

def isEmpty (s : Scopes) : Bool := s.values.isEmpty

def display (s : Scopes) : String := " ".intercalate s.values

instance : ToString Scopes := ⟨display⟩

theorem mem_of {scopes : List String} {w : String} : w ∈ (of scopes).values ↔ w ∈ scopes :=
  mem_dedup.trans (perm_insertionSort _ _).mem_iff

theorem subset_of_beyond (h : (s.beyond granted).isEmpty = true) : s ⊆ granted := by
  intro w hw
  by_contra hbeyond
  have hmem : w ∈ (s.beyond granted).values := mem_filter.mpr ⟨hw, by simpa using hbeyond⟩
  rw [List.isEmpty_iff.mp h] at hmem
  cases hmem

theorem intersect_subset (s allowed : Scopes) : s.intersect allowed ⊆ s := fun _ hw => (mem_filter.mp hw).1

theorem intersect_subset_allowed (s allowed : Scopes) : s.intersect allowed ⊆ allowed :=
  fun _ hw => of_decide_eq_true (mem_filter.mp hw).2

/-! ## Writing and reading -/

def Plain (s : Scopes) : Prop := ∀ w ∈ s.values, IsWord isWhitespace w.toList

theorem plain_parse : (parse raw).Plain := by
  intro w hw
  obtain ⟨_, hchars, rfl⟩ := mem_map.mp (mem_of.mp hw)
  rw [String.toList_ofList]
  exact isWord_of_mem_words hchars

theorem plain_new : new.Plain := nofun

theorem Plain.subset (ht : t.Plain) (h : s ⊆ t) : s.Plain := fun w hw => ht w (h w hw)

theorem of_values (s : Scopes) : of s.values = s := by
  have hsorted := (s.sorted.imp le_of_lt).insertionSort_eq
  have hnodup : s.values.Nodup := s.sorted.imp ne_of_lt
  refine Scopes.ext ?_
  show (s.values.insertionSort (· ≤ ·)).dedup = s.values
  rw [hsorted, hnodup.dedup]

theorem parse_display (h : s.Plain) : parse s.display = s := by
  have hwords : words isWhitespace s.display.toList = s.values.map String.toList := by
    unfold display
    rw [String.toList_intercalate]
    refine words_intercalate rfl fun w hw => ?_
    obtain ⟨v, hv, rfl⟩ := mem_map.mp hw
    exact h v hv
  have hsplit : splitWhitespace s.display = s.values := by
    unfold splitWhitespace
    rw [hwords, map_map]
    exact map_id'' (fun _ => String.ofList_toList) _
  unfold parse
  rw [hsplit, of_values]

/-- A scope with a blank in it is read back as two. -/
example : (parse (of ["read write"]).display).values = ["read", "write"] := by decide

end Scopes

end Rustlavel.OAuth
