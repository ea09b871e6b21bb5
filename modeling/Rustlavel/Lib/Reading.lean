/-
  Reading from a stream through a buffer. A read gives some of the bytes that are left, at least one and at most
  as many as are asked for; how many is not up to the reader (`cuts`).
-/

import Rustlavel.Lib.Outcome

namespace Reading

open Outcome List Option

variable {α β ε : Type}

/-! ## Looking for a pattern -/

section

variable [DecidableEq α]

def position (pat : List α) : List α → Option Nat
  | [] => none
  | x :: xs => if pat.isPrefixOf (x :: xs) then some 0 else (position pat xs).map (· + 1)

variable {pat xs : List α} {i : Nat}

theorem prefix_of_position (h : position pat xs = some i) : pat <+: xs.drop i := by
  induction xs generalizing i with
  | nil => simp [position] at h
  | cons x xs ih =>
    rw [position] at h
    split at h
    · rename_i hpat
      cases h
      exact isPrefixOf_iff_prefix.mp hpat
    · obtain ⟨j, hj, rfl⟩ := map_eq_some_iff.mp h
      have hdrop := ih hj
      simpa using hdrop

theorem position_eq_none (h : ¬ pat <:+: xs) : position pat xs = none := by
  rw [eq_none_iff_forall_ne_some]
  intro i hi
  exact h ((prefix_of_position hi).isInfix.trans (drop_suffix i xs).isInfix)

theorem position_of_infix (h : pat <:+: xs) (hpat : pat ≠ []) : ∃ i, position pat xs = some i := by
  induction xs with
  | nil => exact absurd (infix_nil.mp h) hpat
  | cons x xs ih =>
    rw [position]
    split
    · exact ⟨0, rfl⟩
    · rename_i hfirst
      obtain ⟨i, hi⟩ := ih ((infix_cons_iff.mp h).resolve_left fun hbegins =>
        hfirst (List.isPrefixOf_iff_prefix.mpr hbegins))
      exact ⟨i + 1, by rw [hi]; rfl⟩

theorem add_length_le_of_position (h : position pat xs = some i) (hpat : pat ≠ []) : i + pat.length ≤ xs.length := by
  have hlength := (prefix_of_position h).length_le
  have hpos := length_pos_iff.mpr hpat
  rw [length_drop] at hlength
  omega

theorem position_append (h : position pat xs = some i) (ys : List α) : position pat (xs ++ ys) = some i := by
  induction xs generalizing i with
  | nil => simp [position] at h
  | cons x xs ih =>
    rw [position] at h
    rw [cons_append, position]
    split at h
    · rename_i hpat
      have hlonger : pat.isPrefixOf (x :: (xs ++ ys)) = true := by
        have hbegins := isPrefixOf_iff_prefix.mp hpat
        exact isPrefixOf_iff_prefix.mpr (hbegins.trans (prefix_append (x :: xs) ys))
      rw [if_pos hlonger]
      exact h
    · rename_i hpat
      obtain ⟨j, hj, rfl⟩ := map_eq_some_iff.mp h
      -- the pattern ends within `xs`, so it cannot begin at `x` only because of `ys`
      have hnot : ¬ pat.isPrefixOf (x :: (xs ++ ys)) = true := by
        intro hlonger
        have hbegins := isPrefixOf_iff_prefix.mp hlonger
        have hle : pat.length ≤ (x :: xs).length := by
          have hinside := (prefix_of_position hj).length_le
          rw [length_drop] at hinside
          simp only [length_cons]
          omega
        have hshort := prefix_of_prefix_length_le hbegins (prefix_append (x :: xs) ys) hle
        exact hpat (List.isPrefixOf_iff_prefix.mpr hshort)
      rw [if_neg hnot, ih hj]
      rfl

theorem position_of_append {ys : List α} (h : position pat (xs ++ ys) = some i) (hpat : pat ≠ [])
    (hi : i + pat.length ≤ xs.length) : position pat xs = some i := by
  induction xs generalizing i with
  | nil =>
    have hpos := length_pos_iff.mpr hpat
    simp only [length_nil] at hi
    omega
  | cons x xs ih =>
    rw [cons_append, position] at h
    rw [position]
    split at h
    · rename_i hlonger
      cases h
      have hbegins := isPrefixOf_iff_prefix.mp hlonger
      have hle : pat.length ≤ (x :: xs).length := by omega
      have hshort := prefix_of_prefix_length_le hbegins (prefix_append (x :: xs) ys) hle
      rw [if_pos (List.isPrefixOf_iff_prefix.mpr hshort)]
    · rename_i hlonger
      obtain ⟨j, hj, rfl⟩ := map_eq_some_iff.mp h
      have hnot : ¬ pat.isPrefixOf (x :: xs) = true := by
        intro hshort
        have hbegins := isPrefixOf_iff_prefix.mp hshort
        exact hlonger (List.isPrefixOf_iff_prefix.mpr (hbegins.trans (prefix_append (x :: xs) ys)))
      have hj' : j + pat.length ≤ xs.length := by
        simp only [length_cons] at hi
        omega
      rw [if_neg hnot, ih hj hj']
      rfl

theorem position_pair {a b : α} (hab : a ≠ b) (h : ¬ [a, b] <:+: xs) :
    position [a, b] (xs ++ [a, b]) = some xs.length := by
  induction xs with
  | nil => simp [position]
  | cons x xs ih =>
    have htail : ¬ [a, b] <:+: xs := fun hin => h (hin.trans (suffix_cons x xs).isInfix)
    have hnot : ¬ [a, b].isPrefixOf (x :: (xs ++ [a, b])) = true := by
      intro hbegins
      have hpair := isPrefixOf_iff_prefix.mp hbegins
      obtain ⟨rfl, hrest⟩ := cons_prefix_cons.mp hpair
      cases xs with
      | nil =>
        -- what follows here is the first element of the pattern again
        exact hab (cons_prefix_cons.mp hrest).1.symm
      | cons y ys =>
        obtain ⟨rfl, -⟩ := cons_prefix_cons.mp hrest
        exact h ⟨[], ys, rfl⟩
    rw [cons_append, position, if_neg hnot, ih htail]
    rfl

theorem append_cons_injective {x : α} {a b c d : List α} (ha : x ∉ a) (hb : x ∉ b) (h : a ++ x :: c = b ++ x :: d) :
    a = b ∧ c = d := by
  have hfront : ∀ {front : List α} (back : List α), x ∉ front →
      (front ++ x :: back).takeWhile (fun y => decide (y ≠ x)) = front := by
    intro front back hnot
    rw [takeWhile_append_of_pos fun y hy => decide_eq_true (by rintro rfl; exact hnot hy),
      takeWhile_cons_of_neg (by simp), append_nil]
  have hab : a = b := by
    rw [← hfront c ha, h, hfront d hb]
  subst hab
  exact ⟨rfl, (List.cons.inj (append_cancel_left h)).2⟩

end

/-! ## Sources and buffers -/

/-- What has not been read yet, and how many bytes more than one the coming reads give at most. -/
structure Source (α : Type) where
  pending : List α
  cuts : List Nat
  deriving DecidableEq

/-- A read of at most `n` bytes; none are read at the end only. -/
def Source.read (s : Source α) (n : Nat) : List α × Source α :=
  match s.cuts with
  | [] => (s.pending.take n, { pending := s.pending.drop n, cuts := [] })
  | cut :: cuts =>
    let k := min n (cut + 1)
    (s.pending.take k, { pending := s.pending.drop k, cuts := cuts })

theorem Source.read_spec (s : Source α) (n : Nat) :
    (s.read n).1 ++ (s.read n).2.pending = s.pending ∧ ((s.read n).1 = [] → n = 0 ∨ s.pending = []) := by
  obtain ⟨pending, cuts⟩ := s
  cases cuts with
  | nil =>
    refine ⟨take_append_drop n pending, fun h => ?_⟩
    exact take_eq_nil_iff.mp h
  | cons =>
    refine ⟨take_append_drop _ pending, fun h => ?_⟩
    rcases take_eq_nil_iff.mp h with hzero | hnil
    · left
      omega
    · exact Or.inr hnil

structure Buffered (α : Type) where
  buffer : List α
  source : Source α
  deriving DecidableEq

namespace Buffered

def all (b : Buffered α) : List α := b.buffer ++ b.source.pending

def drain (b : Buffered α) (n : Nat) : Result ε (List α × Buffered α) :=
  if n ≤ b.buffer.length then .ok (b.buffer.take n, { b with buffer := b.buffer.drop n })
  else .error .panic

variable {b : Buffered α}

theorem drain_spec {n : Nat} (h : n ≤ b.buffer.length) :
    ∃ b', drain (ε := ε) b n = .ok (b.all.take n, b') ∧ b'.all = b.all.drop n := by
  refine ⟨{ b with buffer := b.buffer.drop n }, ?_, ?_⟩
  · rw [drain, if_pos h, all, take_append_of_le_length h]
  · rw [all, all, drop_append_of_le_length h]

/-! ## Waiting -/

/-- Read until there is something to see in the buffer; `none` if the stream ends before. -/
def awaitLoop (look : List α → Option β) (ask : List α → Nat) : Nat → Buffered α → Result ε (Option β × Buffered α)
  | 0, _ => .error .diverged
  | fuel + 1, b =>
    match look b.buffer with
    | some x => .ok (some x, b)
    | none =>
      let r := b.source.read (ask b.buffer)
      if r.1.isEmpty then .ok (none, { b with source := r.2 })
      else awaitLoop look ask fuel { buffer := b.buffer ++ r.1, source := r.2 }

variable (look : List α → Option β) (ask : List α → Nat)

def await (b : Buffered α) : Result ε (Option β × Buffered α) :=
  awaitLoop look ask (b.source.pending.length + 1) b

def Settled (stream : List α) : Prop :=
  ∀ front x, front <+: stream → look front = some x → look stream = some x

/-- Nothing is lost, and what was found is in the buffer, or there is nothing to find and all has been read. -/
structure Awaited (look : List α → Option β) (b : Buffered α) (r : Option β × Buffered α) : Prop where
  all : r.2.all = b.all
  found : r.1 = look b.all
  buffer : look r.2.buffer = r.1
  ended : r.1 = none → r.2.buffer = b.all

theorem awaitLoop_spec {look : List α → Option β} {ask : List α → Nat} (hask : ∀ b, look b = none → 0 < ask b)
    {fuel : Nat} (hfuel : b.source.pending.length < fuel) (hsettled : Settled look b.all) :
    ∃ r, awaitLoop (ε := ε) look ask fuel b = .ok r ∧ Awaited look b r := by
  induction fuel generalizing b with
  | zero => omega
  | succ fuel ih =>
    rw [awaitLoop]
    cases hlook : look b.buffer with
    | some x =>
      refine ⟨_, rfl, rfl, ?_, hlook, nofun⟩
      exact (hsettled b.buffer x (prefix_append ..) hlook).symm
    | none =>
      obtain ⟨hsplit, hnil⟩ := b.source.read_spec (ask b.buffer)
      generalize b.source.read (ask b.buffer) = r at hsplit hnil
      obtain ⟨bytes, source⟩ := r
      simp only at hsplit hnil ⊢
      by_cases hbytes : bytes = []
      · -- the end of the stream: the buffer is all there is
        have hpos := hask b.buffer hlook
        have hpending := (hnil hbytes).resolve_left (by omega)
        have hsource : source.pending = [] := by
          rw [hbytes, hpending] at hsplit
          exact hsplit
        have hall : b.all = b.buffer := by rw [all, hpending, append_nil]
        rw [if_pos (by rw [hbytes]; rfl)]
        refine ⟨_, rfl, ?_, ?_, hlook, fun _ => hall.symm⟩
        · rw [hall, all, hsource, append_nil]
        · rw [hall, hlook]
      · have hall : Buffered.all { buffer := b.buffer ++ bytes, source := source } = b.all := by
          rw [all, all, append_assoc, hsplit]
        have hless : source.pending.length < fuel := by
          have hlength := congrArg List.length hsplit
          have hpos := length_pos_iff.mpr hbytes
          rw [length_append] at hlength
          omega
        have hnot : ¬ bytes.isEmpty = true := by simpa using hbytes
        rw [if_neg hnot]
        obtain ⟨r, hr, hawaited⟩ := ih hless (by rw [hall]; exact hsettled)
        refine ⟨r, hr, ?_⟩
        obtain ⟨hall', hfound, hbuffer, hended⟩ := hawaited
        rw [hall] at hall' hfound hended
        exact ⟨hall', hfound, hbuffer, hended⟩

theorem await_spec (hask : ∀ b, look b = none → 0 < ask b)
    (hsettled : Settled look b.all) : ∃ r, await (ε := ε) look ask b = .ok r ∧ Awaited look b r :=
  awaitLoop_spec hask (Nat.lt_succ_self _) hsettled

end Buffered

end Reading
