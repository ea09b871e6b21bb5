/-
  Huffman's construction over a priority queue, without building the tree: the queue holds `(weight, node)`
  pairs, a step replaces the two lightest nodes by a fresh one carrying their joint weight, and `depths` records
  how far below the last node standing each node ends up.
-/

import Mathlib

namespace HuffmanTree

open List Nat

abbrev Entry : Type := Nat × Nat

/-! ## The queue -/

def push (e : Entry) : List Entry → List Entry
  | [] => [e]
  | x :: xs => if e.1 < x.1 ∨ (e.1 = x.1 ∧ e.2 ≤ x.2) then e :: x :: xs else x :: push e xs

variable (es : List Entry)

def ofList : List Entry := es.foldr push []

def Sorted (h : List Entry) : Prop := h.Pairwise fun x y => x.1 ≤ y.1

theorem push_perm (e : Entry) (h : List Entry) : (push e h).Perm (e :: h) := by
  induction h with
  | nil => exact List.Perm.refl _
  | cons x xs ih =>
    rw [push]
    split
    · exact List.Perm.refl _
    · exact (List.Perm.cons x ih).trans (List.Perm.swap e x xs)

@[simp] theorem length_push (e : Entry) (h : List Entry) : (push e h).length = h.length + 1 :=
  (push_perm e h).length_eq

variable {e : Entry} {h : List Entry}

theorem mem_push {x : Entry} : x ∈ push e h ↔ x = e ∨ x ∈ h := by
  rw [(push_perm e h).mem_iff, mem_cons]

theorem sorted_push (e : Entry) (hh : Sorted h) : Sorted (push e h) := by
  induction h with
  | nil => exact pairwise_singleton ..
  | cons x xs ih =>
    obtain ⟨hx, hxs⟩ := pairwise_cons.mp hh
    rw [push]
    split
    case isTrue hlt =>
      refine pairwise_cons.mpr ⟨fun y hy => ?_, hh⟩
      rcases mem_cons.mp hy with rfl | hy
      · omega
      · have := hx y hy
        omega
    case isFalse hge =>
      refine pairwise_cons.mpr ⟨fun y hy => ?_, ih hxs⟩
      rcases mem_push.mp hy with rfl | hy
      · omega
      · exact hx y hy

theorem ofList_perm : (ofList es).Perm es := by
  induction es with
  | nil => exact List.Perm.refl _
  | cons e es ih => exact (push_perm e (ofList es)).trans (List.Perm.cons e ih)

theorem sorted_ofList : Sorted (ofList es) := by
  induction es with
  | nil => exact List.Pairwise.nil
  | cons e es ih => exact sorted_push e ih

/-! ## Depths -/

/-- How far below the last node standing each node of the queue ends up, when
    fresh nodes are numbered from `next` on. -/
def depths : List Entry → Nat → Nat → Nat
  | (w1, a) :: (w2, b) :: rest, next, x =>
    if x = a ∨ x = b then depths (push (w1 + w2, next) rest) (next + 1) next + 1
    else depths (push (w1 + w2, next) rest) (next + 1) x
  | [_], _, _ => 0
  | [], _, _ => 0
termination_by h => h.length
decreasing_by all_goals simp

/-- What the construction keeps true of its queue: distinct nodes, all older than
    the next fresh one, in order of weight. -/
structure Ready (h : List Entry) (next : Nat) : Prop where
  nodup : (h.map Prod.snd).Nodup
  lt_next : ∀ e ∈ h, e.2 < next
  sorted : Sorted h

section

variable {w1 w2 a b next : Nat} {rest : List Entry}

theorem Ready.step (hr : Ready ((w1, a) :: (w2, b) :: rest) next) : Ready (push (w1 + w2, next) rest) (next + 1) := by
  obtain ⟨hnodup, hlt, hsorted⟩ := hr
  have hlt' : ∀ e ∈ rest, e.2 < next := fun e he => hlt e (by simp [he])
  simp only [map_cons, nodup_cons] at hnodup
  refine ⟨?_, ?_, sorted_push _ (pairwise_cons.mp (pairwise_cons.mp hsorted).2).2⟩
  · rw [((push_perm (w1 + w2, next) rest).map Prod.snd).nodup_iff, map_cons, nodup_cons]
    refine ⟨?_, hnodup.2.2⟩
    intro hmem
    obtain ⟨e, he, heq⟩ := mem_map.mp hmem
    exact absurd (hlt' e he) (by simp only at heq; omega)
  · intro e he
    rcases mem_push.mp he with rfl | he
    · exact lt_succ_self _
    · exact lt_succ_of_lt (hlt' e he)

theorem depths_of_mem_rest (hr : Ready ((w1, a) :: (w2, b) :: rest) next) {e : Entry} (he : e ∈ rest) :
    depths ((w1, a) :: (w2, b) :: rest) next e.2 = depths (push (w1 + w2, next) rest) (next + 1) e.2 := by
  have hnodup := hr.nodup
  simp only [map_cons, nodup_cons, mem_cons, mem_map, not_or] at hnodup
  rw [depths, if_neg]
  rintro (h | h)
  · exact hnodup.1.2 ⟨e, he, h⟩
  · exact hnodup.2.1 ⟨e, he, h⟩

theorem depths_left : depths ((w1, a) :: (w2, b) :: rest) next a =
    depths (push (w1 + w2, next) rest) (next + 1) next + 1 := by
  rw [depths, if_pos (.inl rfl)]

theorem depths_right : depths ((w1, a) :: (w2, b) :: rest) next b =
    depths (push (w1 + w2, next) rest) (next + 1) next + 1 := by
  rw [depths, if_pos (.inr rfl)]

end

theorem depths_lt_length (h : List Entry) (next x : Nat) (hne : h ≠ []) : depths h next x < h.length := by
  induction hn : h.length using Nat.strong_induction_on generalizing h next x with
  | _ n ih =>
    match h with
    | [] => exact absurd rfl hne
    | [e] => rw [depths, ← hn]; exact one_pos
    | (w1, a) :: (w2, b) :: rest =>
      simp only [length_cons] at hn
      have hrec := fun y => ih (rest.length + 1) (by omega) (push (w1 + w2, next) rest) (next + 1)
        y (ne_nil_of_length_pos (by simp)) (length_push _ _)
      rw [depths]
      split
      · have := hrec next
        omega
      · have := hrec x
        omega

theorem depths_pos (h : List Entry) (next : Nat) (hr : Ready h next) (hlen : 2 ≤ h.length) (he : e ∈ h) :
    1 ≤ depths h next e.2 := by
  induction hn : h.length using Nat.strong_induction_on generalizing h next e with
  | _ n ih =>
    match h with
    | [] => simp at hlen
    | [_] => simp at hlen
    | (w1, a) :: (w2, b) :: rest =>
      simp only [mem_cons] at he
      rcases he with rfl | rfl | he
      · rw [depths_left]
        exact Nat.le_add_left ..
      · rw [depths_right]
        exact Nat.le_add_left ..
      · have hrest : 1 ≤ rest.length := length_pos_of_mem he
        simp only [length_cons] at hn
        rw [depths_of_mem_rest hr he]
        exact ih (rest.length + 1) (by omega) _ _ hr.step (by simp; omega) (mem_push.mpr (.inr he)) (length_push _ _)

/-! ## Kraft's equality -/

/-- The Kraft sum of a queue under given depths, in units of `2 ^ -d`. -/
def kraft (d : Nat) (depth : Nat → Nat) (h : List Entry) : Nat := (h.map fun e => 2 ^ (d - depth e.2)).sum

theorem kraft_depths (d : Nat) (h : List Entry) (next : Nat) (hr : Ready h next) (hne : h ≠ [])
    (hd : ∀ e ∈ h, depths h next e.2 ≤ d) : kraft d (depths h next) h = 2 ^ d := by
  induction hn : h.length using Nat.strong_induction_on generalizing h next with
  | _ n ih =>
    match h with
    | [] => exact absurd rfl hne
    | [e] => simp [kraft, depths]
    | (w1, a) :: (w2, b) :: rest =>
      simp only [length_cons] at hn
      let h' := push (w1 + w2, next) rest
      have hroot : depths h' (next + 1) next + 1 ≤ d := by
        have := hd (w1, a) (by simp)
        rwa [depths_left] at this
      have hrest : ∀ e ∈ rest, depths ((w1, a) :: (w2, b) :: rest) next e.2 =
          depths h' (next + 1) e.2 := fun e he => depths_of_mem_rest hr he
      have hd' : ∀ e ∈ h', depths h' (next + 1) e.2 ≤ d := by
        intro e he
        rcases mem_push.mp he with rfl | he
        · simp only
          omega
        · rw [← hrest e he]
          exact hd e (by simp [he])
      have hkraft := ih (rest.length + 1) (by omega) h' (next + 1) hr.step
        (ne_nil_of_length_pos (by simp [h'])) hd' (length_push _ _)
      have hsum : kraft d (depths h' (next + 1)) h' = 2 ^ (d - depths h' (next + 1) next) +
            (rest.map fun e => 2 ^ (d - depths h' (next + 1) e.2)).sum := by
        rw [kraft, ((push_perm (w1 + w2, next) rest).map _).sum_eq]
        simp
      have hpair : 2 ^ (d - (depths h' (next + 1) next + 1)) * 2 = 2 ^ (d - depths h' (next + 1) next) := by
        rw [← pow_succ]
        congr 1
        omega
      rw [kraft, map_cons, map_cons, sum_cons, sum_cons, depths_left,
        depths_right, map_congr_left fun e he => by rw [hrest e he]]
      rw [hsum, ← hpair] at hkraft
      rw [← hkraft]
      ring

/-! ## The Fibonacci bound -/

def total (h : List Entry) : Nat := (h.map Prod.fst).sum

theorem total_step (w1 w2 a b next : Nat) (rest : List Entry) :
    total (push (w1 + w2, next) rest) = total ((w1, a) :: (w2, b) :: rest) := by
  rw [total, ((push_perm (w1 + w2, next) rest).map Prod.fst).sum_eq]
  simp [total]
  omega

theorem fib_mul_le_total (h : List Entry) (next u : Nat) (hr : Ready h next)
    (he : e ∈ h) (hu : ∀ x ∈ h, x ≠ e → u ≤ x.1) :
    fib (depths h next e.2 + 1) * e.1 + fib (depths h next e.2) * u ≤ total h := by
  induction hn : h.length using Nat.strong_induction_on generalizing h next u e with
  | _ n ih =>
    match h with
    | [] => simp at he
    | [x] =>
      obtain rfl : e = x := by simpa using he
      simp [depths, total]
    | (w1, a) :: (w2, b) :: rest =>
      simp only [length_cons] at hn
      let h' := push (w1 + w2, next) rest
      have hrec := fun u (e : Entry) he hu =>
        ih (rest.length + 1) (by omega) h' (next + 1) u hr.step (e := e) he hu (length_push _ _)
      have hsorted := hr.sorted
      obtain ⟨hle1, hsorted'⟩ := pairwise_cons.mp hsorted
      obtain ⟨hle2, -⟩ := pairwise_cons.mp hsorted'
      have h12 : w1 ≤ w2 := hle1 (w2, b) (by simp)
      have htotal : total h' = total ((w1, a) :: (w2, b) :: rest) := total_step ..
      have hab : a ≠ b := by
        have := hr.nodup
        simp only [map_cons, nodup_cons, mem_cons, not_or] at this
        exact this.1.1
      -- the merged node: everything left weighs at least `w₂`
      have hroot := hrec w2 (w1 + w2, next) (mem_push.mpr (.inl rfl)) (by
        intro x hx hxe
        rcases mem_push.mp hx with rfl | hx
        · exact absurd rfl hxe
        · exact hle2 x hx)
      rw [htotal] at hroot
      have hfib := fib_add_two (n := depths h' (next + 1) next)
      simp only [mem_cons] at he
      rcases he with rfl | rfl | he
      · have hu2 : u ≤ w2 := hu (w2, b) (by simp) (by simp [hab.symm])
        refine le_trans ?_ hroot
        rw [depths_left, hfib]
        have := mul_le_mul_left (fib (depths h' (next + 1) next)) h12
        have := mul_le_mul_left (fib (depths h' (next + 1) next + 1)) hu2
        linarith
      · have hu1 : u ≤ w1 := hu (w1, a) (by simp) (by simp [hab])
        refine le_trans ?_ hroot
        rw [depths_right, hfib]
        have := mul_le_mul_left (fib (depths h' (next + 1) next + 1)) hu1
        linarith
      · have hnodup := hr.nodup
        simp only [map_cons, nodup_cons, mem_cons, mem_map, not_or] at hnodup
        have hne_a : (w1, a) ≠ e := fun heq => hnodup.1.2 ⟨e, he, by rw [← heq]⟩
        rw [depths_of_mem_rest hr he, ← htotal]
        apply hrec u e (mem_push.mpr (.inr he))
        intro x hx hxe
        rcases mem_push.mp hx with rfl | hx
        · exact le_trans (hu (w1, a) (by simp) hne_a) (Nat.le_add_right ..)
        · exact hu x (by simp [hx]) hxe

theorem fib_le_total (h : List Entry) (next : Nat) (hr : Ready h next) (hpos : ∀ x ∈ h, 1 ≤ x.1)
    (he : e ∈ h) : fib (depths h next e.2 + 2) ≤ total h := by
  have hmul := fib_mul_le_total h next 1 hr he fun x hx _ => hpos x hx
  have hone := mul_le_mul_left (fib (depths h next e.2 + 1)) (hpos e he)
  rw [fib_add_two]
  omega

/-! ## Equal weights -/

/-- No weight is more than twice another. -/
def Level (h : List Entry) : Prop := ∀ x ∈ h, ∀ y ∈ h, x.1 ≤ 2 * y.1

section

variable {w1 w2 a b next m i : Nat} {rest : List Entry}

theorem push_eq_concat (h : ∀ x ∈ rest, x.1 ≤ e.1 ∧ x.2 < e.2) : push e rest = rest ++ [e] := by
  induction rest with
  | nil => rfl
  | cons x xs ih =>
    have hx := h x mem_cons_self
    rw [push, if_neg (by omega), ih fun y hy => h y (mem_cons_of_mem _ hy), cons_append]

/-- A level queue is first in, first out: what is merged goes to its end. -/
theorem Level.step (hl : Level ((w1, a) :: (w2, b) :: rest)) (hr : Ready ((w1, a) :: (w2, b) :: rest) next) :
    push (w1 + w2, next) rest = rest ++ [(w1 + w2, next)] ∧ Level (push (w1 + w2, next) rest) := by
  obtain ⟨h1, hsorted⟩ := pairwise_cons.mp hr.sorted
  have h12 : w1 ≤ w2 := h1 (w2, b) (by simp)
  have hle : ∀ x ∈ rest, w2 ≤ x.1 ∧ x.1 ≤ 2 * w1 := fun x hx =>
    ⟨(pairwise_cons.mp hsorted).1 x hx, hl x (by simp [hx]) (w1, a) (by simp)⟩
  refine ⟨push_eq_concat fun x hx => ⟨?_, hr.lt_next x (by simp [hx])⟩, fun x hx y hy => ?_⟩
  · have := hle x hx
    omega
  · rcases mem_push.mp hx with rfl | hx <;> rcases mem_push.mp hy with rfl | hy
    · omega
    · have := hle y hy
      omega
    · have := hle x hx
      omega
    · exact hl x (by simp [hx]) y (by simp [hy])

/-- At most `m` levels hold up to `2 ^ m` nodes; those far enough back are a level higher. -/
theorem depths_le_of_level (h : List Entry) (next : Nat) (hr : Ready h next) (hl : Level h)
    (hm : h.length ≤ 2 ^ m) (he : h[i]? = some e) :
    depths h next e.2 + (if 2 * h.length ≤ 2 ^ m + i then 1 else 0) ≤ m := by
  induction hn : h.length generalizing h next m i e with
  | zero => simp [length_eq_zero_iff.mp hn] at he
  | succ n ih =>
    match h with
    | [x] =>
      have hzero : ¬ 2 ≤ 2 ^ 0 := by decide
      obtain ⟨rfl, rfl⟩ : i = 0 ∧ x = e := by simpa [getElem?_cons] using he
      obtain rfl : n = 0 := by simpa using hn
      rw [depths]
      cases m <;> split <;> omega
    | (w1, a) :: (w2, b) :: rest =>
      obtain ⟨hpush, hlevel⟩ := hl.step hr
      obtain rfl : rest.length + 1 = n := by simpa using hn
      have hrec := fun m i e hm he => ih _ (next + 1) hr.step hlevel (m := m) (i := i) (e := e) hm he (length_push _ _)
      have hroot : ∀ m, rest.length + 2 ≤ 2 ^ m → depths (push (w1 + w2, next) rest) (next + 1) next + 1 ≤ m := by
        intro m hm
        have := hrec m rest.length (w1 + w2, next) (by simp; omega) (by simp [hpush])
        rwa [if_pos (by omega)] at this
      have hdouble : 2 * (rest.length + 2) ≤ 2 ^ m + 1 →
          depths (push (w1 + w2, next) rest) (next + 1) next + 2 ≤ m := by
        intro hle
        cases m with
        | zero => omega
        | succ m => exact succ_le_succ (hroot m (by rw [pow_succ] at hle; omega))
      have := hroot m hm
      match i with
      | 0 =>
        obtain rfl : (w1, a) = e := Option.some.inj he
        rw [depths_left]
        split <;> omega
      | 1 =>
        obtain rfl : (w2, b) = e := Option.some.inj he
        rw [depths_right]
        split <;> omega
      | i + 2 =>
        have he : rest[i]? = some e := he
        have hback := hrec m i e (by simp; omega) (by
          rw [hpush, getElem?_append_left (List.getElem?_eq_some_iff.mp he).1, he])
        rw [depths_of_mem_rest hr (mem_of_getElem? he)]
        split <;> split at hback <;> omega

end

end HuffmanTree
