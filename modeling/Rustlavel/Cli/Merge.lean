/-
  The three-way merge of an upgrade: `rustlavel-cli/src/merge.rs`. A line that occurs once keeps the edits
  before it and after it apart, whatever the alignment makes of the rest.
-/

import Mathlib

namespace Rustlavel.Cli

open List

abbrev Line := List Char

def splitInclusive : List Char → List Line
  | [] => []
  | c :: cs =>
    if c = '\n' then [c] :: splitInclusive cs
    else
      match splitInclusive cs with
      | [] => [[c]]
      | line :: lines => (c :: line) :: lines

/-- A line with its line feed, which is its last character. -/
def Terminated (line : Line) : Prop := ∃ body, '\n' ∉ body ∧ line = body ++ ['\n']

theorem splitInclusive_append {line : Line} (h : Terminated line) (rest : List Char) :
    splitInclusive (line ++ rest) = line :: splitInclusive rest := by
  obtain ⟨body, hbody, rfl⟩ := h
  induction body with
  | nil => simp [splitInclusive]
  | cons c cs ih =>
    have hc : c ≠ '\n' := fun heq => hbody (heq ▸ mem_cons_self)
    have hrest := ih fun hmem => hbody (mem_cons_of_mem c hmem)
    rw [cons_append, cons_append, splitInclusive, if_neg hc, hrest]

variable {lines B a b : List Line} {k x : Nat}

theorem splitInclusive_flatten (h : ∀ line ∈ lines, Terminated line) : splitInclusive lines.flatten = lines := by
  induction lines with
  | nil => rfl
  | cons line lines ih =>
    rw [flatten_cons, splitInclusive_append (h line mem_cons_self),
      ih fun line hmem => h line (mem_cons_of_mem _ hmem)]

/-! ## Alignment -/

def sharedHead : List Line → List Line → Nat
  | x :: xs, y :: ys => if x = y then sharedHead xs ys + 1 else 0
  | _, _ => 0

theorem sharedHead_append (lines xs ys : List Line) :
    sharedHead (lines ++ xs) (lines ++ ys) = lines.length + sharedHead xs ys := by
  induction lines with
  | nil => simp
  | cons line lines ih =>
    rw [cons_append, cons_append, sharedHead, if_pos rfl, ih, length_cons]
    omega

theorem take_sharedHead (a b : List Line) :
    a.take (sharedHead a b) = b.take (sharedHead a b) ∧ sharedHead a b ≤ a.length ∧ sharedHead a b ≤ b.length := by
  fun_induction sharedHead a b with
  | case1 x xs ys ih => exact ⟨by simp [ih.1], by simp [ih.2.1], by simp [ih.2.2]⟩
  | case2 | case3 => simp

variable {A : List Line} {u : Line} {base ours theirs : List Line}

theorem sharedHead_le (C D : List Line) (hne : A ≠ B) (hA : u ∉ A) (hB : u ∉ B) :
    sharedHead (A ++ u :: C) (B ++ u :: D) ≤ A.length ∧ sharedHead (A ++ u :: C) (B ++ u :: D) ≤ B.length := by
  induction A generalizing B with
  | nil =>
    cases B with
    | nil => exact absurd rfl hne
    | cons y =>
      have hy : u ≠ y := fun heq => hB (heq ▸ mem_cons_self)
      simp [sharedHead, hy]
  | cons x A ih =>
    cases B with
    | nil =>
      have hx : x ≠ u := fun heq => hA (heq ▸ mem_cons_self)
      simp [sharedHead, hx]
    | cons y B =>
      rw [cons_append, cons_append, sharedHead]
      split
      · rename_i heq
        subst heq
        have hle := ih (B := B) (fun h => hne (h ▸ rfl)) (fun h => hA (mem_cons_of_mem _ h))
          fun h => hB (mem_cons_of_mem _ h)
        simp only [length_cons]
        omega
      · simp

/-- The cell of the table for what is left of the two. -/
def table : List Line → List Line → Nat
  | x :: xs, y :: ys =>
    if x = y then table xs ys + 1 else max (table xs (y :: ys)) (table (x :: xs) ys)
  | _, _ => 0
termination_by a b => a.length + b.length

/-- The walk through the table, from the line `j` of the other file on. -/
def walk (j : Nat) : List Line → List Line → List (Option Nat)
  | [], _ => []
  | _ :: xs, [] => none :: walk j xs []
  | x :: xs, y :: ys =>
    if x = y then some j :: walk (j + 1) xs ys
    else if table (x :: xs) ys ≤ table xs (y :: ys) then none :: walk j xs (y :: ys)
    else walk (j + 1) (x :: xs) ys
termination_by a b => a.length + b.length

theorem length_walk (j : Nat) (xs ys : List Line) : (walk j xs ys).length = xs.length := by
  fun_induction walk j xs ys <;> simp_all

theorem walk_sound {j : Nat} {xs ys : List Line} (h : (walk j xs ys)[k]? = some (some x)) :
    j ≤ x ∧ ∃ line, xs[k]? = some line ∧ ys[x - j]? = some line := by
  fun_induction walk j xs ys generalizing k with
  | case1 => simp at h
  | case2 j z zs ih =>
    cases k with
    | zero => simp at h
    | succ =>
      obtain ⟨-, line, -, hline⟩ := ih (by simpa using h)
      simp at hline
  | case3 j zs z ys ih =>
    cases k with
    | zero =>
      obtain rfl : j = x := by simpa using h
      exact ⟨Nat.le_refl j, z, rfl, by simp⟩
    | succ =>
      obtain ⟨hle, line, hzs, hys⟩ := ih (by simpa using h)
      refine ⟨by omega, line, hzs, ?_⟩
      rw [show x - j = x - (j + 1) + 1 by omega, getElem?_cons_succ, hys]
  | case4 j z zs y ys hne hle ih =>
    cases k with
    | zero => simp at h
    | succ => exact ih (by simpa using h)
  | case5 j z zs y ys hne hle ih =>
    obtain ⟨_, line, hzs, hys⟩ := ih h
    refine ⟨by omega, line, hzs, ?_⟩
    rw [show x - j = x - (j + 1) + 1 by omega, getElem?_cons_succ, hys]

def budget : Nat := 4000000

/-- What is between the shared head and the shared tail; beyond the budget nothing is matched. -/
def middle (head : Nat) (a b : List Line) : List (Option Nat) :=
  if a.isEmpty ∨ b.isEmpty ∨ budget < a.length * b.length then a.map fun _ => none else walk head a b

def sharedTail (a b : List Line) : Nat :=
  sharedHead (a.drop (sharedHead a b)).reverse (b.drop (sharedHead a b)).reverse

/-- Where each line of `a` is in `b`. -/
def align (a b : List Line) : List (Option Nat) :=
  let head := sharedHead a b
  let tail := sharedTail a b
  (range head).map some ++
    middle head ((a.take (a.length - tail)).drop head) ((b.take (b.length - tail)).drop head) ++
    (range tail).map fun i => some (b.length - tail + i)

theorem middle_sound {head : Nat} (h : (middle head a b)[k]? = some (some x)) :
    head ≤ x ∧ ∃ line, a[k]? = some line ∧ b[x - head]? = some line := by
  unfold middle at h
  split at h
  · rw [getElem?_map] at h
    cases hline : a[k]? <;> simp [hline] at h
  · exact walk_sound h

theorem length_middle (head : Nat) (a b : List Line) : (middle head a b).length = a.length := by
  unfold middle
  split
  · simp
  · exact length_walk head a b

theorem sharedTail_le (a b : List Line) :
    sharedHead a b + sharedTail a b ≤ a.length ∧ sharedHead a b + sharedTail a b ≤ b.length := by
  obtain ⟨-, _, _⟩ := take_sharedHead a b
  obtain ⟨-, ha', hb'⟩ := take_sharedHead (a.drop (sharedHead a b)).reverse (b.drop (sharedHead a b)).reverse
  simp only [length_reverse, length_drop] at ha' hb'
  unfold sharedTail
  omega

theorem drop_sharedTail (a b : List Line) :
    a.drop (a.length - sharedTail a b) = b.drop (b.length - sharedTail a b) := by
  obtain ⟨_, _⟩ := sharedTail_le a b
  have htake := (take_sharedHead (a.drop (sharedHead a b)).reverse (b.drop (sharedHead a b)).reverse).1
  change List.take (sharedTail a b) _ = List.take (sharedTail a b) _ at htake
  rw [take_reverse, take_reverse, reverse_inj, drop_drop, drop_drop, length_drop, length_drop] at htake
  rwa [show sharedHead a b + (a.length - sharedHead a b - sharedTail a b) = a.length - sharedTail a b by omega,
    show sharedHead a b + (b.length - sharedHead a b - sharedTail a b) = b.length - sharedTail a b by omega] at htake

theorem getElem?_align (a b : List Line) (k : Nat) : (align a b)[k]? = if k < sharedHead a b then some (some k)
      else if k < a.length - sharedTail a b then
        (middle (sharedHead a b) ((a.take (a.length - sharedTail a b)).drop (sharedHead a b))
          ((b.take (b.length - sharedTail a b)).drop (sharedHead a b)))[k - sharedHead a b]?
      else if k < a.length then some (some (b.length - sharedTail a b + (k - (a.length - sharedTail a b))))
      else none := by
  obtain ⟨_, _⟩ := sharedTail_le a b
  simp only [align, getElem?_append, length_append, length_map, length_range, length_middle,
    length_drop, length_take, getElem?_map]
  rw [show sharedHead a b + (min (a.length - sharedTail a b) a.length - sharedHead a b) =
    a.length - sharedTail a b by omega]
  by_cases hhead : k < sharedHead a b
  · rw [if_pos (show k < a.length - sharedTail a b by omega), if_pos hhead, if_pos hhead]
    simp [hhead]
  rw [if_neg hhead, if_neg hhead]
  by_cases hmid : k < a.length - sharedTail a b
  · rw [if_pos hmid, if_pos hmid]
  rw [if_neg hmid, if_neg hmid]
  by_cases hk : k < a.length
  · rw [if_pos hk, getElem?_range (by omega)]
    rfl
  · rw [if_neg hk, getElem?_eq_none (by simp; omega)]
    rfl

theorem align_length (a b : List Line) : (align a b)[a.length]? = none := by
  obtain ⟨_, _⟩ := sharedTail_le a b
  rw [getElem?_align, if_neg (by omega), if_neg (by omega), if_neg (by omega)]

theorem align_sound (h : (align a b)[k]? = some (some x)) : ∃ line, a[k]? = some line ∧ b[x]? = some line := by
  obtain ⟨ha, hb⟩ := sharedTail_le a b
  rw [getElem?_align] at h
  split at h
  · rename_i hk
    obtain rfl : k = x := by simpa using h
    have htake := congrArg (·[k]?) (take_sharedHead a b).1
    simp only [getElem?_take, hk, if_true] at htake
    exact ⟨a[k], getElem?_eq_getElem (by omega), htake ▸ getElem?_eq_getElem (by omega)⟩
  · split at h
    · obtain ⟨hle, line, hka, hkb⟩ := middle_sound h
      rw [getElem?_drop, getElem?_take] at hka hkb
      exact ⟨line, by split at hka <;> simp_all, by split at hkb <;> simp_all⟩
    · split at h
      · obtain rfl : b.length - sharedTail a b + (k - (a.length - sharedTail a b)) = x := by simpa using h
        have hdrop := congrArg (·[k - (a.length - sharedTail a b)]?) (drop_sharedTail a b)
        simp only [getElem?_drop] at hdrop
        rw [show a.length - sharedTail a b + (k - (a.length - sharedTail a b)) = k by omega] at hdrop
        exact ⟨a[k], getElem?_eq_getElem (by omega), hdrop ▸ getElem?_eq_getElem (by omega)⟩
      · cases h

theorem align_append (xs ys : List Line) (h : k < lines.length) :
    (align (lines ++ xs) (lines ++ ys))[k]? = some (some k) := by
  rw [getElem?_align, sharedHead_append, if_pos (by omega)]

theorem align_from (C : List Line) (hA : u ∉ A) (hB : u ∉ B) :
    (∀ i ≤ C.length, (align (A ++ u :: C) (B ++ u :: C))[A.length + i]? = some (some (B.length + i))) ∧
      ∀ k < A.length, ∀ x, (align (A ++ u :: C) (B ++ u :: C))[k]? = some (some x) → x < B.length := by
  by_cases heq : A = B
  · subst heq
    refine ⟨fun i hi => ?_, fun k hk x hx => ?_⟩
    · have halign := @align_append (A ++ u :: C) (A.length + i) [] [] (by simp; omega)
      rwa [append_nil] at halign
    · rw [align_append _ _ hk] at hx
      simp at hx
      omega
  obtain ⟨hheadA, hheadB⟩ := sharedHead_le C C heq hA hB
  obtain ⟨htailA, htailB⟩ := sharedTail_le (A ++ u :: C) (B ++ u :: C)
  have htail : C.length + 1 ≤ sharedTail (A ++ u :: C) (B ++ u :: C) := by
    rw [sharedTail, drop_append_of_le_length hheadA, drop_append_of_le_length hheadB, reverse_append,
      reverse_append, sharedHead_append, length_reverse, length_cons]
    omega
  simp only [length_append, length_cons] at htailA htailB
  refine ⟨fun i hi => ?_, fun k hk x hx => ?_⟩
  · rw [getElem?_align]
    simp only [length_append, length_cons]
    rw [if_neg (by omega), if_neg (by omega), if_pos (by omega)]
    congr 2
    omega
  · rw [getElem?_align] at hx
    simp only [length_append, length_cons] at hx
    split at hx
    · simp at hx
      omega
    · split at hx
      · obtain ⟨_, _, -, hline⟩ := middle_sound hx
        have hlt := (List.getElem?_eq_some_iff.mp hline).1
        simp only [length_drop, length_take, length_append, length_cons] at hlt
        omega
      · split at hx <;> simp at hx
        omega

/-! ## Merging -/

structure Merged where
  text : List Char
  conflicts : Nat

def Merged.push (m : Merged) (lines : List Line) : Merged := { m with text := m.text ++ lines.flatten }

def ensureNewline (text : List Char) : List Char :=
  if text ≠ [] ∧ text.getLast? ≠ some '\n' then text ++ ['\n'] else text

/-- The three files, in lines, and what the two sides are called. -/
structure Sides where
  base : List Line
  ours : List Line
  theirs : List Line
  labelOurs : List Char
  labelTheirs : List Char

namespace Sides

variable (S : Sides)

def inOurs : List (Option Nat) := align S.base S.ours

def inTheirs : List (Option Nat) := align S.base S.theirs

/-- All three hold the line `k` of the base, where `x` and `y` say. -/
def Stable (k x y : Nat) : Prop := S.inOurs[k]? = some (some x) ∧ S.inTheirs[k]? = some (some y)

instance (k x y : Nat) : Decidable (S.Stable k x y) := inferInstanceAs (Decidable (_ ∧ _))

def nextStable (oi ti bi : Nat) : Nat × Nat × Nat :=
  if bi < S.base.length then
    match S.inOurs[bi]?.join, S.inTheirs[bi]?.join with
    | some x, some y => if oi ≤ x ∧ ti ≤ y then (bi, x, y) else nextStable oi ti (bi + 1)
    | _, _ => nextStable oi ti (bi + 1)
  else (S.base.length, S.ours.length, S.theirs.length)
termination_by S.base.length - bi

/-- A region both sides changed, between markers. -/
def conflict (text : List Char) (ours theirs : List Line) : List Char :=
  let text := ensureNewline text ++ "<<<<<<< ".toList ++ S.labelOurs ++ ['\n'] ++ ours.flatten
  let text := ensureNewline text ++ "=======\n".toList ++ theirs.flatten
  ensureNewline text ++ ">>>>>>> ".toList ++ S.labelTheirs ++ ['\n']

def resolve (m : Merged) (base ours theirs : List Line) : Merged :=
  if ours = base then m.push theirs
  else if theirs = base then m.push ours
  else if ours = theirs then m.push ours
  else { text := S.conflict m.text ours theirs, conflicts := m.conflicts + 1 }

def slice (lines : List Line) (i j : Nat) : List Line := (lines.take j).drop i

def mergeFrom : Nat → Nat → Nat → Nat → Merged → Option Merged
  | 0, _, _, _, _ => none
  | fuel + 1, bi, oi, ti, m =>
    if S.Stable bi oi ti then mergeFrom fuel (bi + 1) (oi + 1) (ti + 1) (m.push (slice S.base bi (bi + 1)))
    else if S.base.length ≤ bi ∧ S.ours.length ≤ oi ∧ S.theirs.length ≤ ti then some m
    else
      let (nb, no, nt) := S.nextStable oi ti bi
      mergeFrom fuel nb no nt (S.resolve m (slice S.base bi nb) (slice S.ours oi no) (slice S.theirs ti nt))

end Sides

/-- The merge, with no more turns of the loop than there are lines; `none` is a loop that goes on. -/
def merge (base ours theirs labelOurs labelTheirs : List Char) : Option Merged :=
  let S : Sides := ⟨splitInclusive base, splitInclusive ours, splitInclusive theirs, labelOurs, labelTheirs⟩
  S.mergeFrom (S.base.length + S.ours.length + S.theirs.length + 1) 0 0 0 ⟨[], 0⟩

namespace Sides

variable {S : Sides} {i k x y fuel bi oi ti p q e f : Nat} {m r : Merged}

theorem slice_slice (lines : List Line) {j : Nat} (hij : i ≤ j) (hjk : j ≤ k) :
    slice lines i j ++ slice lines j k = slice lines i k := by
  unfold slice
  rw [← take_append_drop (j - i) ((lines.take k).drop i), drop_drop, take_drop, take_take]
  rw [show i + (j - i) = j by omega, show min j k = j by omega]

theorem slice_one {lines : List Line} {line : Line} (h : lines[i]? = some line) : slice lines i (i + 1) = [line] := by
  rw [slice, take_add_one, h, drop_append]
  obtain ⟨hlt, -⟩ := List.getElem?_eq_some_iff.mp h
  simp [length_take, Nat.min_eq_left (Nat.le_of_lt hlt)]

theorem push_push (m : Merged) (xs ys : List Line) : (m.push xs).push ys = m.push (xs ++ ys) := by
  simp [Merged.push]

theorem stable_iff : S.Stable k x y ↔ S.inOurs[k]?.join = some x ∧ S.inTheirs[k]?.join = some y := by
  simp [Stable, Option.join_eq_some_iff]

/-- A stable place that is not behind any of the three. -/
def Ahead (S : Sides) (oi ti bi k x y : Nat) : Prop := bi ≤ k ∧ S.Stable k x y ∧ oi ≤ x ∧ ti ≤ y

theorem nextStable_spec (oi ti bi : Nat) : (∃ k x y, S.nextStable oi ti bi = (k, x, y) ∧ S.Ahead oi ti bi k x y ∧
        ∀ k' x' y', S.Ahead oi ti bi k' x' y' → k ≤ k') ∨
      S.nextStable oi ti bi = (S.base.length, S.ours.length, S.theirs.length) ∧
        ∀ k' x' y', ¬ S.Ahead oi ti bi k' x' y' := by
  -- a line that closes no region leaves the search to the lines after it
  have hskip : ∀ bi, (∀ x y, S.Stable bi x y → ¬ (oi ≤ x ∧ ti ≤ y)) →
      ∀ k x y, S.Ahead oi ti bi k x y ↔ S.Ahead oi ti (bi + 1) k x y := by
    intro bi hnone k x y
    refine ⟨fun ⟨hk, hstable, hx, hy⟩ => ⟨?_, hstable, hx, hy⟩, fun ⟨hk, h⟩ => ⟨by omega, h⟩⟩
    rcases Nat.eq_or_lt_of_le hk with rfl | hlt
    · exact absurd ⟨hx, hy⟩ (hnone x y hstable)
    · exact hlt
  fun_induction nextStable S oi ti bi with
  | case1 bi hlt x y hy hx hahead =>
    exact .inl ⟨bi, x, y, rfl, ⟨Nat.le_refl bi, stable_iff.mpr ⟨hx, hy⟩, hahead⟩, fun k' x' y' h => h.1⟩
  | case2 bi hlt x y hy hx hbehind ih =>
    simp only [hskip bi fun x' y' hstable => by
      obtain ⟨hx', hy'⟩ := stable_iff.mp hstable
      rw [hx] at hx'
      rw [hy] at hy'
      cases hx'
      cases hy'
      exact hbehind]
    exact ih
  | case3 bi hlt hnone ih =>
    simp only [hskip bi fun x' y' hstable => absurd (stable_iff.mp hstable).2 (hnone x' y' (stable_iff.mp hstable).1)]
    exact ih
  | case4 bi hlt =>
    refine .inr ⟨rfl, fun k' x' y' ⟨hk, hstable, _⟩ => ?_⟩
    obtain ⟨_, hline, -⟩ := align_sound hstable.1
    have hk' := (List.getElem?_eq_some_iff.mp hline).1
    omega

theorem resolve_untouched (m : Merged) (base ours : List Line) : S.resolve m base ours base = m.push ours := by
  unfold resolve
  split
  · rename_i heq
    rw [heq]
  · rw [if_pos rfl]

theorem mergeFrom_mono {fuel' : Nat} (h : S.mergeFrom fuel bi oi ti m = some r)
    (hle : fuel ≤ fuel') : S.mergeFrom fuel' bi oi ti m = some r := by
  induction fuel generalizing fuel' bi oi ti m with
  | zero => cases h
  | succ fuel ih =>
    obtain ⟨more, rfl⟩ : ∃ more, fuel' = more + 1 := ⟨fuel' - 1, by omega⟩
    rw [mergeFrom] at h ⊢
    split
    · rename_i hstable
      rw [if_pos hstable] at h
      exact ih h (by omega)
    · rename_i hstable
      rw [if_neg hstable] at h
      split
      · rename_i hend
        rwa [if_pos hend] at h
      · rename_i hend
        rw [if_neg hend] at h
        exact ih h (by omega)

/-- From `p` to `e` their side is the base, from its line `q` on, and nothing of ours is matched beyond `f`. -/
structure Untouched (S : Sides) (p q e f : Nat) : Prop where
  theirs : ∀ k, p ≤ k → k < e → S.inTheirs[k]? = some (some (q + (k - p)))
  same : ∀ i j, p ≤ i → i ≤ j → j ≤ e → slice S.theirs (q + (i - p)) (q + (j - p)) = slice S.base i j
  ours : ∀ k x, p ≤ k → k < e → S.inOurs[k]? = some (some x) → x < f
  close : S.Stable e f (q + (e - p)) ∨ e = S.base.length ∧ f = S.ours.length ∧ q + (e - p) = S.theirs.length

theorem not_stable_end : ¬ S.Stable S.base.length x y := by
  intro h
  have hnone := align_length S.base S.ours
  rw [show align S.base S.ours = S.inOurs from rfl, h.1] at hnone
  cases hnone

theorem mergeFrom_end (ho : S.ours.length ≤ oi) (ht : S.theirs.length ≤ ti) :
    S.mergeFrom (fuel + 1) S.base.length oi ti m = some m := by
  rw [mergeFrom, if_neg not_stable_end, if_pos ⟨Nat.le_refl _, ho, ht⟩]

theorem Untouched.eq_of_stable (h : S.Untouched p q e f) (hstable : S.Stable e x y) : x = f ∧ y = q + (e - p) := by
  rcases h.close with hclose | ⟨rfl, -⟩
  · have hx := hclose.1.symm.trans hstable.1
    have hy := hclose.2.symm.trans hstable.2
    simp at hx hy
    omega
  · exact absurd hstable not_stable_end

theorem Untouched.nextStable_le {nb no nt : Nat} (h : S.Untouched p q e f) (hbi : p ≤ bi) (hle : bi ≤ e)
    (hoi : oi ≤ f) (hnext : S.nextStable oi (q + (bi - p)) bi = (nb, no, nt)) :
    bi ≤ nb ∧ nb ≤ e ∧ oi ≤ no ∧ no ≤ f ∧ nt = q + (nb - p) ∧ (nb = e → no = f) ∧ (nb < e → S.Stable nb no nt) := by
  rcases nextStable_spec (S := S) oi (q + (bi - p)) bi with ⟨k, x, y, heq, ⟨hk, hstable, hx, hy⟩, hfirst⟩ | ⟨heq, hnone⟩
  · rw [heq] at hnext
    cases hnext
    have hke : nb ≤ e := by
      rcases h.close with hclose | ⟨rfl, -⟩
      · exact hfirst e f _ ⟨hle, hclose, hoi, by omega⟩
      · obtain ⟨_, hline, -⟩ := align_sound hstable.1
        exact Nat.le_of_lt (List.getElem?_eq_some_iff.mp hline).1
    rcases Nat.eq_or_lt_of_le hke with rfl | hlt
    · obtain ⟨rfl, rfl⟩ := h.eq_of_stable hstable
      exact ⟨hk, hke, hx, Nat.le_refl _, rfl, fun _ => rfl, fun hlt => absurd hlt (Nat.lt_irrefl _)⟩
    · have hno := h.ours nb no (by omega) hlt hstable.1
      have hnt := (h.theirs nb (by omega) hlt).symm.trans hstable.2
      simp at hnt
      exact ⟨hk, hke, hx, by omega, hnt.symm, fun heq => absurd heq (Nat.ne_of_lt hlt), fun _ => hstable⟩
  · rw [heq] at hnext
    cases hnext
    rcases h.close with hclose | ⟨rfl, rfl, htheirs⟩
    · exact absurd ⟨hle, hclose, hoi, by omega⟩ (hnone e f (q + (e - p)))
    · exact ⟨hle, Nat.le_refl _, hoi, Nat.le_refl _, htheirs.symm, fun _ => rfl,
        fun hlt => absurd hlt (Nat.lt_irrefl _)⟩

theorem mergeFrom_untouched {n : Nat} (h : S.Untouched p q e f) (hbi : p ≤ bi)
    (hle : bi ≤ e) (hoi : oi ≤ f) (hn : (e - bi) + (f - oi) ≤ n)
    (hrest : S.mergeFrom fuel e f (q + (e - p)) (m.push (slice S.ours oi f)) = some r) :
    S.mergeFrom (fuel + n) bi oi (q + (bi - p)) m = some r := by
  induction n generalizing bi oi m with
  | zero =>
    obtain rfl : bi = e := by omega
    obtain rfl : oi = f := by omega
    simpa [slice, Merged.push] using hrest
  | succ n ih =>
    by_cases hdone : bi = e ∧ oi = f
    · obtain ⟨rfl, rfl⟩ := hdone
      refine mergeFrom_mono ?_ (show fuel ≤ fuel + (n + 1) by omega)
      simpa [slice, Merged.push] using hrest
    rw [← Nat.add_assoc, mergeFrom]
    split
    · -- a stable line, which is ours too
      rename_i hstable
      have hlt : bi < e := by
        rcases Nat.eq_or_lt_of_le hle with rfl | hlt
        · exact absurd ⟨rfl, (h.eq_of_stable hstable).1⟩ hdone
        · exact hlt
      have hlt' := h.ours bi oi hbi hlt hstable.1
      obtain ⟨line, hbase, hours⟩ := align_sound hstable.1
      rw [show q + (bi - p) + 1 = q + (bi + 1 - p) by omega, slice_one hbase]
      refine ih (by omega) hlt hlt' (by omega) ?_
      rwa [push_push, ← slice_one hours, slice_slice S.ours (by omega) hlt']
    · rename_i hunstable
      rw [if_neg]
      · -- a region in which their side is the base
        obtain ⟨nb, no, nt, hnext⟩ : ∃ nb no nt, S.nextStable oi (q + (bi - p)) bi = (nb, no, nt) := ⟨_, _, _, rfl⟩
        obtain ⟨hb, hbe, ho, hof, rfl, hlast, hearly⟩ := h.nextStable_le hbi hle hoi hnext
        have hprogress : ¬ (nb = bi ∧ no = oi) := by
          rintro ⟨rfl, rfl⟩
          rcases Nat.eq_or_lt_of_le hbe with rfl | hlt
          · exact hdone ⟨rfl, hlast rfl⟩
          · exact hunstable (hearly hlt)
        simp only [hnext]
        rw [h.same bi nb hbi hb hbe, resolve_untouched]
        refine ih (by omega) hbe hof (by omega) ?_
        rwa [push_push, slice_slice S.ours ho hof]
      · rintro ⟨hend, hend', -⟩
        rcases h.close with hclose | ⟨rfl, rfl, -⟩
        · obtain ⟨line, hline, -⟩ := align_sound hclose.1
          have hlt := (List.getElem?_eq_some_iff.mp hline).1
          omega
        · exact hdone ⟨by omega, by omega⟩

/-! ## The two sides exchanged -/

def swap (S : Sides) : Sides := ⟨S.base, S.theirs, S.ours, S.labelTheirs, S.labelOurs⟩

theorem inOurs_swap : S.swap.inOurs = S.inTheirs := rfl

theorem inTheirs_swap : S.swap.inTheirs = S.inOurs := rfl

theorem nextStable_swap (oi ti bi : Nat) : S.swap.nextStable ti oi bi =
      ((S.nextStable oi ti bi).1, (S.nextStable oi ti bi).2.2, (S.nextStable oi ti bi).2.1) := by
  fun_induction nextStable S oi ti bi with
  | case1 bi hlt x y hy hx hahead =>
    rw [nextStable, if_pos (show bi < S.swap.base.length from hlt), inOurs_swap, inTheirs_swap, hx, hy]
    exact if_pos hahead.symm
  | case2 bi hlt x y hy hx hbehind ih =>
    rw [nextStable, if_pos (show bi < S.swap.base.length from hlt), inOurs_swap, inTheirs_swap, hx, hy, ← ih]
    exact if_neg fun h => hbehind h.symm
  | case3 bi hlt hnone ih =>
    rw [nextStable, if_pos (show bi < S.swap.base.length from hlt), inOurs_swap, inTheirs_swap, ← ih]
    split
    · rename_i x y hx hy
      exact absurd hx (hnone y x hy)
    · rfl
  | case4 bi hlt => rw [nextStable, if_neg (show ¬ bi < S.swap.base.length from hlt)]; rfl

theorem resolve_conflicts (m : Merged) (base ours theirs : List Line) :
    m.conflicts ≤ (S.resolve m base ours theirs).conflicts := by
  unfold resolve Merged.push
  split_ifs <;> simp

theorem mergeFrom_conflicts (h : S.mergeFrom fuel bi oi ti m = some r) : m.conflicts ≤ r.conflicts := by
  induction fuel generalizing bi oi ti m with
  | zero => cases h
  | succ fuel ih =>
    rw [mergeFrom] at h
    split at h
    · exact ih (m := m.push _) h
    · split at h
      · cases h
        exact Nat.le_refl _
      · exact Nat.le_trans (resolve_conflicts ..) (ih h)

theorem resolve_swap (h : (S.resolve m base ours theirs).conflicts ≤ m.conflicts) :
    S.swap.resolve m base theirs ours = S.resolve m base ours theirs := by
  unfold resolve at h ⊢
  by_cases hours : ours = base
  · by_cases htheirs : theirs = base
    · rw [if_pos htheirs, if_pos hours, hours, htheirs]
    · rw [if_neg htheirs, if_pos hours, if_pos hours]
  · by_cases htheirs : theirs = base
    · rw [if_pos htheirs, if_neg hours, if_pos htheirs]
    · by_cases heq : ours = theirs
      · rw [if_neg htheirs, if_neg hours, if_pos heq.symm, if_neg hours, if_neg htheirs, if_pos heq, heq]
      · rw [if_neg hours, if_neg htheirs, if_neg heq] at h
        exact absurd h (Nat.not_succ_le_self _)

theorem mergeFrom_swap (h : S.mergeFrom fuel bi oi ti m = some r)
    (hclean : r.conflicts ≤ m.conflicts) : S.swap.mergeFrom fuel bi ti oi m = some r := by
  induction fuel generalizing bi oi ti m with
  | zero => cases h
  | succ fuel ih =>
    rw [mergeFrom] at h ⊢
    by_cases hstable : S.Stable bi oi ti
    · rw [if_pos hstable] at h
      rw [if_pos (show S.swap.Stable bi ti oi from hstable.symm)]
      exact ih h hclean
    rw [if_neg hstable] at h
    rw [if_neg fun hswap : S.swap.Stable bi ti oi => hstable hswap.symm]
    by_cases hend : S.base.length ≤ bi ∧ S.ours.length ≤ oi ∧ S.theirs.length ≤ ti
    · rw [if_pos hend] at h
      rwa [if_pos (show S.swap.base.length ≤ bi ∧ S.swap.ours.length ≤ ti ∧ S.swap.theirs.length ≤ oi from
        ⟨hend.1, hend.2.2, hend.2.1⟩)]
    · rw [if_neg hend] at h
      rw [if_neg fun hswap => hend ⟨hswap.1, hswap.2.2, hswap.2.1⟩]
      have hle := mergeFrom_conflicts h
      have hresolve := resolve_conflicts (S := S) m (slice S.base bi (S.nextStable oi ti bi).1)
        (slice S.ours oi (S.nextStable oi ti bi).2.1) (slice S.theirs ti (S.nextStable oi ti bi).2.2)
      simp only [nextStable_swap]
      rw [show S.swap.base = S.base from rfl, show S.swap.ours = S.theirs from rfl,
        show S.swap.theirs = S.ours from rfl, resolve_swap (Nat.le_trans hle hclean)]
      exact ih h (Nat.le_trans hclean hresolve)

end Sides

/-! ## Edits on both sides of a line -/

section

variable {A A₂ C C₂ : List Line} {u : Line} {labelOurs labelTheirs : List Char}

/-- Our side moved before the line, theirs after it. -/
def separated (A A₂ C C₂ : List Line) (u : Line) (labelOurs labelTheirs : List Char) : Sides :=
  ⟨A ++ u :: C, A₂ ++ u :: C, A ++ u :: C₂, labelOurs, labelTheirs⟩

open Sides

theorem stable_between (hA : u ∉ A) (hA2 : u ∉ A₂) :
    (separated A A₂ C C₂ u labelOurs labelTheirs).Stable A.length A₂.length A.length := by
  refine ⟨(align_from C hA hA2).1 0 (Nat.zero_le _), ?_⟩
  have halign := @align_append (A ++ [u]) A.length C C₂ (by simp)
  rwa [append_assoc, append_assoc] at halign

theorem untouched_before (hA : u ∉ A) (hA2 : u ∉ A₂) :
    (separated A A₂ C C₂ u labelOurs labelTheirs).Untouched 0 0 A.length A₂.length := by
  refine ⟨fun k _ hk => ?_, fun i j _ _ hj => ?_, fun k x _ hk => (align_from C hA hA2).2 k hk x, .inl ?_⟩
  · rw [Nat.zero_add, Nat.sub_zero]
    exact align_append (u :: C) (u :: C₂) hk
  · simp [separated, slice, take_append_of_le_length hj]
  · rw [Nat.zero_add, Nat.sub_zero]
    exact stable_between hA hA2

theorem slice_append (lines : List Line) (i j : Nat) :
    slice (A ++ u :: lines) (A.length + 1 + i) (A.length + 1 + j) = slice lines i j := by
  have hlength : (A ++ [u]).length = A.length + 1 := by simp
  rw [← singleton_append, ← append_assoc, ← hlength, slice, take_length_add_append, drop_length_add_append, slice]

theorem untouched_after (hA : u ∉ A) (hA2 : u ∉ A₂) :
    (separated A A₂ C C₂ u labelOurs labelTheirs).swap.Untouched (A.length + 1) (A₂.length + 1)
      (A ++ u :: C).length (A ++ u :: C₂).length := by
  refine ⟨fun k hk hlt => ?_, fun i j hi hij hj => ?_, fun k x _ _ hx => ?_, .inr ⟨rfl, rfl, ?_⟩⟩
  · have halign := (align_from C hA hA2).1 (k - A.length) (by simp at hlt; omega)
    rw [show A.length + (k - A.length) = k by omega,
      show A₂.length + (k - A.length) = A₂.length + 1 + (k - (A.length + 1)) by omega] at halign
    exact halign
  · have hbase := slice_append (A := A) (u := u) C (i - (A.length + 1)) (j - (A.length + 1))
    rw [show A.length + 1 + (i - (A.length + 1)) = i by omega,
      show A.length + 1 + (j - (A.length + 1)) = j by omega] at hbase
    exact (slice_append C _ _).trans hbase.symm
  · obtain ⟨_, -, hline⟩ := align_sound hx
    exact (List.getElem?_eq_some_iff.mp hline).1
  · simp [separated, Sides.swap]
    omega

theorem mergeFrom_separated (hA : u ∉ A) (hA2 : u ∉ A₂) :
    (separated A A₂ C C₂ u labelOurs labelTheirs).mergeFrom (1 + (C.length + C₂.length) + 1 + (A.length + A₂.length))
      0 0 0 ⟨[], 0⟩ = some ⟨(A₂ ++ u :: C₂).flatten, 0⟩ := by
  refine mergeFrom_untouched (untouched_before hA hA2) (Nat.le_refl 0) (Nat.zero_le _) (Nat.zero_le _) (by omega) ?_
  rw [Nat.zero_add, Nat.sub_zero, mergeFrom, if_pos (stable_between hA hA2), push_push]
  have hafter := @untouched_after A A₂ C C₂ u labelOurs labelTheirs hA hA2
  -- from here on it is our side that is the base
  refine mergeFrom_swap (S := (separated A A₂ C C₂ u labelOurs labelTheirs).swap) ?_ (Nat.le_refl 0)
  have hstart : A₂.length + 1 = A₂.length + 1 + (A.length + 1 - (A.length + 1)) := by omega
  rw [hstart]
  refine mergeFrom_untouched hafter (Nat.le_refl _) (by simp) (by simp) (by simp; omega) ?_
  refine (mergeFrom_end (Nat.le_refl _) (by simp [separated, Sides.swap]; omega)).trans ?_
  have hours : slice (A₂ ++ u :: C) 0 A₂.length = A₂ := by simp [slice]
  have hbase : slice (A ++ u :: C) A.length (A.length + 1) = [u] := slice_one (by simp)
  have htheirs : slice (A ++ u :: C₂) (A.length + 1) (A ++ u :: C₂).length = C₂ := by
    have hslice := slice_append (A := A) (u := u) C₂ 0 C₂.length
    rw [show A.length + 1 + C₂.length = (A ++ u :: C₂).length by simp; omega] at hslice
    rw [show slice C₂ 0 C₂.length = C₂ by simp [slice]] at hslice
    exact hslice
  simp only [separated, Sides.swap, hours, hbase, htheirs, Merged.push]
  simp

end

theorem not_mem_of_count (h : (A ++ u :: B).count u = 1) : u ∉ A := by
  rw [count_append, count_cons_self] at h
  exact count_eq_zero.mp (by omega)

theorem merge_flatten (labelOurs labelTheirs : List Char)
    (hbase : ∀ line ∈ base, Terminated line) (hours : ∀ line ∈ ours, Terminated line)
    (htheirs : ∀ line ∈ theirs, Terminated line) :
    merge base.flatten ours.flatten theirs.flatten labelOurs labelTheirs =
      (Sides.mk base ours theirs labelOurs labelTheirs).mergeFrom
        (base.length + ours.length + theirs.length + 1) 0 0 0 ⟨[], 0⟩ := by
  simp only [merge, splitInclusive_flatten hbase, splitInclusive_flatten hours, splitInclusive_flatten htheirs]

/-- Edits before and after a line that the files have once both survive, whichever side made which. -/
theorem merge_separated (A A₂ C C₂ : List Line) (u : Line) (labelOurs labelTheirs : List Char)
    (hlines : ∀ line ∈ A ++ A₂ ++ C ++ C₂ ++ [u], Terminated line) (hbase : (A ++ u :: C).count u = 1)
    (hours : (A₂ ++ u :: C).count u = 1) :
    merge (A ++ u :: C).flatten (A₂ ++ u :: C).flatten (A ++ u :: C₂).flatten labelOurs labelTheirs =
        some ⟨(A₂ ++ u :: C₂).flatten, 0⟩ ∧
      merge (A ++ u :: C).flatten (A ++ u :: C₂).flatten (A₂ ++ u :: C).flatten labelOurs labelTheirs =
        some ⟨(A₂ ++ u :: C₂).flatten, 0⟩ := by
  have hterminated : ∀ xs ys : List Line, (∀ line ∈ xs, line ∈ A ++ A₂) → (∀ line ∈ ys, line ∈ C ++ C₂) →
      ∀ line ∈ xs ++ u :: ys, Terminated line := by
    intro xs ys hxs hys line hmem
    have hx := hxs line
    have hy := hys line
    refine hlines line ?_
    simp only [mem_append, mem_cons] at *
    tauto
  have hb := hterminated A C (by simp +contextual) (by simp +contextual)
  have ho := hterminated A₂ C (by simp +contextual) (by simp +contextual)
  have ht := hterminated A C₂ (by simp +contextual) (by simp +contextual)
  have hrun := fun ours theirs => @mergeFrom_separated A A₂ C C₂ u ours theirs (not_mem_of_count hbase)
    (not_mem_of_count hours)
  rw [merge_flatten _ _ hb ho ht, merge_flatten _ _ hb ht ho]
  refine ⟨Sides.mergeFrom_mono (hrun labelOurs labelTheirs) (by simp; omega), ?_⟩
  have hswap := Sides.mergeFrom_swap (hrun labelTheirs labelOurs) (Nat.le_refl 0)
  exact Sides.mergeFrom_mono hswap (by simp; omega)

theorem merge_separated_of_one :
    merge "a\nu\nc\n".toList "b\nu\nc\n".toList "a\nu\nd\n".toList [] [] = some ⟨"b\nu\nd\n".toList, 0⟩ :=
  (merge_separated [['a', '\n']] [['b', '\n']] [['c', '\n']] [['d', '\n']] ['u', '\n'] [] [] (by
      intro line hmem
      refine ⟨line.dropLast, ?_⟩
      revert line
      decide)
    (by decide) (by decide)).1

end Rustlavel.Cli
