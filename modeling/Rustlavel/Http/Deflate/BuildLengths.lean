/-
  `build_lengths`: Huffman construction with a heap, rebuilt over halved weights
  until no code is longer than `max_bits`.
-/

import Rustlavel.Lib.CanonicalCode
import Rustlavel.Lib.HuffmanTree
import Rustlavel.Http.Deflate.Format

namespace Rustlavel.Http.Deflate

open HuffmanTree CanonicalCode List Outcome Nat

/-! ## The construction -/

/-- The `while heap.len() > 1` loop: the two lightest nodes get the next internal node as their parent. -/
def mergeLoop (parent : List (Option Nat)) (heap : List Entry) (next : Nat) : Nat → Res (List (Option Nat))
  | 0 => if heap.length ≤ 1 then .ok parent else .error .diverged
  | fuel + 1 =>
    match heap with
    | (w1, a) :: (w2, b) :: rest => do
      let parent ← store parent a (some next)
      let parent ← store parent b (some next)
      mergeLoop parent (push (w1 + w2, next) rest) (next + 1) fuel
    | _ => .ok parent

/-- The climb from a leaf to the root; `depth` is a `u8`. -/
def depthOf (parent : List (Option Nat)) (node depth : Nat) : Nat → Res Nat
  | 0 => .error .diverged
  | fuel + 1 => do
    match ← index parent node with
    | none => pure depth
    | some p => if depth + 1 < 2 ^ 8 then depthOf parent p (depth + 1) fuel else .error .panic

/-- `for &sym in &used`: write each symbol's depth, and remember whether any is too deep. -/
def readDepths (parent : List (Option Nat)) (limit : Nat) (lengths : List Nat) (tooDeep : Bool) :
    List Nat → Res (List Nat × Bool)
  | [] => .ok (lengths, tooDeep)
  | sym :: used => do
    let depth ← depthOf parent sym 0 parent.length
    let lengths ← store lengths sym depth
    readDepths parent limit lengths (tooDeep || decide (limit < depth)) used

def heapOf (used weights : List Nat) : List Entry := ofList (used.map fun i => (weights.getD i 0, i))

/-- `*w = w.div_ceil(2)`, on the weights that are not zero. -/
def halve (w : Nat) : Nat := if 0 < w then (w + 1) / 2 else w

/-- The `loop` of `build_lengths`. -/
def rebuild (size : Nat) (used : List Nat) (limit : Nat) (weights lengths : List Nat) : Nat → Res (List Nat)
  | 0 => .error .diverged
  | fuel + 1 => do
    let heap := heapOf used weights
    let parent ← mergeLoop (replicate (size * 2) none) heap size heap.length
    let (lengths, tooDeep) ← readDepths parent limit lengths false used
    if tooDeep then rebuild size used limit (weights.map halve) lengths fuel
    else pure lengths

def usedSymbols (freqs : List Nat) : List Nat := (range freqs.length).filter fun i => decide (0 < freqs.getD i 0)

def buildLengths (freqs : List Nat) (limit : Nat) : Res (List Nat) :=
  let lengths := replicate freqs.length 0
  match usedSymbols freqs with
  | [] => .ok lengths
  | [sym] => store lengths sym 1
  | used => rebuild freqs.length used limit freqs lengths (freqs.sum + 1)

/-! ## Climbing what the merges built -/

variable (parent : List (Option Nat))

theorem mergeLoop_spec (heap : List Entry) (next fuel : Nat)
    (hr : Ready heap next) (hne : heap ≠ []) (hfuel : heap.length ≤ fuel + 1)
    (hsize : next + heap.length ≤ parent.length + 1) (hheap : ∀ e ∈ heap, parent[e.2]? = some none)
    (hfresh : ∀ x, next ≤ x → x < parent.length → parent[x]? = some none) :
    ∃ parent', mergeLoop parent heap next fuel = .ok parent' ∧ parent'.length = parent.length ∧
      (∀ x < next, (∀ e ∈ heap, e.2 ≠ x) → parent'[x]? = parent[x]?) ∧
      ∀ e ∈ heap, ∀ depth steps, depth + depths heap next e.2 < 2 ^ 8 → depths heap next e.2 < steps →
        depthOf parent' e.2 depth steps = .ok (depth + depths heap next e.2) := by
  -- a single node is the root: nothing is left to merge or to climb
  have hroot : ∀ {parent : List (Option Nat)} {e : Entry} {next : Nat}, (∀ x ∈ [e], parent[x.2]? = some none) →
      ∀ x ∈ [e], ∀ depth steps, depth + depths [e] next x.2 < 2 ^ 8 → depths [e] next x.2 < steps →
        depthOf parent x.2 depth steps = .ok (depth + depths [e] next x.2) := by
    intro parent e next hnone x hx depth steps _ hsteps
    rw [depths] at hsteps ⊢
    obtain ⟨steps, rfl⟩ : ∃ k, steps = k + 1 := ⟨steps - 1, by omega⟩
    rw [depthOf, index_eq_ok (hnone x hx)]
    rfl
  induction fuel generalizing parent heap next with
  | zero =>
    rcases heap with _ | ⟨e, _ | _⟩
    · exact absurd rfl hne
    · exact ⟨parent, rfl, rfl, fun _ _ _ => rfl, hroot hheap⟩
    · simp at hfuel
  | succ fuel ih =>
    rcases heap with _ | ⟨⟨w1, a⟩, _ | ⟨⟨w2, b⟩, rest⟩⟩
    · exact absurd rfl hne
    · exact ⟨parent, rfl, rfl, fun _ _ _ => rfl, hroot hheap⟩
    · simp only [length_cons] at hfuel hsize
      have ha : a < next := hr.lt_next (w1, a) (by simp)
      have hb : b < next := hr.lt_next (w2, b) (by simp)
      have hnodup := hr.nodup
      simp only [map_cons, nodup_cons, mem_cons, mem_map, not_or] at hnodup
      obtain ⟨⟨hab, ha_rest⟩, hb_rest, -⟩ := hnodup
      let parent2 := (parent.set a (some next)).set b (some next)
      have hother : ∀ x, x ≠ a → x ≠ b → parent2[x]? = parent[x]? := fun x hxa hxb => by
        rw [getElem?_set_ne (Ne.symm hxb), getElem?_set_ne (Ne.symm hxa)]
      obtain ⟨parent', hmerge, hlen, hframe, hclimb⟩ := ih parent2
        (push (w1 + w2, next) rest) (next + 1) hr.step (ne_nil_of_length_pos (by simp))
        (by simp; omega) (by simp [parent2]; omega)
        (by
          intro e he
          rcases mem_push.mp he with rfl | he
          · rw [hother _ (by simp only; omega) (by simp only; omega)]
            exact hfresh next (le_refl _) (by omega)
          · rw [hother _ (fun h => ha_rest ⟨e, he, h⟩) (fun h => hb_rest ⟨e, he, h⟩)]
            exact hheap e (by simp [he]))
        (by
          intro x hx hxlen
          rw [hother x (by omega) (by omega)]
          exact hfresh x (by omega) (by simpa [parent2] using hxlen))
      have hlen2 : parent2.length = parent.length := by simp [parent2]
      -- a merged node keeps the fresh one as its parent to the end
      have hkeep : ∀ x, x = a ∨ x = b → parent'[x]? = some (some next) := by
        intro x hx
        rw [hframe x (by omega)]
        · rcases hx with rfl | rfl
          · rw [getElem?_set_ne (Ne.symm hab), getElem?_set_self (by omega)]
          · exact getElem?_set_self (by rw [length_set]; omega)
        · intro e he heq
          rcases mem_push.mp he with rfl | he
          · omega
          · rcases hx with rfl | rfl
            · exact ha_rest ⟨e, he, heq⟩
            · exact hb_rest ⟨e, he, heq⟩
      have hstep : ∀ x, x = a ∨ x = b → ∀ depth steps,
          depth + (depths (push (w1 + w2, next) rest) (next + 1) next + 1) < 2 ^ 8 →
          depths (push (w1 + w2, next) rest) (next + 1) next + 1 < steps →
          depthOf parent' x depth steps = .ok (depth + (depths (push (w1 + w2, next) rest) (next + 1) next + 1)) := by
        intro x hx depth steps hdepth hsteps
        obtain ⟨steps, rfl⟩ : ∃ k, steps = k + 1 := ⟨steps - 1, by omega⟩
        have h := hclimb (w1 + w2, next) (mem_push.mpr (.inl rfl)) (depth + 1) steps
          (by simp only; omega) (by simp only; omega)
        rw [depthOf, index_eq_ok (hkeep x hx), ok_bind]
        simp only
        rw [if_pos (by omega), h, add_assoc, add_comm 1]
      refine ⟨parent', ?_, hlen.trans hlen2, ?_, ?_⟩
      · rw [mergeLoop, store_of_lt _ (by omega), ok_bind, store_of_lt _ (by rw [length_set]; omega), ok_bind]
        exact hmerge
      · intro x hx hnot
        have hxa : x ≠ a := fun h => hnot (w1, a) (by simp) h.symm
        have hxb : x ≠ b := fun h => hnot (w2, b) (by simp) h.symm
        rw [hframe x (by omega), hother x hxa hxb]
        intro e he
        rcases mem_push.mp he with rfl | he
        · omega
        · exact hnot e (by simp [he])
      · intro e he depth steps hdepth hsteps
        simp only [mem_cons] at he
        rcases he with rfl | rfl | he
        · rw [depths_left] at hdepth hsteps ⊢
          exact hstep a (.inl rfl) depth steps hdepth hsteps
        · rw [depths_right] at hdepth hsteps ⊢
          exact hstep b (.inr rfl) depth steps hdepth hsteps
        · rw [depths_of_mem_rest hr he] at hdepth hsteps ⊢
          exact hclimb e (mem_push.mpr (.inr he)) depth steps hdepth hsteps

theorem readDepths_spec (limit : Nat) (d : Nat → Nat)
    (used lengths : List Nat) (tooDeep : Bool) (hd : ∀ s ∈ used, depthOf parent s 0 parent.length = .ok (d s))
    (hlt : ∀ s ∈ used, s < lengths.length) : ∃ lengths', readDepths parent limit lengths tooDeep used =
        .ok (lengths', tooDeep || used.any fun s => decide (limit < d s)) ∧
      lengths'.length = lengths.length ∧
      ∀ i, lengths'[i]? = if i ∈ used then some (d i) else lengths[i]? := by
  induction used generalizing lengths tooDeep with
  | nil => exact ⟨lengths, by simp [readDepths], rfl, fun i => by simp⟩
  | cons s used ih =>
    have hs := hlt s mem_cons_self
    obtain ⟨lengths', hread, hlen, hget⟩ := ih (lengths.set s (d s))
      (tooDeep || decide (limit < d s)) (fun t ht => hd t (mem_cons_of_mem _ ht))
      (fun t ht => by
        rw [length_set]
        exact hlt t (mem_cons_of_mem _ ht))
    refine ⟨lengths', ?_, by rw [hlen, length_set], fun i => ?_⟩
    · rw [readDepths, hd s mem_cons_self, ok_bind, store_of_lt _ hs, ok_bind, hread, any_cons, Bool.or_assoc]
    · rw [hget i, getElem?_set]
      by_cases hi : i ∈ used
      · simp [hi]
      · by_cases his : s = i
        · subst his
          simp [hi, hs]
        · simp [hi, his, Ne.symm his]

/-! ## One round -/

/-- What the used symbols are to the construction: distinct indices of the frequency vector, at least two of them. -/
structure UsedOk (size : Nat) (used : List Nat) : Prop where
  nodup : used.Nodup
  lt_size : ∀ s ∈ used, s < size
  two_le : 2 ≤ used.length

variable {size : Nat} {used weights : List Nat}

theorem UsedOk.length_le (hu : UsedOk size used) : used.length ≤ size := by
  have hsub : used ⊆ range size := fun s hs => mem_range.mpr (hu.lt_size s hs)
  have h := (subperm_of_subset hu.nodup hsub).length_le
  rwa [length_range] at h

def weightOf (used weights : List Nat) : Nat := (used.map fun i => weights.getD i 0).sum

section

variable {size : Nat} {used weights : List Nat}

theorem heapOf_perm : (heapOf used weights).Perm (used.map fun i => (weights.getD i 0, i)) := ofList_perm _

theorem length_heapOf : (heapOf used weights).length = used.length := by
  rw [heapOf_perm.length_eq, length_map]

theorem mem_heapOf {e : Entry} : e ∈ heapOf used weights ↔ e.2 ∈ used ∧ e.1 = weights.getD e.2 0 := by
  rw [heapOf_perm.mem_iff, mem_map]
  constructor
  · rintro ⟨i, hi, rfl⟩
    exact ⟨hi, rfl⟩
  · rintro ⟨hi, hw⟩
    exact ⟨e.2, hi, by rw [← hw]⟩

theorem ready_heapOf (hu : UsedOk size used) : Ready (heapOf used weights) size := by
  refine ⟨?_, fun e he => hu.lt_size e.2 (mem_heapOf.mp he).1, sorted_ofList _⟩
  rw [(heapOf_perm.map Prod.snd).nodup_iff, map_map]
  have hid : (Prod.snd ∘ fun i => (weights.getD i 0, i)) = id := rfl
  rw [hid, map_id]
  exact hu.nodup

theorem total_heapOf : total (heapOf used weights) = weightOf used weights := by
  rw [total, (heapOf_perm.map Prod.fst).sum_eq, map_map]
  rfl

def roundDepth (size : Nat) (used weights : List Nat) (i : Nat) : Nat := depths (heapOf used weights) size i

theorem fib_roundDepth_le (hu : UsedOk size used) (hpos : ∀ s ∈ used, 1 ≤ weights.getD s 0) {i : Nat}
    (hi : i ∈ used) : fib (roundDepth size used weights i + 2) ≤ weightOf used weights := by
  have hheap : ∀ x ∈ heapOf used weights, 1 ≤ x.1 := by
    intro x hx
    obtain ⟨hx2, hx1⟩ := mem_heapOf.mp hx
    rw [hx1]
    exact hpos _ hx2
  have hmem : (weights.getD i 0, i) ∈ heapOf used weights := mem_heapOf.mpr ⟨hi, rfl⟩
  rw [← total_heapOf]
  exact fib_le_total _ _ (ready_heapOf hu) hheap hmem

theorem roundDepth_lt (hu : UsedOk size used) (hpos : ∀ s ∈ used, 1 ≤ weights.getD s 0)
    (hweight : weightOf used weights < 2 ^ 64) {i : Nat} (hi : i ∈ used) :
    roundDepth size used weights i < 2 ^ 8 := by
  by_contra hge
  have hmono : fib 94 ≤ fib (roundDepth size used weights i + 2) := fib_mono (by omega)
  have h94 : 2 ^ 64 ≤ fib 94 := by decide
  have hle := fib_roundDepth_le hu hpos hi
  omega

theorem round_spec (hu : UsedOk size used) (hpos : ∀ s ∈ used, 1 ≤ weights.getD s 0)
    (hweight : weightOf used weights < 2 ^ 64) (limit : Nat) (lengths : List Nat) (hlen : lengths.length = size) :
    ∃ parent lengths', mergeLoop (replicate (size * 2) none) (heapOf used weights) size
        (heapOf used weights).length = .ok parent ∧
      readDepths parent limit lengths false used =
        .ok (lengths', used.any fun s => decide (limit < roundDepth size used weights s)) ∧
      lengths'.length = size ∧
      ∀ i, lengths'[i]? = if i ∈ used then some (roundDepth size used weights i) else lengths[i]? := by
  have hle := hu.length_le
  have htwo := hu.two_le
  obtain ⟨parent, hmerge, hplen, -, hclimb⟩ := mergeLoop_spec (replicate (size * 2) none)
    (heapOf used weights) size (heapOf used weights).length (ready_heapOf hu)
    (ne_nil_of_length_pos (by rw [length_heapOf]; omega)) (le_succ _)
    (by rw [length_heapOf, length_replicate]; omega)
    (fun e he => by
      have := hu.lt_size e.2 (mem_heapOf.mp he).1
      rw [getElem?_replicate, if_pos (by omega)])
    (fun x _ hx => by
      rw [length_replicate] at hx
      rw [getElem?_replicate, if_pos hx])
  rw [length_replicate] at hplen
  obtain ⟨lengths', hread, hlen', hget⟩ := readDepths_spec parent limit
    (roundDepth size used weights) used lengths false
    (fun s hs => by
      have hlt := depths_lt_length (heapOf used weights) size s (ne_nil_of_length_pos (by rw [length_heapOf]; omega))
      rw [length_heapOf] at hlt
      have h := hclimb (weights.getD s 0, s) (mem_heapOf.mpr ⟨hs, rfl⟩) 0 parent.length (by
          rw [zero_add]
          exact roundDepth_lt hu hpos hweight hs)
        (by rw [hplen]; simp only; omega)
      rwa [zero_add] at h)
    (fun s hs => by
      rw [hlen]
      exact hu.lt_size s hs)
  exact ⟨parent, lengths', hmerge, by rwa [Bool.false_or] at hread, hlen'.trans hlen, hget⟩

end

/-! ## The rebuild loop -/

theorem getD_map_halve (weights : List Nat) (i : Nat) : (weights.map halve).getD i 0 = halve (weights.getD i 0) := by
  rw [getD_eq_getElem?_getD, getD_eq_getElem?_getD, getElem?_map]
  cases weights[i]? <;> rfl

variable {w limit i : Nat} {freqs lengths : List Nat}

theorem halve_pos (h : 1 ≤ w) : 1 ≤ halve w := by
  rw [halve, if_pos (by omega)]
  omega

theorem halve_le (w : Nat) : halve w ≤ w := by
  rw [halve]
  split <;> omega

theorem halve_lt (h : 2 ≤ w) : halve w < w := by
  rw [halve, if_pos (by omega)]
  omega

theorem weightOf_halve_lt (h : ∃ s ∈ used, 2 ≤ weights.getD s 0) :
    weightOf used (weights.map halve) < weightOf used weights := by
  obtain ⟨s, hs, h2⟩ := h
  apply sum_lt_sum
  · intro i _
    rw [getD_map_halve]
    exact halve_le _
  · refine ⟨s, hs, ?_⟩
    rw [getD_map_halve]
    exact halve_lt h2

theorem exists_two_le_of_too_deep (hu : UsedOk size used)
    (hpos : ∀ s ∈ used, 1 ≤ weights.getD s 0) (hlimit : used.length ≤ 2 ^ limit)
    (hi : i ∈ used) (hdeep : limit < roundDepth size used weights i) : ∃ s ∈ used, 2 ≤ weights.getD s 0 := by
  by_contra hnone
  push Not at hnone
  have hone : ∀ s ∈ used, weights.getD s 0 = 1 := fun s hs => le_antisymm (le_of_lt_succ (hnone s hs)) (hpos s hs)
  have hheap : ∀ e ∈ heapOf used weights, e.1 = 1 := fun e he => by
    obtain ⟨hmem, hweight⟩ := mem_heapOf.mp he
    rw [hweight, hone _ hmem]
  obtain ⟨_, hj⟩ := mem_iff_getElem?.mp ((mem_heapOf (e := (weights.getD i 0, i))).mpr ⟨hi, rfl⟩)
  have hdepth := depths_le_of_level _ _ (ready_heapOf hu)
    (fun x hx y hy => by rw [hheap x hx, hheap y hy]; decide) (length_heapOf.trans_le hlimit) hj
  exact absurd (le_trans (le_add_right ..) hdepth) (not_le.mpr hdeep)

theorem rebuild_spec (hu : UsedOk size used)
    (hlimit : used.length ≤ 2 ^ limit) (weights lengths : List Nat) (fuel : Nat)
    (hpos : ∀ s ∈ used, 1 ≤ weights.getD s 0) (hweight : weightOf used weights < 2 ^ 64)
    (hlen : lengths.length = size) (hunused : ∀ i < size, i ∉ used → lengths[i]? = some 0)
    (hfuel : weightOf used weights < fuel) :
    ∃ weights' lengths', rebuild size used limit weights lengths fuel = .ok lengths' ∧ lengths'.length = size ∧
      (∀ i < size, lengths'[i]? = some (if i ∈ used then roundDepth size used weights' i else 0)) ∧
      ∀ s ∈ used, roundDepth size used weights' s ≤ limit := by
  induction fuel generalizing weights lengths with
  | zero => exact absurd hfuel (not_lt_zero _)
  | succ fuel ih =>
    obtain ⟨_, lengths', hmerge, hread, hlen', hget⟩ := round_spec hu hpos hweight limit lengths hlen
    have hunused' : ∀ i < size, i ∉ used → lengths'[i]? = some 0 := fun i hi hni => by
      rw [hget i, if_neg hni]
      exact hunused i hi hni
    rw [rebuild]
    simp only
    rw [hmerge, ok_bind, hread, ok_bind]
    split
    case isTrue hdeep =>
      obtain ⟨s, hs, hlt⟩ := any_eq_true.mp hdeep
      have hshrink := weightOf_halve_lt (exists_two_le_of_too_deep hu hpos hlimit hs (of_decide_eq_true hlt))
      apply ih (weights.map halve) lengths' _ (by omega) hlen' hunused' (by omega)
      intro t ht
      rw [getD_map_halve]
      exact halve_pos (hpos t ht)
    case isFalse hshallow =>
      refine ⟨weights, lengths', rfl, hlen', fun i hi => ?_, fun s hs => ?_⟩
      · rw [hget i]
        split
        · rfl
        case isFalse hni => exact hunused i hi hni
      · by_contra hgt
        exact hshallow (any_eq_true.mpr ⟨s, hs, decide_eq_true (Nat.lt_of_not_le hgt)⟩)

/-! ## The lengths -/

/-- A codeword for each symbol that occurs and no other, none above the limit; complete, or of at most one codeword. -/
structure CodeFor (freqs : List Nat) (limit : Nat) (lengths : List Nat) : Prop where
  length_eq : lengths.length = freqs.length
  zero_iff : ∀ i, lengths.getD i 0 = 0 ↔ freqs.getD i 0 = 0
  le_limit : ∀ l ∈ lengths, l ≤ limit
  kraft : kraftSum lengths limit = 2 ^ limit ∨ firstIndex (lengthCount lengths) (limit + 1) ≤ 1

theorem mem_usedSymbols : i ∈ usedSymbols freqs ↔ freqs.getD i 0 ≠ 0 := by
  rw [usedSymbols, mem_filter, mem_range, decide_eq_true_iff, pos_iff_ne_zero]
  constructor
  · exact fun h => h.2
  · intro h
    refine ⟨?_, h⟩
    by_contra hge
    exact h (by rw [getD_eq_getElem?_getD, getElem?_eq_none (by omega)]; rfl)

theorem sum_filter_map (p : Nat → Bool) (f : Nat → Nat) (l : List Nat) :
    ((l.filter p).map f).sum = (l.map fun i => if p i then f i else 0).sum := by
  induction l with
  | nil => rfl
  | cons =>
    rw [filter_cons]
    split <;> simp_all

theorem weightOf_usedSymbols (freqs : List Nat) : weightOf (usedSymbols freqs) freqs = freqs.sum := by
  rw [weightOf, usedSymbols, sum_filter_map]
  apply congrArg List.sum
  apply ext_getElem?
  intro i
  by_cases hi : i < freqs.length
  · rw [getElem?_map, getElem?_range hi, Option.map_some, getElem?_eq_getElem hi]
    split <;> simp_all
  · rw [getElem?_eq_none (by simp; omega), getElem?_eq_none (by omega)]

theorem codeFor_roundDepth (hu : UsedOk freqs.length (usedSymbols freqs)) (hlen : lengths.length = freqs.length)
    (hget : ∀ i < freqs.length, lengths[i]? = some
      (if i ∈ usedSymbols freqs then roundDepth freqs.length (usedSymbols freqs) weights i else 0))
    (hle : ∀ s ∈ usedSymbols freqs, roundDepth freqs.length (usedSymbols freqs) weights s ≤ limit) :
    CodeFor freqs limit lengths ∧ kraftSum lengths limit = 2 ^ limit := by
  have hpos : ∀ s ∈ usedSymbols freqs, 1 ≤ roundDepth freqs.length (usedSymbols freqs) weights s := by
    intro s hs
    have hmem : (weights.getD s 0, s) ∈ heapOf (usedSymbols freqs) weights := mem_heapOf.mpr ⟨hs, rfl⟩
    exact depths_pos _ _ (ready_heapOf hu) (by rw [length_heapOf]; exact hu.two_le) hmem
  have hmap : lengths = (range freqs.length).map fun i =>
      if i ∈ usedSymbols freqs then roundDepth freqs.length (usedSymbols freqs) weights i else 0 := by
    apply ext_getElem?
    intro i
    by_cases hi : i < freqs.length
    · rw [hget i hi, getElem?_map, getElem?_range hi]
      rfl
    · rw [getElem?_eq_none (by omega), getElem?_eq_none (by simp; omega)]
  have hcomplete : kraftSum lengths limit = 2 ^ limit := by
    have hkraft := kraft_depths limit (heapOf (usedSymbols freqs) weights) freqs.length
      (ready_heapOf hu) (ne_nil_of_length_pos (by
        rw [length_heapOf]
        exact lt_of_lt_of_le two_pos hu.two_le))
      (fun e he => hle e.2 (mem_heapOf.mp he).1)
    rw [kraft, (heapOf_perm.map _).sum_eq, map_map] at hkraft
    rw [← hkraft, hmap, kraftSum, map_map]
    conv_rhs => rw [usedSymbols, sum_filter_map]
    apply congrArg List.sum
    apply map_congr_left
    intro i hi
    have hiff : (decide (0 < freqs.getD i 0) = true) ↔ i ∈ usedSymbols freqs := by
      rw [mem_usedSymbols, decide_eq_true_iff, pos_iff_ne_zero]
    simp only [Function.comp_apply, hiff]
    by_cases hmem : i ∈ usedSymbols freqs
    · have := hpos i hmem
      simp only [hmem, if_true]
      rw [if_neg (by omega)]
      rfl
    · simp [hmem]
  refine ⟨⟨hlen, fun i => ?_, fun l hl => ?_, .inl hcomplete⟩, hcomplete⟩
  · rw [getD_eq_getElem?_getD]
    by_cases hi : i < freqs.length
    · rw [hget i hi, Option.getD_some]
      by_cases hmem : i ∈ usedSymbols freqs
      · have h1 := hpos i hmem
        have h2 := mem_usedSymbols.mp hmem
        rw [if_pos hmem]
        omega
      · rw [if_neg hmem]
        simpa [mem_usedSymbols] using hmem
    · rw [getElem?_eq_none (by omega), getD_eq_getElem?_getD, getElem?_eq_none (by omega)]
  · rw [hmap] at hl
    obtain ⟨i, -, rfl⟩ := mem_map.mp hl
    split
    case isTrue hi => exact hle i hi
    case isFalse => exact zero_le _

theorem codeFor_lonely (hlen : lengths.length = freqs.length)
    (hget : ∀ i, lengths.getD i 0 = if freqs.getD i 0 = 0 then 0 else 1) (hone : 1 ≤ limit)
    (hcount : lengths.length ≤ lengths.count 0 + 1) : CodeFor freqs limit lengths := by
  have hle : ∀ l ∈ lengths, l ≤ limit := by
    intro l hl
    obtain ⟨i, hi, rfl⟩ := getElem_of_mem hl
    have h := hget i
    rw [getD_eq_getElem?_getD, getElem?_eq_getElem hi, Option.getD_some] at h
    rw [h]
    split <;> omega
  refine ⟨hlen, fun i => ?_, hle, .inr ?_⟩
  · rw [hget i]
    split <;> simp_all
  · have h := firstIndex_eq_used fun l hl => lt_succ_of_le (hle l hl)
    rw [succ_eq_add_one] at h
    omega

theorem length_usedSymbols_le (freqs : List Nat) : (usedSymbols freqs).length ≤ freqs.length :=
  (length_filter_le ..).trans length_range.le

theorem buildLengths_spec (hsum : freqs.sum < 2 ^ 64)
    (hlimit : (usedSymbols freqs).length ≤ 2 ^ limit) (hone : 1 ≤ limit) :
    ∃ lengths, buildLengths freqs limit = .ok lengths ∧ CodeFor freqs limit lengths ∧
      (2 ≤ (usedSymbols freqs).length → kraftSum lengths limit = 2 ^ limit) := by
  have hnodup : (usedSymbols freqs).Nodup := nodup_range.filter _
  have hlt : ∀ s ∈ usedSymbols freqs, s < freqs.length := fun s hs =>
    mem_range.mp (mem_filter.mp hs).1
  rw [buildLengths]
  match hused : usedSymbols freqs with
  | [] =>
    refine ⟨_, rfl, codeFor_lonely (length_replicate ..) (fun i => ?_) hone ?_, by simp⟩
    · have hi : ¬ freqs.getD i 0 ≠ 0 := by rw [← mem_usedSymbols, hused]; simp
      rw [getD_eq_getElem?_getD, getElem?_replicate]
      split <;> simpa using hi
    · simp
  | [sym] =>
    have hsym := hlt sym (by simp [hused])
    refine ⟨_, store_of_lt _ (by simpa using hsym), codeFor_lonely (by simp) (fun i => ?_) hone ?_, by simp⟩
    · have hi : freqs.getD i 0 ≠ 0 ↔ i = sym := by rw [← mem_usedSymbols, hused]; simp
      rw [getD_eq_getElem?_getD, getElem?_set]
      by_cases his : sym = i
      · subst his
        rw [if_pos rfl, if_pos (by simpa using hsym), if_neg (hi.mpr rfl)]
        rfl
      · have h0 : freqs.getD i 0 = 0 := by
          by_contra h
          exact his (hi.mp h).symm
        rw [if_neg his, getElem?_replicate, h0]
        split <;> simp
    · rw [count_set (by simpa using hsym)]
      simp
      omega
  | a :: b :: rest =>
    have hu : UsedOk freqs.length (usedSymbols freqs) := ⟨hnodup, hlt, by simp [hused]⟩
    have hweight := weightOf_usedSymbols freqs
    obtain ⟨_, lengths, hbuild, hlen, hget, hdeep⟩ := rebuild_spec hu hlimit freqs (replicate freqs.length 0)
      (freqs.sum + 1) (fun s hs => pos_of_ne_zero (mem_usedSymbols.mp hs)) (by omega)
      (length_replicate ..)
      (fun i hi _ => by rw [getElem?_replicate, if_pos hi]) (by omega)
    rw [hused] at hbuild
    obtain ⟨hcode, hcomplete⟩ := codeFor_roundDepth hu hlen hget hdeep
    exact ⟨lengths, hbuild, hcode, fun _ => hcomplete⟩

end Rustlavel.Http.Deflate
