/-
  Tables as lists of rows with a key: the row update `modify`, totals of a column over the rows that satisfy a
  condition, and how the two combine.
-/

import Mathlib

namespace Rows

open List

variable {R K β : Type}

/-! ## Updating the rows with a key -/

def modify [DecidableEq K] (key : R → K) (k : K) (f : R → R) (rows : List R) : List R :=
  rows.map fun r => if key r = k then f r else r

/-- The column `g` of every row under a condition, added up. -/
def total (p : R → Bool) (g : R → Int) (rows : List R) : Int := ((rows.filter p).map g).sum

section

variable {key : R → K} {k : K} {f : R → R} {rows : List R} {r : R}

theorem eq_of_key (hnd : (rows.map key).Nodup) {r r' : R} (hr : r ∈ rows) (hr' : r' ∈ rows)
    (hk : key r = key r') : r = r' :=
  inj_on_of_nodup_map hnd hr hr' hk

theorem filter_key [DecidableEq K] (hnd : (rows.map key).Nodup) (hr : r ∈ rows) :
    rows.filter (fun x => key x = key r) = [r] := by
  induction rows with
  | nil => exact absurd hr not_mem_nil
  | cons x rows ih =>
    rw [map_cons, nodup_cons] at hnd
    rw [filter_cons]
    rcases mem_cons.mp hr with rfl | hr
    · have hrest : rows.filter (fun x => key x = key r) = [] := by
        refine filter_eq_nil_iff.mpr fun y hy hk => hnd.1 ?_
        rw [← of_decide_eq_true hk]
        exact mem_map_of_mem hy
      rw [if_pos (decide_eq_true rfl), hrest]
    · have hk : key x ≠ key r := fun hk => hnd.1 (hk ▸ mem_map_of_mem hr)
      rw [if_neg (by simpa using hk), ih hnd.2 hr]

theorem nodup_concat (hnd : (rows.map key).Nodup) (hnew : ∀ x ∈ rows, key x ≠ key r) :
    ((rows ++ [r]).map key).Nodup := by
  rw [map_append, map_singleton]
  refine nodup_append.mpr ⟨hnd, nodup_singleton _, fun x hx y hy => ?_⟩
  obtain ⟨x, hmem, rfl⟩ := mem_map.mp hx
  rw [mem_singleton.mp hy]
  exact hnew x hmem

theorem forall_concat {P : R → Prop} (h : ∀ x ∈ rows, P x) (hr : P r) : ∀ x ∈ rows ++ [r], P x := by
  intro x hx
  rcases mem_append.mp hx with hx | hx
  · exact h x hx
  · rw [mem_singleton.mp hx]
    exact hr

variable [DecidableEq K] {g : R → β}

theorem mem_modify {r' : R} : r' ∈ modify key k f rows ↔
    (r' ∈ rows ∧ key r' ≠ k) ∨ ∃ r ∈ rows, key r = k ∧ r' = f r := by
  unfold modify
  rw [mem_map]
  constructor
  · rintro ⟨r, hr, rfl⟩
    by_cases hk : key r = k
    · exact .inr ⟨r, hr, hk, if_pos hk⟩
    · rw [if_neg hk]
      exact .inl ⟨hr, hk⟩
  · rintro (⟨hr, hk⟩ | ⟨r, hr, hk, rfl⟩)
    · exact ⟨r', hr, if_neg hk⟩
    · exact ⟨r, hr, if_pos hk⟩

theorem map_modify (hg : ∀ r, g (f r) = g r) : (modify key k f rows).map g = rows.map g := by
  unfold modify
  rw [map_map]
  refine map_congr_left fun r _ => ?_
  show g (if key r = k then f r else r) = g r
  split
  · exact hg r
  · rfl

theorem nodup_modify (hnd : (rows.map g).Nodup) (hg : ∀ r, g (f r) = g r) : ((modify key k f rows).map g).Nodup := by
  rw [map_modify hg]
  exact hnd

theorem nodup_modify_of_ne (hkey : (rows.map key).Nodup) (hnd : (rows.map g).Nodup)
    (hnew : ∀ r ∈ rows, ∀ r' ∈ rows, key r = k → key r' ≠ k → g (f r) ≠ g r') :
    ((modify key k f rows).map g).Nodup := by
  unfold modify
  rw [map_map]
  refine List.Nodup.map_on (fun r hr r' hr' heq => ?_) (List.Nodup.of_map g hnd)
  simp only [Function.comp_apply] at heq
  by_cases hrk : key r = k
  · by_cases hrk' : key r' = k
    · exact eq_of_key hkey hr hr' (hrk.trans hrk'.symm)
    · rw [if_pos hrk, if_neg hrk'] at heq
      exact absurd heq (hnew r hr r' hr' hrk hrk')
  · by_cases hrk' : key r' = k
    · rw [if_neg hrk, if_pos hrk'] at heq
      exact absurd heq.symm (hnew r' hr' r hr hrk' hrk)
    · rw [if_neg hrk, if_neg hrk'] at heq
      exact eq_of_key hnd hr hr' heq

theorem forall_modify {P : R → Prop} (h : ∀ r ∈ rows, P r) (hf : ∀ r ∈ rows, key r = k → P (f r)) :
    ∀ r ∈ modify key k f rows, P r := by
  intro r hr
  rcases mem_modify.mp hr with ⟨hr, -⟩ | ⟨r0, hr0, hk, rfl⟩
  · exact h r hr
  · exact hf r0 hr0 hk

end

/-! ## Rows that exclude each other -/

section

variable {key : R → K} {k : K} {f : R → R} {rel : R → R → Prop} {rows : List R} {r : R}

def Apart (key : R → K) (rel : R → R → Prop) (rows : List R) : Prop := ∀ x ∈ rows, ∀ y ∈ rows, rel x y → key x = key y

theorem Apart.nil : Apart key rel [] := nofun

theorem Apart.concat (hsymm : ∀ x y, rel x y → rel y x) (h : Apart key rel rows)
    (hnew : ∀ x ∈ rows, ¬ rel x r) : Apart key rel (rows ++ [r]) := by
  intro x hx y hy hxy
  rcases mem_append.mp hx with hx | hx
  · rcases mem_append.mp hy with hy | hy
    · exact h x hx y hy hxy
    · rw [mem_singleton.mp hy] at hxy
      exact absurd hxy (hnew x hx)
  · rcases mem_append.mp hy with hy | hy
    · rw [mem_singleton.mp hx] at hxy
      exact absurd (hsymm _ _ hxy) (hnew y hy)
    · rw [mem_singleton.mp hx, mem_singleton.mp hy]

variable [DecidableEq K]

theorem Apart.modify (hsymm : ∀ x y, rel x y → rel y x) (h : Apart key rel rows) (hkey : ∀ r, key (f r) = key r)
    (hnew : ∀ x ∈ rows, ∀ r ∈ rows, key x ≠ k → key r = k → ¬ rel x (f r)) : Apart key rel (modify key k f rows) := by
  intro x hx y hy hxy
  rcases mem_modify.mp hx with ⟨hx, hxk⟩ | ⟨x0, hx0, hxk, rfl⟩
  · rcases mem_modify.mp hy with ⟨hy, -⟩ | ⟨y0, hy0, hyk, rfl⟩
    · exact h x hx y hy hxy
    · exact absurd hxy (hnew x hx y0 hy0 hxk hyk)
  · rcases mem_modify.mp hy with ⟨hy, hyk⟩ | ⟨y0, -, hyk, rfl⟩
    · exact absurd (hsymm _ _ hxy) (hnew y hy x0 hx0 hyk hxk)
    · rw [hkey, hkey, hxk, hyk]

theorem Apart.modify_of_imp (hsymm : ∀ x y, rel x y → rel y x) (h : Apart key rel rows)
    (hkey : ∀ r, key (f r) = key r) (himp : ∀ x ∈ rows, ∀ r ∈ rows, key r = k → rel x (f r) → rel x r) :
    Apart key rel (Rows.modify key k f rows) :=
  h.modify hsymm hkey fun x hx r hr hxk hrk hxr =>
    hxk ((h x hx r hr (himp x hx r hr hrk hxr)).trans hrk)

end

/-! ## Totals -/

section

variable {p : R → Bool} {g : R → Int} {rows : List R} {r : R}

@[simp] theorem total_nil : total p g [] = 0 := rfl

theorem total_cons : total p g (r :: rows) = (if p r then g r else 0) + total p g rows := by
  unfold total
  by_cases hp : p r
  · rw [filter_cons_of_pos hp, if_pos hp, map_cons, sum_cons]
  · rw [filter_cons_of_neg hp, if_neg hp, zero_add]

theorem total_append (rows' : List R) : total p g (rows ++ rows') = total p g rows + total p g rows' := by
  unfold total
  rw [filter_append, map_append, sum_append]

theorem total_concat : total p g (rows ++ [r]) = total p g rows + if p r then g r else 0 := by
  rw [total_append, total_cons, total_nil, add_zero]

theorem total_congr {q : R → Bool} {h : R → Int} (hp : ∀ r ∈ rows, p r = q r)
    (hg : ∀ r ∈ rows, p r → g r = h r) : total p g rows = total q h rows := by
  unfold total
  rw [← filter_congr hp]
  congr 1
  refine map_congr_left fun r hr => ?_
  obtain ⟨hr, hpr⟩ := mem_filter.mp hr
  exact hg r hr hpr

theorem total_eq_zero (h : ∀ r ∈ rows, p r → g r = 0) : total p g rows = 0 := by
  induction rows with
  | nil => rfl
  | cons r rows ih =>
    rw [total_cons, ih fun r' hr' => h r' (mem_cons_of_mem _ hr'), add_zero]
    split
    · exact h r mem_cons_self ‹_›
    · rfl

theorem total_neg : total p (fun r => - g r) rows = - total p g rows := by
  unfold total
  rw [sum_neg, map_map]
  rfl

theorem le_total (h : ∀ r ∈ rows, p r → 0 ≤ g r) (hr : r ∈ rows) (hp : p r) : g r ≤ total p g rows := by
  refine single_le_sum (fun x hx => ?_) _ (mem_map.mpr ⟨r, mem_filter.mpr ⟨hr, hp⟩, rfl⟩)
  obtain ⟨r', hr', rfl⟩ := mem_map.mp hx
  obtain ⟨hr', hpr⟩ := mem_filter.mp hr'
  exact h r' hr' hpr

theorem total_map {f : R → R} (hp : ∀ r ∈ rows, p (f r) = p r) :
    total p g (rows.map f) = total p g rows + total p (fun r => g (f r) - g r) rows := by
  induction rows with
  | nil => rfl
  | cons r rows ih =>
    rw [map_cons, total_cons, total_cons, total_cons, hp r mem_cons_self,
      ih fun r' hr' => hp r' (mem_cons_of_mem _ hr')]
    split <;> ring

variable [DecidableEq K] {key : R → K} {k : K} {f : R → R}

theorem modify_eq_self (h : ∀ r ∈ rows, key r = k → f r = r) : modify key k f rows = rows := by
  conv_rhs => rw [← map_id rows]
  refine map_congr_left fun r hr => ?_
  split
  · exact h r hr (by assumption)
  · rfl

theorem modify_of_not_mem (hk : k ∉ rows.map key) : modify key k f rows = rows :=
  modify_eq_self fun _ hr heq => absurd (heq ▸ mem_map_of_mem hr) hk

theorem total_modify (hnd : (rows.map key).Nodup) (hr : r ∈ rows) : total p g (modify key (key r) f rows) =
      total p g rows + ((if p (f r) then g (f r) else 0) - if p r then g r else 0) := by
  induction rows with
  | nil => exact absurd hr not_mem_nil
  | cons r0 rows ih =>
    rw [map_cons, nodup_cons] at hnd
    show total p g ((if key r0 = key r then f r0 else r0) :: modify key (key r) f rows) = _
    rw [total_cons, total_cons]
    rcases mem_cons.mp hr with rfl | hr
    · -- the row itself, and no other has its key
      rw [modify_of_not_mem hnd.1, if_pos rfl]
      ring
    · have hk : key r0 ≠ key r := fun hk => hnd.1 (hk ▸ mem_map_of_mem hr)
      rw [ih hnd.2 hr, if_neg hk]
      ring

end

end Rows
