/-
  Any number of threads over a shared state, interleaved in any way. A thread has a state of its own, and a step
  of it may be refused, which is how it waits.
-/

import Mathlib

/-- Threads `τ` over a shared state `σ`. -/
structure Threads (σ τ χ : Type) where
  starts : τ → Bool
  next : σ → τ → χ → Option (σ × τ)

namespace Threads

open List Option

variable {σ τ χ : Type}

structure Config (σ τ : Type) where
  shared : σ
  threads : List τ

inductive Event (τ χ : Type) where
  | start (t : τ)
  | step (i : Nat) (choice : χ)

variable (T : Threads σ τ χ)

def perform (c : Config σ τ) : Event τ χ → Option (Config σ τ)
  | .start t => if T.starts t then some { c with threads := c.threads ++ [t] } else none
  | .step i choice =>
    (c.threads[i]?).bind fun t => (T.next c.shared t choice).map fun r =>
      { shared := r.1, threads := c.threads.set i r.2 }

def Run : Config σ τ → Config σ τ → Prop := Relation.ReflTransGen fun c c' => ∃ e, T.perform c e = some c'

def play (c : Config σ τ) : List (Event τ χ) → Option (Config σ τ)
  | [] => some c
  | e :: es => (T.perform c e).bind fun c' => play c' es

variable {T} {c c' : Config σ τ}

theorem play_run {es : List (Event τ χ)} (h : T.play c es = some c') : T.Run c c' := by
  induction es generalizing c with
  | nil =>
    cases h
    exact .refl
  | cons e es ih =>
    obtain ⟨_, he, hes⟩ := bind_eq_some_iff.mp h
    exact .head ⟨e, he⟩ (ih hes)

/-! ## Invariants -/

theorem Run.keeps {P : Config σ τ → Prop}
    (hstart : ∀ {c t}, P c → T.starts t = true → P { c with threads := c.threads ++ [t] })
    (hstep : ∀ {c i t choice s t'}, P c → c.threads[i]? = some t → T.next c.shared t choice = some (s, t') →
      P { shared := s, threads := c.threads.set i t' })
    (h : T.Run c c') (hc : P c) : P c' := by
  induction h with
  | refl => exact hc
  | tail _ hperform ih =>
    obtain ⟨e, he⟩ := hperform
    cases e with
    | start =>
      obtain ⟨ht, he⟩ := ite_none_right_eq_some.mp he
      cases he
      exact hstart ih ht
    | step =>
      obtain ⟨_, ht, he⟩ := bind_eq_some_iff.mp he
      obtain ⟨⟨_, _⟩, hnext, he⟩ := map_eq_some_iff.mp he
      cases he
      exact hstep ih ht hnext

theorem Run.each {P : σ → Prop} {Q : σ → τ → Prop} (hstart : ∀ {s t}, P s → T.starts t = true → Q s t)
    (hstep : ∀ {s t choice s' t'}, P s → Q s t → T.next s t choice = some (s', t') →
      P s' ∧ Q s' t' ∧ ∀ u, Q s u → Q s' u)
    (h : T.Run c c') (hc : P c.shared ∧ ∀ t ∈ c.threads, Q c.shared t) :
    P c'.shared ∧ ∀ t ∈ c'.threads, Q c'.shared t := by
  refine Run.keeps (P := fun c => P c.shared ∧ ∀ t ∈ c.threads, Q c.shared t) ?_ ?_ h hc
  · rintro c t ⟨hP, hQ⟩ ht
    refine ⟨hP, fun u hu => ?_⟩
    rcases mem_append.mp hu with hu | hu
    · exact hQ u hu
    · rw [mem_singleton.mp hu]
      exact hstart hP ht
  · rintro c i t choice s t' ⟨hP, hQ⟩ ht hnext
    obtain ⟨hP', hQ', hothers⟩ := hstep hP (hQ t (mem_of_getElem? ht)) hnext
    refine ⟨hP', fun u hu => ?_⟩
    rcases mem_or_eq_of_mem_set hu with hu | rfl
    · exact hothers u (hQ u hu)
    · exact hQ'

theorem getElem?_set_cases {ts : List τ} {i j : Nat} {t t' u : τ} (ht : ts[i]? = some t) :
    (ts.set i t')[j]? = some u ↔ j = i ∧ u = t' ∨ j ≠ i ∧ ts[j]? = some u := by
  obtain ⟨hi, -⟩ := List.getElem?_eq_some_iff.mp ht
  rw [List.getElem?_set]
  split
  · rename_i hij
    simp [← hij, hi, eq_comm]
  · rename_i hij
    simp [Ne.symm hij]

theorem play_congr {ρ : Type} {view : σ → ρ} (h : ∀ {s s' : σ}, view s = view s' → ∀ t choice,
      (T.next s t choice).map (Prod.map view id) = (T.next s' t choice).map (Prod.map view id))
    (es : List (Event τ χ)) {s s' : σ} (hs : view s = view s') (ts : List τ) :
    (T.play ⟨s, ts⟩ es).map (fun c => (view c.shared, c.threads)) =
      (T.play ⟨s', ts⟩ es).map (fun c => (view c.shared, c.threads)) := by
  induction es generalizing s s' ts with
  | nil => simp [play, hs]
  | cons e es ih =>
    cases e with
    | start =>
      simp only [play, perform]
      split
      · exact ih hs _
      · rfl
    | step i choice =>
      simp only [play, perform]
      cases ts[i]? with
      | none => rfl
      | some t =>
        have hnext := h hs t choice
        cases hn : T.next s t choice <;> cases hn' : T.next s' t choice <;>
          simp [hn, hn', Prod.ext_iff] at hnext
        · simp [hn, hn']
        · simp only [bind_some, hn, hn', map_some, hnext.2]
          exact ih hnext.1 _

/-! ## Sums over the threads -/

namespace Config

variable (f : τ → Nat)

def total (c : Config σ τ) : Nat := (c.threads.map f).sum

theorem total_start (t : τ) : total f { c with threads := c.threads ++ [t] } = total f c + f t := by
  rw [total, total, map_append, sum_append, map_singleton, sum_singleton]

theorem total_step {i : Nat} {t : τ} (ht : c.threads[i]? = some t) (s : σ) (t' : τ) :
    total f { shared := s, threads := c.threads.set i t' } + f t = total f c + f t' := by
  obtain ⟨hi, rfl⟩ := List.getElem?_eq_some_iff.mp ht
  have hsplit : (c.threads.map f).sum = ((c.threads.take i).map f).sum +
    (f c.threads[i] + ((c.threads.drop (i + 1)).map f).sum) := by
    rw [← sum_cons, ← map_cons, getElem_cons_drop, ← sum_append, ← map_append, take_append_drop]
  show ((c.threads.set i t').map f).sum + _ = (c.threads.map f).sum + _
  rw [set_eq_take_append_cons_drop, if_pos hi, map_append, map_cons, sum_append, sum_cons, hsplit]
  omega

theorem total_le_total {f g : τ → Nat} (h : ∀ t, f t ≤ g t) : total f c ≤ total g c := sum_le_sum fun t _ => h t

theorem le_total {t : τ} (ht : t ∈ c.threads) : f t ≤ total f c := le_sum_of_mem (mem_map_of_mem ht)

theorem add_le_total {i j : Nat} {t u : τ} (hij : i ≠ j) (ht : c.threads[i]? = some t)
    (hu : c.threads[j]? = some u) : f t + f u ≤ total f c := by
  obtain ⟨_, rfl⟩ := List.getElem?_eq_some_iff.mp ht
  have hlength : i < (c.threads.map f).length := by rwa [length_map]
  have hmem : f u ∈ (c.threads.map f).eraseIdx i := by
    refine mem_eraseIdx_iff_getElem?.mpr ⟨j, hij.symm, ?_⟩
    rw [List.getElem?_map, hu]
    rfl
  rw [total, ← List.CommMonoid.add_sum_eraseIdx hlength, getElem_map]
  exact Nat.add_le_add_left (le_sum_of_mem hmem) _

end Config

end Threads
