/-
  Programs against a database, run concurrently. A call is a sequence of transactions; a statement on its own is
  a transaction of one statement.
-/

import Mathlib

namespace Transact

open Option ExceptT List

/-! ## Programs -/

/-- A database of type `D` to which row writes of type `W` can be applied. -/
class Store (D W : Type) where
  apply : W → D → D

inductive Tx (D W α : Type) : Type where
  | ret (a : α)
  | select (k : D → Tx D W α)
  | update (w : D → Option W) (k : Bool → Tx D W α)
  | insert (w : Nat → D → Option W) (k : Nat → Bool → Tx D W α)

inductive Verdict (β : Type) : Type where
  | commit (b : β)
  | rollback (b : β)

/-- A call: transactions in sequence, each with a label that names the point of the program it stands at. -/
inductive Prog (L D W ρ : Type) : Type 1 where
  | ret (r : ρ)
  | step (l : L) {β : Type} (body : Tx D W (Verdict β)) (k : β → Prog L D W ρ)

variable {Req L D W α β ρ ρ' ε : Type} {r : ρ}

namespace Tx

def bind : Tx D W α → (α → Tx D W β) → Tx D W β
  | .ret a, f => f a
  | .select k, f => .select fun d => (k d).bind f
  | .update w k, f => .update w fun b => (k b).bind f
  | .insert w k, f => .insert w fun n b => (k n b).bind f

instance : Monad (Tx D W) where
  pure := .ret
  bind := bind

/-- The whole transaction at once: its result, the next number to draw, and the database it leaves. -/
def run [Store D W] : Tx D W α → Nat → D → α × Nat × D
  | .ret a, n, d => (a, n, d)
  | .select k, n, d => (k d).run n d
  | .update w k, n, d =>
    match w d with
    | some x => (k true).run n (Store.apply x d)
    | none => (k false).run n d
  | .insert w k, n, d =>
    match w n d with
    | some x => (k n true).run (n + 1) (Store.apply x d)
    | none => (k n false).run (n + 1) d

section

variable [Store D W]

theorem run_bind (x : Tx D W α) (f : α → Tx D W β) (n : Nat) (d : D) :
    (x >>= f).run n d = (f (x.run n d).1).run (x.run n d).2.1 (x.run n d).2.2 := by
  induction x generalizing n d with
  | ret => rfl
  | select k ih => exact ih d n d
  | update w k ih =>
    show (Tx.update w fun b => (k b).bind f).run n d = _
    rw [run, run]
    cases w d with
    | some => exact ih true n _
    | none => exact ih false n d
  | insert w k ih =>
    show (Tx.insert w fun m b => (k m b).bind f).run n d = _
    rw [run, run]
    cases w n d with
    | some => exact ih n true (n + 1) _
    | none => exact ih n false (n + 1) d

theorem le_run (x : Tx D W α) (n : Nat) (d : D) : n ≤ (x.run n d).2.1 := by
  induction x generalizing n d with
  | ret => exact Nat.le_refl n
  | select k ih => exact ih d n d
  | update w k ih =>
    rw [run]
    cases w d with
    | some => exact ih true n _
    | none => exact ih false n d
  | insert w k ih =>
    rw [run]
    cases w n d with
    | some => exact Nat.le_of_succ_le (ih n true (n + 1) _)
    | none => exact Nat.le_of_succ_le (ih n false (n + 1) d)

theorem run_except_bind (x : ExceptT ε (Tx D W) α) (f : α → ExceptT ε (Tx D W) β) (n : Nat) (d : D) :
    Tx.run (ExceptT.run (x >>= f)) n d =
      match Tx.run x.run n d with
      | (.ok a, n', d') => Tx.run (f a).run n' d'
      | (.error e, n', d') => (.error e, n', d') := by
  show (x.run >>= ExceptT.bindCont f).run n d = _
  rw [run_bind]
  rcases Tx.run x.run n d with ⟨a | a, n', d'⟩ <;> rfl

end

/-! ### Fallible statements -/

def query (f : D → α) : ExceptT ε (Tx D W) α := mk (.select fun d => .ret (.ok (f d)))

/-- An `UPDATE`, and whether it found its row. -/
def tryUpdate (w : D → Option W) : ExceptT ε (Tx D W) Bool := mk (.update w fun b => .ret (.ok b))

variable (w : Nat → D → Option W)

/-- An `INSERT`: the number drawn for it, and whether the row went in. -/
def tryInsert : ExceptT ε (Tx D W) (Nat × Bool) :=
  mk (.insert w fun n b => .ret (.ok (n, b)))

section

variable [Store D W]

theorem run_tryUpdate (w : D → Option W) (n : Nat) (d : D) :
    Tx.run (ExceptT.run (tryUpdate w : ExceptT ε (Tx D W) Bool)) n d =
      match w d with
      | some x => (.ok true, n, Store.apply x d)
      | none => (.ok false, n, d) := rfl

theorem run_tryInsert (n : Nat) (d : D) : Tx.run (ExceptT.run (tryInsert w : ExceptT ε (Tx D W) (Nat × Bool))) n d =
      match w n d with
      | some x => (.ok (n, true), n + 1, Store.apply x d)
      | none => (.ok (n, false), n + 1, d) := rfl

end

end Tx

namespace Prog

def bind : Prog L D W ρ → (ρ → Prog L D W ρ') → Prog L D W ρ'
  | .ret r, f => f r
  | .step l body k, f => .step l body fun b => (k b).bind f

instance : Monad (Prog L D W) where
  pure := .ret
  bind := bind

/-- How a fallible body ends its transaction: an error drops it, which rolls it back. -/
def verdict : Except ε (Verdict α) → Verdict (Except ε α)
  | .ok (.commit a) => .commit (.ok a)
  | .ok (.rollback a) => .rollback (.ok a)
  | .error e => .rollback (.error e)

def result : Prog L D W ρ → Option ρ
  | .ret r => some r
  | .step .. => none

theorem eq_ret_of_result {p : Prog L D W ρ} (h : p.result = some r) : p = .ret r := by
  cases p with
  | ret => rw [some.inj h]
  | step => cases h

theorem ret_of_result {calls : List (Req × Prog L D W ρ)} {i : Nat} {req : Req}
    (h : (calls[i]?).map (fun x => (x.1, x.2.result)) = some (req, some r)) : calls[i]? = some (req, .ret r) := by
  obtain ⟨⟨_, p⟩, hget, heq⟩ := map_eq_some_iff.mp h
  obtain ⟨rfl, hresult⟩ := Prod.mk.inj heq
  obtain rfl : p = .ret r := eq_ret_of_result hresult
  exact hget

def transaction (l : L) (body : ExceptT ε (Tx D W) (Verdict α)) : ExceptT ε (Prog L D W) α :=
  mk (.step l (body.run.bind fun r => .ret (verdict r)) .ret)

def statement (l : L) (body : ExceptT ε (Tx D W) α) : ExceptT ε (Prog L D W) α :=
  transaction l (body >>= fun a => pure (.commit a))

end Prog

def settle (d : D) : Verdict β × Nat × D → β × Nat × D
  | (.commit b, n, d') => (b, n, d')
  | (.rollback b, n, _) => (b, n, d)

@[simp] theorem settle_rollback (d d' : D) (b : β) (n : Nat) : settle d (.rollback b, n, d') = (b, n, d) := rfl

def Prog.alone [Store D W] : Prog L D W ρ → Nat → D → ρ × Nat × D
  | .ret r, n, d => (r, n, d)
  | .step _ body k, n, d =>
    let out := settle d (body.run n d)
    (k out.1).alone out.2.1 out.2.2

theorem Prog.alone_bind [Store D W] (p : Prog L D W ρ) (f : ρ → Prog L D W ρ') (n : Nat) (d : D) :
    (p >>= f).alone n d = (f (p.alone n d).1).alone (p.alone n d).2.1 (p.alone n d).2.2 := by
  induction p generalizing n d with
  | ret => rfl
  | step l body k ih => exact ih _ _ _

theorem Prog.alone_query [Store D W] (l : L) (f : D → α) (k : α → ExceptT ε (Prog L D W) ρ) (n : Nat) (d : D) :
    (statement l (Tx.query f) >>= k).run.alone n d = (k (f d)).run.alone n d := rfl

theorem Prog.alone_tryUpdate [Store D W] (l : L) (w : D → Option W) (n : Nat) (d : D) :
    (statement l (Tx.tryUpdate w) : ExceptT ε (Prog L D W) Bool).run.alone n d =
      match w d with
      | some x => (.ok true, n, Store.apply x d)
      | none => (.ok false, n, d) := by
  show settle d (match w d with
    | some x => (.commit (Except.ok true : Except ε Bool), n, Store.apply x d)
    | none => (.commit (.ok false), n, d)) = _
  cases w d <;> rfl

/-! ## Calls by index -/

section

variable {γ : Type*} {xs : List γ} {i j : Nat} {x y : γ}

theorem getElem?_concat (h : xs[j]? = some x) (y : γ) : (xs ++ [y])[j]? = some x := by
  rw [getElem?_append_left (List.getElem?_eq_some_iff.mp h).1, h]

theorem of_getElem?_concat (h : (xs ++ [y])[j]? = some x) : xs[j]? = some x ∨ x = y := by
  rw [getElem?_append] at h
  split at h
  · exact .inl h
  · exact .inr (by simpa using mem_of_getElem? h)

theorem of_getElem?_set (h : (xs.set i y)[j]? = some x) : i ≠ j ∧ xs[j]? = some x ∨ i = j ∧ x = y := by
  rw [getElem?_set] at h
  split at h
  · split at h
    · exact .inr ⟨‹_›, (some.inj h).symm⟩
    · cases h
  · exact .inl ⟨‹_›, h⟩

end

/-! ## Runs -/

structure Config (Req L D W ρ : Type) : Type 1 where
  next : Nat
  db : D
  calls : List (Req × Prog L D W ρ)

/-- A system of calls: what each request runs, which requests may be made, and
    the condition under which a call takes a step. -/
structure System (Req L D W ρ : Type) : Type 1 where
  program : Req → Prog L D W ρ
  allowed : Req → Prop
  cond : Req → L → D → Prop

namespace System

variable [Store D W] (sys : System Req L D W ρ)

/-- The call with index `i`, made for `req`, takes its next transaction, at the point `l` of its program. -/
inductive Advance (i : Nat) (req : Req) (l : L) : Config Req L D W ρ → Config Req L D W ρ → Prop where
  | mk {c : Config Req L D W ρ} {β : Type} {body : Tx D W (Verdict β)} {k : β → Prog L D W ρ}
      (h : c.calls[i]? = some (req, .step l body k)) (hcond : sys.cond req l c.db)
      {b : β} {n : Nat} {d : D} (hrun : settle c.db (body.run c.next c.db) = (b, n, d)) :
      Advance i req l c { next := n, db := d, calls := c.calls.set i (req, k b) }

/-- One step of a configuration: a new call, or the next transaction of a call already started. -/
inductive Step : Config Req L D W ρ → Config Req L D W ρ → Prop where
  | call {c : Config Req L D W ρ} (req : Req) (h : sys.allowed req) :
      Step c { c with calls := c.calls ++ [(req, sys.program req)] }
  | advance {c c' : Config Req L D W ρ} {i : Nat} {req : Req} {l : L} (h : sys.Advance i req l c c') : Step c c'

def Run : Config Req L D W ρ → Config Req L D W ρ → Prop := Relation.ReflTransGen sys.Step

def Reachable (d0 : D) (c : Config Req L D W ρ) : Prop := sys.Run { next := 0, db := d0, calls := [] } c

section

variable {sys} {i j : Nat} {req : Req} {l : L} {r : ρ} {p : Prog L D W ρ} {c c' : Config Req L D W ρ}

theorem Advance.getElem?_of_ne (h : sys.Advance i req l c c') (hij : i ≠ j) : c'.calls[j]? = c.calls[j]? := by
  cases h with
  | mk => exact getElem?_set_ne hij

theorem Advance.getElem?_self (h : sys.Advance i req l c c') :
    ∃ p p', c.calls[i]? = some (req, p) ∧ c'.calls[i]? = some (req, p') := by
  cases h with
  | mk hcall => exact ⟨_, _, hcall, getElem?_set_self (List.getElem?_eq_some_iff.mp hcall).1⟩

theorem Advance.ne_ret {req' : Req} (h : sys.Advance i req l c c') : c.calls[i]? ≠ some (req', .ret r) := by
  cases h with
  | mk hcall =>
    rw [hcall]
    intro heq
    cases heq

theorem Run.request (hrun : sys.Run c c') (h : c.calls[j]? = some (req, p)) :
    ∃ p', c'.calls[j]? = some (req, p') := by
  induction hrun with
  | refl => exact ⟨p, h⟩
  | tail _ hstep ih =>
    obtain ⟨p1, h1⟩ := ih
    cases hstep with
    | call => exact ⟨p1, getElem?_concat h1 _⟩
    | @advance _ i req' l hadvance =>
      by_cases hij : i = j
      · subst hij
        obtain ⟨_, q', hq, hq'⟩ := hadvance.getElem?_self
        rw [hq] at h1
        cases h1
        exact ⟨q', hq'⟩
      · exact ⟨p1, (hadvance.getElem?_of_ne hij).trans h1⟩

theorem Run.returned (hrun : sys.Run c c') (h : c.calls[j]? = some (req, .ret r)) :
    c'.calls[j]? = some (req, .ret r) := by
  induction hrun with
  | refl => exact h
  | tail _ hstep ih =>
    cases hstep with
    | call => exact getElem?_concat ih _
    | @advance _ i req' l hadvance =>
      by_cases hij : i = j
      · subst hij
        exact absurd ih hadvance.ne_ret
      · rw [hadvance.getElem?_of_ne hij, ih]

theorem Run.beside (hrun : sys.Run c c') (calls : List (Req × Prog L D W ρ)) :
    sys.Run { c with calls := calls ++ c.calls } { c' with calls := calls ++ c'.calls } := by
  induction hrun with
  | refl => exact .refl
  | @tail c _ _ hstep ih =>
    refine .tail ih ?_
    cases hstep with
    | call req h =>
      rw [← append_assoc]
      exact .call req h
    | @advance _ i req l h =>
      cases h with
      | @mk _ body k hcall hcond b n d hrun =>
        have hget : (calls ++ c.calls)[calls.length + i]? = some (req, .step l body k) := by
          rw [getElem?_append_right (Nat.le_add_right ..), Nat.add_sub_cancel_left, hcall]
        have hset : calls ++ c.calls.set i (req, k b) = (calls ++ c.calls).set (calls.length + i) (req, k b) := by
          rw [set_append_right _ _ (Nat.le_add_right ..), Nat.add_sub_cancel_left]
        rw [hset]
        exact .advance (.mk (c := { c with calls := calls ++ c.calls }) hget hcond hrun)

theorem Reachable.of_program_ret {d0 : D} (hc : sys.Reachable d0 c)
    (hcall : c.calls[i]? = some (req, p)) (hprogram : sys.program req = .ret r) : p = .ret r := by
  induction hc generalizing p with
  | refl => cases hcall
  | @tail c c' hrun hstep ih =>
    cases hstep with
    | call =>
      rcases of_getElem?_concat hcall with hcall | heq
      · exact ih hcall
      · cases heq
        exact hprogram
    | @advance _ j req' l h =>
      cases h with
      | mk hstep =>
        rcases of_getElem?_set hcall with ⟨-, hcall⟩ | ⟨rfl, heq⟩
        · exact ih hcall
        · cases heq
          cases ih hstep

end

/-! ### Schedules -/

inductive Event (Req : Type) where
  | call (req : Req)
  | advance (i : Nat)

variable [DecidablePred sys.allowed] [∀ req l d, Decidable (sys.cond req l d)] {c c' : Config Req L D W ρ}

def follow (c : Config Req L D W ρ) : Event Req → Option (Config Req L D W ρ)
  | .call req =>
    if sys.allowed req then some { c with calls := c.calls ++ [(req, sys.program req)] } else none
  | .advance i =>
    match c.calls[i]? with
    | some (req, .step l body k) =>
      if sys.cond req l c.db then
        let out := settle c.db (body.run c.next c.db)
        some { next := out.2.1, db := out.2.2, calls := c.calls.set i (req, k out.1) }
      else none
    | _ => none

def play : List (Event Req) → Config Req L D W ρ → Option (Config Req L D W ρ)
  | [], c => some c
  | e :: es, c => (sys.follow c e).bind (play es)

theorem follow_step {e : Event Req} (h : sys.follow c e = some c') : sys.Step c c' := by
  cases e with
  | call req =>
    simp only [follow] at h
    split at h
    · cases h
      exact .call req ‹_›
    · cases h
  | advance i =>
    simp only [follow] at h
    split at h
    · rename_i hcall
      split at h
      · cases h
        exact .advance (.mk hcall ‹_› rfl)
      · cases h
    · cases h

theorem play_run {es : List (Event Req)} (h : sys.play es c = some c') : sys.Run c c' := by
  induction es generalizing c with
  | nil =>
    cases h
    exact .refl
  | cons e es ih =>
    obtain ⟨_, hfollow, hplay⟩ := bind_eq_some_iff.mp h
    exact .head (sys.follow_step hfollow) (ih hplay)

variable (es : List (Event Req)) {v : α} (sys' : System Req L D W ρ)

theorem play_reachable (d0 : D) (f : Config Req L D W ρ → α)
    (h : (sys.play es { next := 0, db := d0, calls := [] }).map f = some v) :
    ∃ c, sys.Reachable d0 c ∧ f c = v := by
  obtain ⟨c, hplay, hv⟩ := map_eq_some_iff.mp h
  exact ⟨c, sys.play_run hplay, hv⟩

theorem play_call {es : List (Event Req)} {req : Req} (h : sys.play (.call req :: es) c = some c')
    (hresult : ((c'.calls[c.calls.length]?).bind fun x => x.2.result) = some r) :
    sys.Run { c with calls := c.calls ++ [(req, sys.program req)] } c' ∧
      c'.calls[c.calls.length]? = some (req, .ret r) := by
  have hrun : sys.Run { c with calls := c.calls ++ [(req, sys.program req)] } c' := by
    obtain ⟨_, hcall, hplay⟩ := bind_eq_some_iff.mp h
    simp only [follow] at hcall
    split at hcall
    · cases hcall
      exact sys.play_run hplay
    · cases hcall
  obtain ⟨p, hp⟩ := hrun.request getElem?_concat_length
  rw [hp] at hresult
  obtain rfl : p = .ret r := Prog.eq_ret_of_result hresult
  exact ⟨hrun, hp⟩

theorem play_phases [DecidablePred sys'.allowed]
    [∀ req l d, Decidable (sys'.cond req l d)] (es es1 es2 : List (Event Req)) (req : Req) (d0 : D)
    (r : ρ) (f : Config Req L D W ρ → Config Req L D W ρ → α)
    (h : (sys.play es { next := 0, db := d0, calls := [] }).bind (fun c0 =>
      (sys'.play (.call req :: es1) c0).bind fun c => (sys'.play es2 c).map fun c' =>
        ((c.calls[c0.calls.length]?).bind fun x => x.2.result, f c c')) = some (some r, v)) :
    ∃ c0 c c', sys.Reachable d0 c0 ∧ sys'.Run { c0 with calls := c0.calls ++ [(req, sys'.program req)] } c ∧
      c.calls[c0.calls.length]? = some (req, .ret r) ∧ sys'.Run c c' ∧ f c c' = v := by
  obtain ⟨c0, hplay, h⟩ := bind_eq_some_iff.mp h
  obtain ⟨c, hplay1, h⟩ := bind_eq_some_iff.mp h
  obtain ⟨c', hplay2, hv⟩ := map_eq_some_iff.mp h
  obtain ⟨hresult, hv⟩ := Prod.mk.inj hv
  obtain ⟨hrun, hreturned⟩ := sys'.play_call hplay1 hresult
  exact ⟨c0, c, c', sys.play_run hplay, hrun, hreturned, sys'.play_run hplay2, hv⟩

theorem play_after (es1 : List (Event Req)) (c : Config Req L D W ρ) (i : Nat) (req req' : Req) (r r' : ρ)
    (h : (sys.play es c).bind (fun c0 => (sys.play (.call req' :: es1) c0).map fun c1 =>
        ((c1.calls[c0.calls.length]?).bind fun x => x.2.result,
          (c0.calls[i]?).map fun x => (x.1, x.2.result))) = some (some r', some (req, some r))) :
    ∃ c0 c1, sys.Run c c0 ∧ c0.calls[i]? = some (req, .ret r) ∧
      sys.Run { c0 with calls := c0.calls ++ [(req', sys.program req')] } c1 ∧
      c1.calls[c0.calls.length]? = some (req', .ret r') := by
  obtain ⟨c0, hplay, h⟩ := bind_eq_some_iff.mp h
  obtain ⟨c1, hplay1, hv⟩ := map_eq_some_iff.mp h
  obtain ⟨hresult, hbefore⟩ := Prod.mk.inj hv
  obtain ⟨hrun, hreturned⟩ := sys.play_call hplay1 hresult
  exact ⟨c0, c1, sys.play_run hplay, Prog.ret_of_result hbefore, hrun, hreturned⟩

theorem play_then [DecidablePred sys'.allowed]
    [∀ req l d, Decidable (sys'.cond req l d)] (es es' : List (Event Req)) (d0 : D)
    (f : Config Req L D W ρ → Config Req L D W ρ → α)
    (h : (sys.play es { next := 0, db := d0, calls := [] }).bind (fun c => (sys'.play es' c).map (f c)) = some v) :
    ∃ c c', sys.Reachable d0 c ∧ sys'.Run c c' ∧ f c c' = v := by
  obtain ⟨c, hplay, h⟩ := bind_eq_some_iff.mp h
  obtain ⟨c', hplay', hv⟩ := map_eq_some_iff.mp h
  exact ⟨c, c', sys.play_run hplay, sys'.play_run hplay', hv⟩

theorem play_returned (d0 : D) (i : Nat) (req : Req) (r : ρ)
    (h : (sys.play es { next := 0, db := d0, calls := [] }).map
      (fun c => (c.calls[i]?).map fun x => (x.1, x.2.result)) = some (some (req, some r))) :
    ∃ c, sys.Reachable d0 c ∧ c.calls[i]? = some (req, .ret r) := by
  obtain ⟨c, hc, hcall⟩ := sys.play_reachable es d0 _ h
  exact ⟨c, hc, Prog.ret_of_result hcall⟩

end System

end Transact

