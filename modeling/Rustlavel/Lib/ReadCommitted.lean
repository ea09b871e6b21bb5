/-
  The programs of `Transact`, run one statement at a time under READ COMMITTED.
-/

import Rustlavel.Lib.Transact

namespace Transact

open List Tx Option ExceptT

variable {Req L D W K α β ρ ε : Type}

/-- The rows and unique keys a write locks. -/
class Locks (W : Type) (K : outParam Type) where
  keys : W → List K

def view [Store D W] (d : D) (ws : List W) : D := ws.foldl (fun d w => Store.apply w d) d

@[simp] theorem view_nil [Store D W] (d : D) : view d ([] : List W) = d := rfl

@[simp] theorem view_concat [Store D W] (d : D) (ws : List W) (w : W) :
    view d (ws ++ [w]) = Store.apply w (view d ws) := foldl_append ..

theorem view_cons [Store D W] (d : D) (w : W) (ws : List W) : view d (w :: ws) = view (Store.apply w d) ws := rfl

/-- The next statement of a transaction: what is left of it, the next number to draw, and its write. -/
def Tx.next : Tx D W α → Nat → D → Option (Tx D W α × Nat × Option W)
  | .ret _, _, _ => none
  | .select k, n, d => some (k d, n, none)
  | .update w k, n, d =>
    match w d with
    | some x => some (k true, n, some x)
    | none => some (k false, n, none)
  | .insert w k, n, d =>
    match w n d with
    | some x => some (k n true, n + 1, some x)
    | none => some (k n false, n + 1, none)

namespace ReadCommitted

/-! ## Runs -/

/-- A call between two transactions, inside one with the writes made so far, or gone with its transaction. -/
inductive Session (L D W ρ : Type) : Type 1 where
  | outside (p : Prog L D W ρ)
  | inside (l : L) {β : Type} (body : Tx D W (Verdict β)) (k : β → Prog L D W ρ) (writes : List W)
  | stopped

def Session.writes : Session L D W ρ → List W
  | .inside _ _ _ ws => ws
  | _ => []

structure Config (Req L D W ρ : Type) : Type 1 where
  next : Nat
  db : D
  calls : List (Req × Session L D W ρ)
  history : List (Req × L × List W)

/-- A system of calls; the condition is on a write, where it is made and what its transaction then sees. -/
structure System (Req L D W ρ : Type) : Type 1 where
  program : Req → Prog L D W ρ
  allowed : Req → Prop
  cond : Req → L → W → D → Prop

def Apart [Locks W K] (ws ws' : List W) : Prop := ∀ x ∈ ws, ∀ y ∈ ws', ∀ key ∈ Locks.keys x, key ∉ Locks.keys y

theorem Apart.symm [Locks W K] {ws ws' : List W} (h : Apart ws ws') : Apart ws' ws :=
  fun x hx y hy key hkx hky => h y hy x hx key hky hkx

namespace System

variable [Store D W] [Locks W K] (sys : System Req L D W ρ)

def Free (c : Config Req L D W ρ) (i : Nat) (x : W) : Prop := ∀ s ∈ c.calls.zipIdx, s.2 ≠ i → Apart [x] s.1.2.writes

inductive Step : Config Req L D W ρ → Config Req L D W ρ → Prop where
  | call {c : Config Req L D W ρ} (req : Req) (h : sys.allowed req) :
      Step c { c with calls := c.calls ++ [(req, .outside (sys.program req))] }
  | start {c : Config Req L D W ρ} {i : Nat} {req : Req} {l : L} {β : Type}
      {body : Tx D W (Verdict β)} {k : β → Prog L D W ρ}
      (h : c.calls[i]? = some (req, .outside (.step l body k))) :
      Step c { c with calls := c.calls.set i (req, .inside l body k []) }
  | statement {c : Config Req L D W ρ} {i : Nat} {req : Req} {l : L} {β : Type}
      {body body' : Tx D W (Verdict β)} {k : β → Prog L D W ρ} {ws : List W} {n : Nat} {w : Option W}
      (h : c.calls[i]? = some (req, .inside l body k ws))
      (hnext : body.next c.next (view c.db ws) = some (body', n, w))
      (hfree : ∀ x ∈ w, Free c i x) (hcond : ∀ x ∈ w, sys.cond req l x (view c.db ws)) :
      Step c { c with next := n, calls := c.calls.set i (req, .inside l body' k (ws ++ w.toList)) }
  | commit {c : Config Req L D W ρ} {i : Nat} {req : Req} {l : L} {β : Type} {b : β}
      {k : β → Prog L D W ρ} {ws : List W}
      (h : c.calls[i]? = some (req, .inside l (.ret (.commit b)) k ws)) :
      Step c { c with
        db := view c.db ws
        calls := c.calls.set i (req, .outside (k b))
        history := c.history ++ [(req, l, ws)] }
  | rollback {c : Config Req L D W ρ} {i : Nat} {req : Req} {l : L} {β : Type} {b : β}
      {k : β → Prog L D W ρ} {ws : List W}
      (h : c.calls[i]? = some (req, .inside l (.ret (.rollback b)) k ws)) :
      Step c { c with calls := c.calls.set i (req, .outside (k b)) }
  | abort {c : Config Req L D W ρ} {i : Nat} {req : Req} {s : Session L D W ρ} (h : c.calls[i]? = some (req, s)) :
      Step c { c with calls := c.calls.set i (req, .stopped) }

def Reachable (d0 : D) (c : Config Req L D W ρ) : Prop :=
  Relation.ReflTransGen sys.Step { next := 0, db := d0, calls := [], history := [] } c

/-! ### Schedules -/

section

variable [DecidablePred sys.allowed] [∀ req l w d, Decidable (sys.cond req l w d)] [DecidableEq K]

instance (ws ws' : List W) : Decidable (Apart ws ws') := by
  unfold Apart
  infer_instance

instance (c : Config Req L D W ρ) (i : Nat) (x : W) : Decidable (Free c i x) := by
  unfold Free
  infer_instance

def follow (c : Config Req L D W ρ) : Transact.System.Event Req → Option (Config Req L D W ρ)
  | .call req =>
    if sys.allowed req then
      some { c with calls := c.calls ++ [(req, .outside (sys.program req))] }
    else none
  | .advance i =>
    match c.calls[i]? with
    | some (req, .outside (.step l body k)) =>
      some { c with calls := c.calls.set i (req, .inside l body k []) }
    | some (req, .inside l (.ret (.commit b)) k ws) =>
      some { c with
        db := view c.db ws
        calls := c.calls.set i (req, .outside (k b))
        history := c.history ++ [(req, l, ws)] }
    | some (req, .inside _ (.ret (.rollback b)) k _) =>
      some { c with calls := c.calls.set i (req, .outside (k b)) }
    | some (req, .inside l body k ws) =>
      match body.next c.next (view c.db ws) with
      | some (body', n, w) =>
        if ∀ x ∈ w, Free c i x ∧ sys.cond req l x (view c.db ws) then
          some { c with next := n, calls := c.calls.set i (req, .inside l body' k (ws ++ w.toList)) }
        else none
      | none => none
    | _ => none

def play : List (Transact.System.Event Req) → Config Req L D W ρ → Option (Config Req L D W ρ)
  | [], c => some c
  | e :: es, c => (sys.follow c e).bind (play es)

theorem follow_step {c c' : Config Req L D W ρ} {e : Transact.System.Event Req}
    (h : sys.follow c e = some c') : sys.Step c c' := by
  cases e with
  | call req =>
    simp only [follow] at h
    split at h
    · cases h
      exact .call req ‹_›
    · cases h
  | advance i =>
    simp only [follow] at h
    split at h
    · cases h
      exact .start ‹_›
    · cases h
      exact .commit ‹_›
    · cases h
      exact .rollback ‹_›
    · split at h
      · rename_i hcall _ _ _ _ hnext
        split at h
        · rename_i hmay
          cases h
          exact .statement hcall hnext (fun x hx => (hmay x hx).1) fun x hx => (hmay x hx).2
        · cases h
      · cases h
    · cases h

theorem play_reachable (es : List (Transact.System.Event Req)) (d0 : D) (f : Config Req L D W ρ → α)
    {v : α} (h : (sys.play es { next := 0, db := d0, calls := [], history := [] }).map f = some v) :
    ∃ c, sys.Reachable d0 c ∧ f c = v := by
  have hrun : ∀ {es : List (Transact.System.Event Req)} {c c' : Config Req L D W ρ},
      sys.play es c = some c' → Relation.ReflTransGen sys.Step c c' := by
    intro es
    induction es with
    | nil =>
      intro c c' h
      cases h
      exact .refl
    | cons e es ih =>
      intro c c' h
      obtain ⟨_, hfollow, hplay⟩ := bind_eq_some_iff.mp h
      exact .head (sys.follow_step hfollow) (ih hplay)
  obtain ⟨c, hplay, hv⟩ := map_eq_some_iff.mp h
  exact ⟨c, hrun hplay, hv⟩

end

end System

/-! ## Writes of one kind -/

/-- Whatever it reads, the transaction writes only what satisfies `P`. -/
def Only (P : W → Prop) : Tx D W α → Prop
  | .ret _ => True
  | .select k => ∀ d, Only P (k d)
  | .update w k => (∀ d x, w d = some x → P x) ∧ ∀ b, Only P (k b)
  | .insert w k => (∀ n d x, w n d = some x → P x) ∧ ∀ n b, Only P (k n b)

variable {P : W → Prop} {f : α → ExceptT ε (Tx D W) β} {w : Nat → D → Option W}

theorem Only.bind {x : Tx D W α} {f : α → Tx D W β} (hx : Only P x) (hf : ∀ a, Only P (f a)) : Only P (x >>= f) := by
  induction x with
  | ret a => exact hf a
  | select k ih => exact fun d => ih d (hx d)
  | update w k ih => exact ⟨hx.1, fun b => ih b (hx.2 b)⟩
  | insert w k ih => exact ⟨hx.1, fun n b => ih n b (hx.2 n b)⟩

theorem Only.except_bind {x : ExceptT ε (Tx D W) α}
    (hx : Only P x.run) (hf : ∀ a, Only P (f a).run) : Only P (x >>= f).run := by
  refine hx.bind fun r => ?_
  cases r with
  | ok a => exact hf a
  | error => trivial

theorem Only.query (f : D → α) : Only P (run (query f : ExceptT ε (Tx D W) α)) := fun _ => trivial

theorem Only.tryUpdate {w : D → Option W} (h : ∀ d x, w d = some x → P x) :
    Only P (run (tryUpdate w : ExceptT ε (Tx D W) Bool)) := ⟨h, fun _ => trivial⟩

theorem Only.tryInsert (h : ∀ n d x, w n d = some x → P x) :
    Only P (run (tryInsert w : ExceptT ε (Tx D W) (Nat × Bool))) :=
  ⟨h, fun _ _ => trivial⟩

/-! ## What a transaction knows -/

/-- What transactions promise each other: an invariant of history and database, what one that holds its locks may
    rely on, and what must be true when it commits. -/
structure Contract (Req L D W : Type) {K : Type} [Store D W] [Locks W K] where
  inv : List (Req × L × List W) → D → Prop
  good : D → Prop
  rely : List W → D → D → Prop
  commits : Req → L → List W → D → Prop
  good_of_inv : ∀ {h d}, inv h d → good d
  rely_refl : ∀ ws d, rely ws d d
  rely_trans : ∀ {ws d1 d2 d3}, rely ws d1 d2 → rely ws d2 d3 → rely ws d1 d3
  inv_commit : ∀ {h d req l ws}, inv h d → commits req l ws d → inv (h ++ [(req, l, ws)]) (view d ws)
  rely_commit : ∀ {d req l ws ws'}, good d → commits req l ws d → Apart ws' ws → rely ws' d (view d ws)

section

variable [Store D W] [Locks W K] (C : Contract Req L D W) (cond : Req → L → W → D → Prop) (req : Req) (l : L)

/-- From the writes `ws` over the committed database `d`, whatever others commit in
    between, the transaction ends in `post`. -/
def Holds (post : α → List W → D → Prop) : Tx D W α → List W → D → Prop
  | .ret a, ws, d => ∀ d', C.rely ws d d' → C.good d' → post a ws d'
  | .select k, ws, d => ∀ d', C.rely ws d d' → C.good d' → Holds post (k (view d' ws)) ws d'
  | .update w k, ws, d => ∀ d', C.rely ws d d' → C.good d' →
      (∀ x, w (view d' ws) = some x → cond req l x (view d' ws) → Holds post (k true) (ws ++ [x]) d') ∧
      (w (view d' ws) = none → Holds post (k false) ws d')
  | .insert w k, ws, d => ∀ d', C.rely ws d d' → C.good d' → ∀ n,
      (∀ x, w n (view d' ws) = some x → cond req l x (view d' ws) → Holds post (k n true) (ws ++ [x]) d') ∧
      (w n (view d' ws) = none → Holds post (k n false) ws d')

def Ends : Verdict β → List W → D → Prop
  | .commit _, ws, d => C.commits req l ws d
  | .rollback _, _, _ => True

def Each : Prog L D W ρ → Prop
  | .ret _ => True
  | .step l body k => (∀ d, Holds C cond req l (Ends C req l) body [] d) ∧ ∀ b, Each (k b)

def Session.Safe (d : D) : Session L D W ρ → Prop
  | .outside p => Each C cond req p
  | .inside l body k ws =>
    Holds C cond req l (Ends C req l) body ws d ∧ ∀ b, Each C cond req (k b)
  | .stopped => True

variable {C cond req l} {post : α → List W → D → Prop} {ws : List W} {d d' : D}

variable {x : Tx D W α} {n i : Nat} {body : ExceptT ε (Tx D W) (Verdict β)} {P : W → Prop}
  {J : List W → D → Prop} {s s' : Session L D W ρ} {c c' : Config Req L D W ρ} {post' : β → List W → D → Prop}

theorem Holds.mono (h : Holds C cond req l post x ws d) (hd : C.rely ws d d') : Holds C cond req l post x ws d' := by
  cases x with
  | ret | select | update | insert => exact fun d'' hrely => h d'' (C.rely_trans hd hrely)

theorem Holds.of_forall (h : ∀ d', C.rely ws d d' → C.good d' → Holds C cond req l post x ws d') :
    Holds C cond req l post x ws d := by
  cases x with
  | ret | select | update | insert =>
    exact fun d' hrely hgood => h d' hrely hgood d' (C.rely_refl ws d') hgood

theorem Holds.bind {f : α → Tx D W β}
    (h : Holds C cond req l (fun a ws d => Holds C cond req l post' (f a) ws d) x ws d) :
    Holds C cond req l post' (x >>= f) ws d := by
  induction x generalizing ws d with
  | ret a =>
    exact .of_forall h
  | select k ih => exact fun d' hrely hgood => ih _ (h d' hrely hgood)
  | update w k ih =>
    intro d' hrely hgood
    obtain ⟨htrue, hfalse⟩ := h d' hrely hgood
    exact ⟨fun x hx hcond => ih true (htrue x hx hcond), fun hnone => ih false (hfalse hnone)⟩
  | insert w k ih =>
    intro d' hrely hgood n
    obtain ⟨htrue, hfalse⟩ := h d' hrely hgood n
    exact ⟨fun x hx hcond => ih n true (htrue x hx hcond), fun hnone => ih n false (hfalse hnone)⟩

theorem Holds.imp {post' : α → List W → D → Prop} (h : Holds C cond req l post x ws d)
    (hpost : ∀ {a ws d}, Holds C cond req l post (.ret a) ws d → Holds C cond req l post' (.ret a) ws d) :
    Holds C cond req l post' x ws d := by
  induction x generalizing ws d with
  | ret => exact hpost h
  | select k ih => exact fun d' hrely hgood => ih _ (h d' hrely hgood)
  | update w k ih =>
    intro d' hrely hgood
    obtain ⟨htrue, hfalse⟩ := h d' hrely hgood
    exact ⟨fun x hx hcond => ih true (htrue x hx hcond), fun hnone => ih false (hfalse hnone)⟩
  | insert w k ih =>
    intro d' hrely hgood n
    obtain ⟨htrue, hfalse⟩ := h d' hrely hgood n
    exact ⟨fun x hx hcond => ih n true (htrue x hx hcond), fun hnone => ih n false (hfalse hnone)⟩

theorem Holds.weaken {post' : α → List W → D → Prop} (h : Holds C cond req l post x ws d)
    (hpost : ∀ a ws d, post a ws d → post' a ws d) : Holds C cond req l post' x ws d :=
  h.imp fun hret d' hrely hgood => hpost _ _ d' (hret d' hrely hgood)

theorem Holds.stable (h : Holds C cond req l post x ws d) :
    Holds C cond req l (fun a ws d => ∀ d', C.rely ws d d' → C.good d' → post a ws d') x ws d :=
  h.imp fun hret _ hrely _ d'' hrely' => hret d'' (C.rely_trans hrely hrely')

theorem Holds.next {x' : Tx D W α} {n' : Nat} {w : Option W} (h : Holds C cond req l post x ws d) (hgood : C.good d)
    (hnext : x.next n (view d ws) = some (x', n', w)) (hcond : ∀ y ∈ w, cond req l y (view d ws)) :
    Holds C cond req l post x' (ws ++ w.toList) d := by
  cases x with
  | ret => cases hnext
  | select =>
    cases hnext
    rw [toList_none, append_nil]
    exact h d (C.rely_refl ws d) hgood
  | update f k =>
    obtain ⟨htrue, hfalse⟩ := h d (C.rely_refl ws d) hgood
    rw [Tx.next] at hnext
    split at hnext
    · cases hnext
      exact htrue _ ‹_› (hcond _ rfl)
    · cases hnext
      rw [toList_none, append_nil]
      exact hfalse ‹_›
  | insert f k =>
    obtain ⟨htrue, hfalse⟩ := h d (C.rely_refl ws d) hgood n
    rw [Tx.next] at hnext
    split at hnext
    · cases hnext
      exact htrue _ ‹_› (hcond _ rfl)
    · cases hnext
      rw [toList_none, append_nil]
      exact hfalse ‹_›

/-! ### Transactions that may fail -/

variable (C cond req l) in
def HoldsOk (post : α → List W → D → Prop) (x : ExceptT ε (Tx D W) α) (ws : List W) (d : D) : Prop :=
  Holds C cond req l (fun r ws d => ∀ a, r = .ok a → post a ws d) x.run ws d

namespace HoldsOk

theorem pure {a : α} (h : ∀ d', C.rely ws d d' → C.good d' → post a ws d') :
    HoldsOk C cond req l post (pure a : ExceptT ε (Tx D W) α) ws d := by
  intro d' hrely hgood a' ha
  cases ha
  exact h d' hrely hgood

theorem throw {e : ε} : HoldsOk C cond req l post (throw e : ExceptT ε (Tx D W) α) ws d := by
  intro d' hrely hgood a' ha
  cases ha

theorem bind {x : ExceptT ε (Tx D W) α}
    (h : HoldsOk C cond req l (fun a ws d => HoldsOk C cond req l post' (f a) ws d) x ws d) :
    HoldsOk C cond req l post' (x >>= f) ws d := by
  show Holds C cond req l _ (x.run >>= ExceptT.bindCont f) ws d
  refine .bind ?_
  refine Holds.weaken h fun r ws' d' hr => ?_
  cases r with
  | ok a => exact hr a rfl
  | error => exact HoldsOk.throw

theorem query {f : D → α} {g : α → ExceptT ε (Tx D W) β} {post : β → List W → D → Prop}
    (h : ∀ d', C.rely ws d d' → C.good d' → HoldsOk C cond req l post (g (f (view d' ws))) ws d') :
    HoldsOk C cond req l post (query f >>= g) ws d := h

theorem tryUpdate {w : D → Option W} {g : Bool → ExceptT ε (Tx D W) β} {post : β → List W → D → Prop}
    (h : ∀ d', C.rely ws d d' → C.good d' → (∀ x, w (view d' ws) = some x → cond req l x (view d' ws) →
        HoldsOk C cond req l post (g true) (ws ++ [x]) d') ∧
      (w (view d' ws) = none → HoldsOk C cond req l post (g false) ws d')) :
    HoldsOk C cond req l post (tryUpdate w >>= g) ws d := h

theorem tryInsert {g : Nat × Bool → ExceptT ε (Tx D W) β} {post : β → List W → D → Prop}
    (h : ∀ d', C.rely ws d d' → C.good d' → ∀ n, (∀ x, w n (view d' ws) = some x → cond req l x (view d' ws) →
        HoldsOk C cond req l post (g (n, true)) (ws ++ [x]) d') ∧
      (w n (view d' ws) = none → HoldsOk C cond req l post (g (n, false)) ws d')) :
    HoldsOk C cond req l post (tryInsert w >>= g) ws d := h

end HoldsOk

theorem holds_transaction (h : HoldsOk C cond req l (Ends C req l) body ws d) :
    Holds C cond req l (Ends C req l) (body.run.bind fun r => .ret (Prog.verdict r)) ws d := by
  refine .bind (h.stable.weaken fun r ws' d' hr d'' hrely hgood => ?_)
  cases r with
  | error => trivial
  | ok v =>
    have hv := hr d'' hrely hgood v rfl
    cases v with
    | commit => exact hv
    | rollback => trivial

theorem Only.keeps (hx : Only P x) (hrely : ∀ ws d d', J ws d → C.rely ws d d' → J ws d')
    (hwrite : ∀ ws d w, J ws d → P w → J (ws ++ [w]) d) (h : J ws d) :
    Holds C cond req l (fun _ ws d => J ws d) x ws d := by
  induction x generalizing ws d with
  | ret => exact fun d' hd _ => hrely ws d d' h hd
  | select k ih => exact fun d' hd _ => ih _ (hx _) (hrely ws d d' h hd)
  | update w k ih =>
    intro d' hd _
    have h' : J ws d' := hrely ws d d' h hd
    exact ⟨fun y hy _ => ih true (hx.2 true) (hwrite ws d' y h' (hx.1 _ y hy)), fun _ => ih false (hx.2 false) h'⟩
  | insert w k ih =>
    intro d' hd _ n
    have h' : J ws d' := hrely ws d d' h hd
    exact ⟨fun y hy _ => ih n true (hx.2 n true) (hwrite ws d' y h' (hx.1 n _ y hy)),
      fun _ => ih n false (hx.2 n false) h'⟩

theorem HoldsOk.keeps {x : ExceptT ε (Tx D W) α} {post : β → List W → D → Prop} (hx : Only P x.run)
    (hrely : ∀ ws d d', J ws d → C.rely ws d d' → J ws d')
    (hwrite : ∀ ws d w, J ws d → P w → J (ws ++ [w]) d) (h : J ws d)
    (hf : ∀ a ws d, J ws d → HoldsOk C cond req l post (f a) ws d) : HoldsOk C cond req l post (x >>= f) ws d :=
  .bind ((hx.keeps hrely hwrite h).weaken fun _ ws' d' hJ a _ => hf a ws' d' hJ)

/-! ### Calls -/

theorem Each.bind {p : Prog L D W ρ} {f : ρ → Prog L D W β} (hp : Each C cond req p)
    (hf : ∀ r, Each C cond req (f r)) : Each C cond req (p >>= f) := by
  induction p with
  | ret r => exact hf r
  | step l body k ih => exact ⟨hp.1, fun b => ih b (hp.2 b)⟩

theorem Each.except_bind {x : ExceptT ε (Prog L D W) α} {f : α → ExceptT ε (Prog L D W) β}
    (hx : Each C cond req x.run) (hf : ∀ a, Each C cond req (f a).run) : Each C cond req (x >>= f).run := by
  refine hx.bind fun r => ?_
  cases r with
  | ok a => exact hf a
  | error => trivial

theorem Each.transaction (h : ∀ d, HoldsOk C cond req l (Ends C req l) body [] d) :
    Each C cond req (Prog.transaction l body).run :=
  ⟨fun d => holds_transaction (h d), fun _ => trivial⟩

/-! ## Soundness -/

variable {sys : System Req L D W ρ}

def System.Safe (sys : System Req L D W ρ) (C : Contract Req L D W) : Prop :=
  ∀ req, sys.allowed req → Each C sys.cond req (sys.program req)

structure Config.Ok (sys : System Req L D W ρ) (C : Contract Req L D W) (c : Config Req L D W ρ) : Prop where
  inv : C.inv c.history c.db
  safe : ∀ (i : Nat) (req : Req) (s : Session L D W ρ), c.calls[i]? = some (req, s) →
    Session.Safe C sys.cond req c.db s
  apart : ∀ (i j : Nat) (req req' : Req) (s s' : Session L D W ρ), i ≠ j →
    c.calls[i]? = some (req, s) → c.calls[j]? = some (req', s') → Apart s.writes s'.writes

theorem Session.Safe.mono (h : Session.Safe C cond req d s)
    (hd : C.rely s.writes d d') : Session.Safe C cond req d' s := by
  cases s with
  | outside => exact h
  | inside => exact ⟨h.1.mono hd, h.2⟩
  | stopped => trivial

theorem Config.Ok.set (hc : c.Ok sys C) {h : List (Req × L × List W)} (hinv : C.inv h d)
    (hs' : Session.Safe C sys.cond req d s')
    (hrely : ∀ (j : Nat) (req' : Req) (t : Session L D W ρ), j ≠ i → c.calls[j]? = some (req', t) →
      C.rely t.writes c.db d)
    (hapart : ∀ (j : Nat) (req' : Req) (t : Session L D W ρ), j ≠ i → c.calls[j]? = some (req', t) →
      Apart s'.writes t.writes) :
    Config.Ok sys C { next := n, db := d, calls := c.calls.set i (req, s'), history := h } := by
  refine ⟨hinv, fun j req' t ht => ?_, fun j j' req1 req2 t t' hne ht ht' => ?_⟩
  · rcases of_getElem?_set ht with ⟨hij, ht⟩ | ⟨rfl, heq⟩
    · exact (hc.safe j req' t ht).mono (hrely j req' t hij.symm ht)
    · cases heq
      exact hs'
  · rcases of_getElem?_set ht with ⟨hij, hj⟩ | ⟨rfl, heq⟩
    · rcases of_getElem?_set ht' with ⟨hij', hj'⟩ | ⟨rfl, heq⟩
      · exact hc.apart j j' req1 req2 t t' hne hj hj'
      · cases heq
        exact (hapart j req1 t hij.symm hj).symm
    · cases heq
      rcases of_getElem?_set ht' with ⟨hij', hj'⟩ | ⟨rfl, -⟩
      · exact hapart j' req2 t' hij'.symm hj'
      · exact absurd rfl hne

theorem Config.Ok.set_same (hc : c.Ok sys C) (hi : c.calls[i]? = some (req, s))
    (hs' : Session.Safe C sys.cond req c.db s') (hwrites : ∀ w ∈ s'.writes, w ∈ s.writes) :
    Config.Ok sys C { c with next := n, calls := c.calls.set i (req, s') } := by
  refine hc.set hc.inv hs' (fun _ _ _ _ _ => C.rely_refl ..) fun j req' t hij ht x hx => ?_
  exact hc.apart i j req req' s t (Ne.symm hij) hi ht x (hwrites x hx)

theorem System.Safe.step (hsys : sys.Safe C) (hc : c.Ok sys C) (hstep : sys.Step c c') : c'.Ok sys C := by
  cases hstep with
  | call req hreq =>
    refine ⟨hc.inv, fun j req' t ht => ?_, fun j j' req1 req2 t t' hne ht ht' => ?_⟩
    · rcases of_getElem?_concat ht with ht | heq
      · exact hc.safe j req' t ht
      · cases heq
        exact hsys req hreq
    · rcases of_getElem?_concat ht with ht | heq
      · rcases of_getElem?_concat ht' with ht' | heq
        · exact hc.apart j j' req1 req2 t t' hne ht ht'
        · cases heq
          exact nofun
      · cases heq
        exact nofun
  | @start i req l β body k h =>
    have hsafe := hc.safe i req _ h
    exact hc.set_same h ⟨hsafe.1 c.db, hsafe.2⟩ fun _ hw => hw
  | @statement i req l β body body' k ws n w h hnext hfree hcond =>
    have hsafe := hc.safe i req _ h
    have hgood := C.good_of_inv hc.inv
    refine hc.set hc.inv ⟨hsafe.1.next hgood hnext hcond, hsafe.2⟩ (fun _ _ _ _ _ => C.rely_refl ..)
      fun j req' t hij ht x hx => ?_
    -- the write just made is free, those before it were apart already
    rcases mem_append.mp hx with hx | hx
    · exact hc.apart i j req req' _ t (Ne.symm hij) h ht x hx
    · have hmem := mk_mem_zipIdx_iff_getElem?.mpr ht
      exact hfree x (by simpa using hx) _ hmem hij x (mem_singleton_self x)
  | @commit i req l β b k ws h =>
    have hsafe := hc.safe i req _ h
    have hgood := C.good_of_inv hc.inv
    have hcommits := hsafe.1 c.db (C.rely_refl ..) hgood
    refine hc.set (C.inv_commit hc.inv hcommits) (hsafe.2 b) (fun j req' t hij ht => ?_)
      nofun
    exact C.rely_commit hgood hcommits (hc.apart j i req' req t _ hij ht h)
  | @rollback i req l β b k ws h =>
    have hsafe := hc.safe i req _ h
    exact hc.set_same h (hsafe.2 b) nofun
  | abort h => exact hc.set_same h trivial nofun

theorem System.Safe.reachable (hsys : sys.Safe C) {d0 : D} (h0 : C.inv [] d0) (hc : sys.Reachable d0 c) :
    c.Ok sys C := by
  induction hc with
  | refl =>
    refine ⟨h0, fun i req s h => ?_, fun i j req req' s s' _ h => ?_⟩
    · cases h
    · cases h
  | tail _ hstep ih => exact hsys.step ih hstep

theorem Config.Ok.commits (hc : c.Ok sys C) (hstep : sys.Step c c')
    {req : Req} {l : L} {ws : List W} (hhistory : c'.history = c.history ++ [(req, l, ws)]) :
    C.commits req l ws c.db := by
  cases hstep with
  | @commit i req' l' β b k ws' h =>
    obtain ⟨rfl, rfl, rfl⟩ : req' = req ∧ l' = l ∧ ws' = ws := by
      simpa using append_cancel_left hhistory
    exact (hc.safe i req' _ h).1 c.db (C.rely_refl ..) (C.good_of_inv hc.inv)
  | _ => exact absurd hhistory (by simp)

end

end ReadCommitted

end Transact
