/-
  A database inside a larger one.  The programs written for the part run on the
  whole, and what was proved of them there holds here: `Prog.Safe.lift` takes a
  call that keeps the part's contract to one that keeps the whole's, given that
  the whole allows what the part may do.
-/

import Rustlavel.Lib.RelyGuarantee

namespace Transact

variable {Req Req1 L L1 D D1 W W1 α β ρ ε : Type}

/-- How a database `D` holds a database `D₁`. -/
structure Component (D W D1 W1 : Type) [Store D W] [Store D1 W1] where
  get : D → D1
  set : D1 → D → D
  write : W1 → W
  get_set : ∀ d1 d, get (set d1 d) = d1
  set_get : ∀ d, set (get d) d = d
  set_set : ∀ d1 d2 d, set d1 (set d2 d) = set d1 d
  apply_write : ∀ w d, Store.apply (write w) d = set (Store.apply w (get d)) d

section

variable [Store D W] [Store D1 W1] (P : Component D W D1 W1)

def Tx.lift : Tx D1 W1 α → Tx D W α
  | .ret a => .ret a
  | .select k => .select fun d => (k (P.get d)).lift
  | .update w k => .update (fun d => (w (P.get d)).map P.write) fun b => (k b).lift
  | .insert w k => .insert (fun n d => (w n (P.get d)).map P.write) fun n b => (k n b).lift

def Prog.lift (label : L1 → L) : Prog L1 D1 W1 ρ → Prog L D W ρ
  | .ret r => .ret r
  | .step l body k => .step (label l) (body.lift P) fun b => (k b).lift label

def liftOp (label : L1 → L) (x : ExceptT ε (Prog L1 D1 W1) α) : ExceptT ε (Prog L D W) α :=
  ExceptT.mk (x.run.lift P label)

theorem Tx.run_lift (x : Tx D1 W1 α) (n : Nat) (d : D) :
    (x.lift P).run n d = ((x.run n (P.get d)).1, (x.run n (P.get d)).2.1, P.set (x.run n (P.get d)).2.2 d) := by
  induction x generalizing n d with
  | ret a =>
    show (a, n, d) = (a, n, P.set (P.get d) d)
    rw [P.set_get]
  | select k ih => exact ih (P.get d) n d
  | update w k ih =>
    rw [lift, run, run]
    cases w (P.get d) with
    | none => exact ih false n d
    | some x =>
      show ((k true).lift P).run n (Store.apply (P.write x) d) = _
      rw [P.apply_write, ih, P.get_set, P.set_set]
  | insert w k ih =>
    rw [lift, run, run]
    cases w n (P.get d) with
    | none => exact ih n false (n + 1) d
    | some x =>
      show ((k n true).lift P).run (n + 1) (Store.apply (P.write x) d) = _
      rw [P.apply_write, ih, P.get_set, P.set_set]

theorem settle_lift (body : Tx D1 W1 (Verdict β)) (n : Nat) (d : D) : settle d ((body.lift P).run n d) =
      ((settle (P.get d) (body.run n (P.get d))).1, (settle (P.get d) (body.run n (P.get d))).2.1,
        P.set (settle (P.get d) (body.run n (P.get d))).2.2 d) := by
  rw [Tx.run_lift]
  rcases body.run n (P.get d) with ⟨_ | _, n', d1⟩
  · rfl
  · rw [settle_rollback, settle_rollback, P.set_get]

theorem Prog.Safe.lift {label : L1 → L} {C : Contract Req L D} {C1 : Contract Req1 L1 D1}
    {cond : Req → L → D → Prop} {cond1 : Req1 → L1 → D1 → Prop} {req : Req} {req1 : Req1}
    {post : ρ → D1 → Prop} {J : D → Prop} (hinv : ∀ {n d}, C.inv n d → C1.inv n (P.get d))
    (hrely : ∀ {d d'}, C.rely d d' → C1.rely (P.get d) (P.get d'))
    (hcond : ∀ {l d}, cond req (label l) d → cond1 req1 l (P.get d)) (hJ : ∀ {d d'}, J d → C.rely d d' → J d')
    (hstep : ∀ {n n' l d d1}, J d → C.inv n d → n ≤ n' → C1.inv n' d1 →
      C1.step req1 l (P.get d) d1 → C.inv n' (P.set d1 d) ∧ C.step req (label l) d (P.set d1 d))
    {p : Prog L1 D1 W1 ρ} {d : D} (h : p.Safe C1 cond1 req1 post (P.get d)) (hd : J d) :
    (p.lift P label).Safe C cond req (fun r d => post r (P.get d) ∧ J d) d := by
  induction p generalizing d with
  | ret =>
    intro n d' hrely' hinv'
    exact ⟨h n (P.get d') (hrely hrely') (hinv hinv'), hJ hd hrely'⟩
  | step l body k ih =>
    intro n d' hrely' hinv' hcond' b n' d'' hsettle
    rw [settle_lift] at hsettle
    have hsafe := h n (P.get d') (hrely hrely') (hinv hinv') (hcond hcond')
    have hle : n ≤ (settle (P.get d') (body.run n (P.get d'))).2.1 := by
      have hle := Tx.le_run body n (P.get d')
      generalize body.run n (P.get d') = out at hle
      rcases out with ⟨_ | _, m, e⟩ <;> exact hle
    generalize settle (P.get d') (body.run n (P.get d')) = out at hsettle hsafe hle
    obtain ⟨b', m, d1⟩ := out
    cases hsettle
    obtain ⟨hinv1, hstep1, hk⟩ := hsafe b' m d1 rfl
    have hd' : J d' := hJ hd hrely'
    obtain ⟨hinv'', hstep'⟩ := hstep hd' hinv' hle hinv1 hstep1
    refine ⟨hinv'', hstep', ih b' ?_ (hJ hd' (C.rely_of_step hinv' hstep'))⟩
    rw [P.get_set]
    exact hk

end

end Transact
