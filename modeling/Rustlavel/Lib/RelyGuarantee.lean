/-
  A program logic for concurrent calls against a database.
-/

import Rustlavel.Lib.Transact

namespace Transact

open List Tx

variable {Req L D W α β ρ ρ' ε : Type}

/-! ## Transactions -/

namespace Tx

section

variable [Store D W]

/-- Run from `n` and `d`, the transaction fails or ends in `post`. -/
def Ends (x : ExceptT ε (Tx D W) α) (n : Nat) (d : D) (post : α → Nat → D → Prop) : Prop :=
  ∀ a n' d', run x.run n d = (.ok a, n', d') → post a n' d'

variable {n : Nat} {d : D} {post : α → Nat → D → Prop} {x : ExceptT ε (Tx D W) α}

theorem Ends.mono {post' : α → Nat → D → Prop} (h : Ends x n d post)
    (hpost : ∀ a n' d', post a n' d' → post' a n' d') : Ends x n d post' :=
  fun a n' d' hrun => hpost a n' d' (h a n' d' hrun)

theorem Ends.pure {a : α} (h : post a n d) : Ends (pure a : ExceptT ε (Tx D W) α) n d post := by
  intro a' n' d' hrun
  cases hrun
  exact h

theorem Ends.throw {e : ε} : Ends (throw e : ExceptT ε (Tx D W) α) n d post := by
  intro a' n' d' hrun
  cases hrun

theorem Ends.bind {f : α → ExceptT ε (Tx D W) β}
    {post' : β → Nat → D → Prop} (h : Ends x n d fun a n' d' => Ends (f a) n' d' post') :
    Ends (x >>= f) n d post' := by
  intro b n'' d'' hrun
  rw [run_except_bind] at hrun
  rcases hx : run x.run n d with ⟨e | a, n', d'⟩
  · rw [hx] at hrun
    cases hrun
  · rw [hx] at hrun
    exact h a n' d' hx b n'' d'' hrun

theorem Ends.query {f : D → α} (h : post (f d) n d) : Ends (query f : ExceptT ε (Tx D W) α) n d post := by
  intro a' n' d' hrun
  cases hrun
  exact h

theorem Ends.tryUpdate {w : D → Option W} {post : Bool → Nat → D → Prop}
    (htrue : ∀ x, w d = some x → post true n (Store.apply x d)) (hfalse : w d = none → post false n d) :
    Ends (tryUpdate w : ExceptT ε (Tx D W) Bool) n d post := by
  intro a' n' d' hrun
  rw [run_tryUpdate] at hrun
  split at hrun
  · cases hrun
    exact htrue _ ‹_›
  · cases hrun
    exact hfalse ‹_›

theorem Ends.tryInsert {w : Nat → D → Option W} {post : Nat × Bool → Nat → D → Prop}
    (htrue : ∀ x, w n d = some x → post (n, true) (n + 1) (Store.apply x d))
    (hfalse : w n d = none → post (n, false) (n + 1) d) :
    Ends (tryInsert w : ExceptT ε (Tx D W) (Nat × Bool)) n d post := by
  intro a' n' d' hrun
  rw [run_tryInsert] at hrun
  split at hrun
  · cases hrun
    exact htrue _ ‹_›
  · cases hrun
    exact hfalse ‹_›

end

end Tx

/-! ## Calls -/

/-- What calls promise each other: an invariant, what a step may do at a point, and a preorder every step respects. -/
structure Contract (Req L D : Type) where
  inv : Nat → D → Prop
  step : Req → L → D → D → Prop
  rely : D → D → Prop
  inv_mono : ∀ {n n' d}, n ≤ n' → inv n d → inv n' d
  step_refl : ∀ req l d, step req l d d
  rely_refl : ∀ d, rely d d
  rely_trans : ∀ {d1 d2 d3}, rely d1 d2 → rely d2 d3 → rely d1 d3
  rely_of_step : ∀ {req l n d d'}, inv n d → step req l d d' → rely d d'

/-- How the transaction of a request may end: it commits what it promised, or leaves the database alone. -/
def Contract.Outcome (C : Contract Req L D) (req : Req) (l : L) (d : D) (post : α → D → Prop) :
    Verdict α → Nat → D → Prop
  | .commit a, n', d' => C.inv n' d' ∧ C.step req l d d' ∧ post a d'
  | .rollback a, _, _ => post a d

section

variable [Store D W] (C : Contract Req L D) (cond : Req → L → D → Prop) (req : Req)

/-- Whatever the others do, every transaction of the call keeps the invariant and its promise, and the result its
    postcondition. -/
def Prog.Safe (post : ρ → D → Prop) : Prog L D W ρ → D → Prop
  | .ret r, d => ∀ n d', C.rely d d' → C.inv n d' → post r d'
  | .step l body k, d => ∀ n d', C.rely d d' → C.inv n d' → cond req l d' →
      ∀ b n' d'', settle d' (body.run n d') = (b, n', d'') → C.inv n' d'' ∧ C.step req l d' d'' ∧ (k b).Safe post d''

variable {C cond req} {post : ρ → D → Prop}

variable {p : Prog L D W ρ} {post' : ρ' → D → Prop} {c c' : Config Req L D W ρ} {i : Nat} {l : L} {d0 : D}
  {P : D → Prop} {d : D} {K : D → Prop} {f : ρ → Prog L D W ρ'}

theorem Prog.Safe.mono {d d' : D} (h : p.Safe C cond req post d) (hd : C.rely d d') : p.Safe C cond req post d' := by
  cases p with
  | ret | step => exact fun n d'' hrely hinv => h n d'' (C.rely_trans hd hrely) hinv

theorem Prog.Safe.of_forall (h : ∀ n d', C.rely d d' → C.inv n d' → p.Safe C cond req post d') :
    p.Safe C cond req post d := by
  cases p with
  | ret | step => exact fun n d' hrely hinv => h n d' hrely hinv n d' (C.rely_refl d') hinv

theorem Prog.Safe.imp {post' : ρ → D → Prop} (hK : ∀ {d d'}, K d → C.rely d d' → K d')
    (hpost : ∀ r d, post r d → K d → post' r d) (h : p.Safe C cond req post d) (hd : K d) :
    p.Safe C cond req post' d := by
  induction p generalizing d with
  | ret r => exact fun n d' hrely hinv => hpost r d' (h n d' hrely hinv) (hK hd hrely)
  | step l body k ih =>
    intro n d' hrely hinv hcond b n' d'' hrun
    obtain ⟨hinv', hstep, hk⟩ := h n d' hrely hinv hcond b n' d'' hrun
    exact ⟨hinv', hstep, ih b hk (hK (hK hd hrely) (C.rely_of_step hinv hstep))⟩

theorem Prog.Safe.weaken {post' : ρ → D → Prop}
    (h : p.Safe C cond req post d) (hpost : ∀ r d', post r d' → post' r d') : p.Safe C cond req post' d :=
  h.imp (K := fun _ => True) (fun hd _ => hd) (fun r d' hr _ => hpost r d' hr) trivial

theorem Prog.Safe.stable (hK : ∀ {d d'}, K d → C.rely d d' → K d')
    (h : p.Safe C cond req post d) (hd : K d) : p.Safe C cond req (fun r d => post r d ∧ K d) d :=
  h.imp hK (fun _ _ => And.intro) hd

theorem Prog.Safe.andThen (hp : p.Safe C cond req post d)
    (hf : ∀ {r d'}, Prog.Safe C cond req post (.ret r : Prog L D W ρ) d' → (f r).Safe C cond req post' d') :
    (p >>= f).Safe C cond req post' d := by
  induction p generalizing d with
  | ret => exact hf hp
  | step l body k ih =>
    intro n d' hrely hinv hcond b n' d'' hrun
    obtain ⟨hinv', hstep, hk⟩ := hp n d' hrely hinv hcond b n' d'' hrun
    exact ⟨hinv', hstep, ih b hk⟩

theorem Prog.Safe.bind (hp : p.Safe C cond req post d) (hf : ∀ r d', post r d' → (f r).Safe C cond req post' d') :
    (p >>= f).Safe C cond req post' d :=
  hp.andThen fun hret => .of_forall fun n d' hrely hinv => hf _ d' (hret n d' hrely hinv)

theorem Prog.Safe.map {f : ρ → ρ'} (hp : p.Safe C cond req (fun r d => post' (f r) d) d) :
    (p >>= fun r => pure (f r)).Safe C cond req post' d := hp.andThen fun hret => hret

/-! ### Calls that may fail -/

variable (C cond req) in
/-- The judgement for a call that may fail: the postcondition is about its result when it does not. -/
def Prog.SafeOk (post : α → D → Prop) (x : ExceptT ε (Prog L D W) α) (d : D) : Prop :=
  Prog.Safe C cond req (fun r d => ∀ a, r = .ok a → post a d) x.run d

namespace Prog.SafeOk

variable {post : α → D → Prop} {d : D}

theorem pure {a : α} (h : ∀ n d', C.rely d d' → C.inv n d' → post a d') :
    SafeOk C cond req post (pure a : ExceptT ε (Prog L D W) α) d := by
  intro n d' hrely hinv a' ha
  cases ha
  exact h n d' hrely hinv

theorem throw {e : ε} : SafeOk C cond req post (throw e : ExceptT ε (Prog L D W) α) d := by
  intro n d' hrely hinv a' ha
  cases ha

variable {x : ExceptT ε (Prog L D W) α} {post' : β → D → Prop} {l : L}

theorem stable (hK : ∀ {d d'}, K d → C.rely d d' → K d') (h : SafeOk C cond req post x d) (hd : K d) :
    SafeOk C cond req (fun a d => post a d ∧ K d) x d :=
  (Prog.Safe.stable hK h hd).weaken fun _ _ hr a ha => ⟨hr.1 a ha, hr.2⟩

theorem bind {f : α → ExceptT ε (Prog L D W) β} (hx : SafeOk C cond req post x d)
    (hf : ∀ a d', post a d' → SafeOk C cond req post' (f a) d') : SafeOk C cond req post' (x >>= f) d := by
  refine Prog.Safe.bind hx fun r d' hr => ?_
  cases r with
  | ok a => exact hf a d' (hr a rfl)
  | error => exact SafeOk.throw

theorem map {f : α → β} (hx : SafeOk C cond req post x d) (hf : ∀ a d', post a d' → post' (f a) d') :
    SafeOk C cond req post' (f <$> x) d := by
  have hmap : (f <$> x).run = x.run >>= fun r => Pure.pure (r.map f) := by
    refine congrArg (x.run >>= ·) (funext fun r => ?_)
    cases r <;> rfl
  show Prog.Safe C cond req _ (f <$> x).run d
  rw [hmap]
  refine Prog.Safe.map (Prog.Safe.weaken hx fun r d' hr b hb => ?_)
  cases r with
  | error => cases hb
  | ok a =>
    cases hb
    exact hf a d' (hr a rfl)

theorem foldlM {f : β → α → ExceptT ε (Prog L D W) β} {post : β → D → Prop}
    (hstable : ∀ b d' n d'', post b d' → C.rely d' d'' → C.inv n d'' → post b d'')
    (hf : ∀ b a d', post b d' → SafeOk C cond req post (f b a) d') (as : List α) {b : β}
    (h : post b d) : SafeOk C cond req post (as.foldlM f b) d := by
  induction as generalizing b d with
  | nil => exact .pure fun n d' hrely hinv => hstable b d n d' h hrely hinv
  | cons a as ih => exact .bind (hf b a d h) fun b' d' h' => ih h'

theorem transaction {body : ExceptT ε (Tx D W) (Verdict α)} (h : ∀ n d', C.rely d d' → C.inv n d' → cond req l d' →
      Ends body n d' (C.Outcome req l d' post))
    (hstable : ∀ a d' n d'', post a d' → C.rely d' d'' → C.inv n d'' → post a d'') :
    SafeOk C cond req post (Prog.transaction l body) d := by
  intro n d' hrely hinv hcond b n' d'' hsettle
  have hrun : (body.run.bind fun r => .ret (Prog.verdict r)).run n d' =
      (Prog.verdict (run body.run n d').1, (run body.run n d').2) := run_bind ..
  have hle := le_run body.run n d'
  have hends := h n d' hrely hinv hcond
  unfold Ends at hends
  rw [hrun] at hsettle
  generalize run body.run n d' = out at hle hends hsettle
  rcases out with ⟨e | ⟨a⟩ | ⟨a⟩, m, e'⟩
  · cases hsettle
    exact ⟨C.inv_mono hle hinv, C.step_refl .., SafeOk.throw⟩
  · cases hsettle
    obtain ⟨hinv', hstep, hpost⟩ := hends _ _ _ rfl
    exact ⟨hinv', hstep, SafeOk.pure fun n'' d'' => hstable a _ n'' d'' hpost⟩
  · cases hsettle
    exact ⟨C.inv_mono hle hinv, C.step_refl .., SafeOk.pure fun n'' d'' =>
      hstable a _ n'' d'' (hends _ _ _ rfl)⟩

theorem statement {body : ExceptT ε (Tx D W) α} (h : ∀ n d', C.rely d d' → C.inv n d' → cond req l d' →
      Ends body n d' fun a n' d'' => C.inv n' d'' ∧ C.step req l d' d'' ∧ post a d'')
    (hstable : ∀ a d' n d'', post a d' → C.rely d' d'' → C.inv n d'' → post a d'') :
    SafeOk C cond req post (Prog.statement l body) d :=
  transaction (fun n d' hrely hinv hcond => .bind ((h n d' hrely hinv hcond).mono
    fun _ _ _ hpost => .pure hpost)) hstable

end Prog.SafeOk

/-! ## Soundness -/

variable {sys : System Req L D W ρ} {promise : Req → ρ → D → Prop} {req : Req}

def System.Safe (sys : System Req L D W ρ) (C : Contract Req L D) (promise : Req → ρ → D → Prop) : Prop :=
  ∀ req, sys.allowed req → ∀ n d, C.inv n d → (sys.program req).Safe C sys.cond req (promise req) d

structure Config.Ok (sys : System Req L D W ρ) (C : Contract Req L D)
    (promise : Req → ρ → D → Prop) (c : Config Req L D W ρ) : Prop where
  inv : C.inv c.next c.db
  safe : ∀ x ∈ c.calls, x.2.Safe C sys.cond x.1 (promise x.1) c.db
  allowed : ∀ x ∈ c.calls, sys.allowed x.1

theorem Config.Ok.advance (hc : c.Ok sys C promise) (h : sys.Advance i req l c c') :
    c'.Ok sys C promise ∧ sys.allowed req ∧ sys.cond req l c.db ∧ C.step req l c.db c'.db := by
  cases h with
  | @mk _ body k hcall hcond b n d hrun =>
    have hmem := mem_of_getElem? hcall
    obtain ⟨hinv, hl, hk⟩ := hc.safe _ hmem c.next c.db (C.rely_refl _) hc.inv hcond b n d hrun
    refine ⟨⟨hinv, fun x hx => ?_, fun x hx => ?_⟩, hc.allowed _ hmem, hcond, hl⟩
    -- the call that moved goes on from the new database, the others rely on it
    · rcases mem_or_eq_of_mem_set hx with hx | rfl
      · exact (hc.safe x hx).mono (C.rely_of_step hc.inv hl)
      · exact hk
    · rcases mem_or_eq_of_mem_set hx with hx | rfl
      · exact hc.allowed x hx
      · exact hc.allowed (req, .step l body k) hmem

theorem System.Safe.step (hsys : sys.Safe C promise) (hc : c.Ok sys C promise) (hstep : sys.Step c c') :
    c'.Ok sys C promise ∧ (c'.db = c.db ∨
      ∃ req l, sys.allowed req ∧ sys.cond req l c.db ∧ C.step req l c.db c'.db) := by
  cases hstep with
  | call req hreq =>
    refine ⟨⟨hc.inv, fun x hx => ?_, fun x hx => ?_⟩, .inl rfl⟩
    · rcases mem_append.mp hx with hx | hx
      · exact hc.safe x hx
      · rw [mem_singleton.mp hx]
        exact hsys req hreq c.next c.db hc.inv
    · rcases mem_append.mp hx with hx | hx
      · exact hc.allowed x hx
      · rw [mem_singleton.mp hx]
        exact hreq
  | advance h =>
    obtain ⟨hok, hmove⟩ := hc.advance h
    exact ⟨hok, .inr ⟨_, _, hmove⟩⟩

theorem System.Safe.run (hsys : sys.Safe C promise)
    (hc : c.Ok sys C promise) (hrun : sys.Run c c') : c'.Ok sys C promise := by
  induction hrun with
  | refl => exact hc
  | tail _ hstep ih => exact (hsys.step ih hstep).1

theorem System.Safe.reachable (hsys : sys.Safe C promise) (h0 : C.inv 0 d0) (hc : sys.Reachable d0 c) :
    c.Ok sys C promise :=
  hsys.run ⟨h0, fun _ hx => absurd hx not_mem_nil, fun _ hx => absurd hx not_mem_nil⟩ hc

theorem System.Safe.invariant_run (hsys : sys.Safe C promise) (hc : c.Ok sys C promise) (hP0 : P c.db)
    (hP : ∀ req l n d d', sys.allowed req → C.inv n d → P d → sys.cond req l d →
      C.step req l d d' → P d') (hrun : sys.Run c c') : P c'.db := by
  induction hrun with
  | refl => exact hP0
  | tail hrun hstep ih =>
    have hok := hsys.run hc hrun
    rcases (hsys.step hok hstep).2 with heq | ⟨req, l, hreq, hcond, hl⟩
    · rw [heq]
      exact ih
    · exact hP req l _ _ _ hreq hok.inv ih hcond hl

theorem System.Safe.rely (hsys : sys.Safe C promise)
    (hc : c.Ok sys C promise) (hrun : sys.Run c c') : C.rely c.db c'.db :=
  hsys.invariant_run (P := C.rely c.db) hc (C.rely_refl _)
    (fun _ _ _ _ _ _ hinv hd _ hl => C.rely_trans hd (C.rely_of_step hinv hl)) hrun

theorem System.Safe.invariant (hsys : sys.Safe C promise) (h0 : C.inv 0 d0) (hP0 : P d0)
    (hP : ∀ req l n d d', sys.allowed req → C.inv n d → P d → sys.cond req l d →
      C.step req l d d' → P d') (hc : sys.Reachable d0 c) : P c.db :=
  hsys.invariant_run (hsys.reachable h0 .refl) hP0 hP hc

theorem System.Safe.call_of_run (hsys : sys.Safe C promise) (hc : c.Ok sys C promise) {j : Nat}
    (hcall : c.calls[j]? = some (req, p)) (hp : p.Safe C sys.cond req post c.db) (hrun : sys.Run c c') :
    ∃ p', c'.calls[j]? = some (req, p') ∧ p'.Safe C sys.cond req post c'.db := by
  induction hrun with
  | refl => exact ⟨p, hcall, hp⟩
  | @tail c1 c2 hrun hstep ih =>
    obtain ⟨p1, hcall1, hp1⟩ := ih
    have hok := hsys.run hc hrun
    cases hstep with
    | call => exact ⟨p1, getElem?_concat hcall1 _, hp1⟩
    | @advance _ i req' l h =>
      by_cases hij : i = j
      · subst hij
        cases h with
        | @mk _ body k hstep hcond b n d hrun =>
          rw [hstep] at hcall1
          cases hcall1
          refine ⟨k b, List.getElem?_set_self (List.getElem?_eq_some_iff.mp hstep).1, ?_⟩
          exact (hp1 _ _ (C.rely_refl _) hok.inv hcond b n d hrun).2.2
      · refine ⟨p1, (h.getElem?_of_ne hij).trans hcall1, hp1.mono ?_⟩
        exact C.rely_of_step hok.inv (hok.advance h).2.2.2

def Config.requests (c : Config Req L D W ρ) : List Req := c.calls.map Prod.fst

theorem System.Advance.requests
    (h : sys.Advance i req l c c') : c'.requests = c.requests ∧ c.requests[i]? = some req := by
  cases h with
  | @mk _ body k hcall _ b =>
    have hget : c.requests[i]? = some req := by
      rw [Config.requests, List.getElem?_map, hcall]
      rfl
    refine ⟨?_, hget⟩
    show (c.calls.set i (req, k b)).map Prod.fst = c.requests
    rw [map_set]
    obtain ⟨hi, rfl⟩ := List.getElem?_eq_some_iff.mp hget
    exact set_getElem_self hi

theorem System.Safe.invariant_requests (hsys : sys.Safe C promise) (h0 : C.inv 0 d0)
    {P : List Req → D → Prop} (hP0 : P [] d0) (hcall : ∀ rs req d, P rs d → P (rs ++ [req]) d)
    (hP : ∀ (rs : List Req) (i : Nat) req l n d d', rs[i]? = some req → C.inv n d → P rs d → C.step req l d d' →
      P rs d') (hc : sys.Reachable d0 c) : P c.requests c.db := by
  induction hc with
  | refl => exact hP0
  | @tail c c' hrun hstep ih =>
    have hok := hsys.reachable h0 hrun
    cases hstep with
    | call req =>
      have hrequests : Config.requests { c with calls := c.calls ++ [(req, sys.program req)] } =
          c.requests ++ [req] := map_append
      rw [hrequests]
      exact hcall _ _ _ ih
    | advance h =>
      obtain ⟨hrequests, hget⟩ := h.requests
      rw [hrequests]
      exact hP _ _ _ _ _ _ _ hget hok.inv ih (hok.advance h).2.2.2

theorem Config.Ok.returned (hc : c.Ok sys C promise) {r : ρ} (h : (req, .ret r) ∈ c.calls) : promise req r c.db :=
  hc.safe _ h c.next c.db (C.rely_refl _) hc.inv

end

end Transact
