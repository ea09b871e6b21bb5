/-
  Calls as state machines. A `Staging` gives the stages a call goes through: what is left of the call in each,
  and the moves from one to the next, as they are read off the text of the call.
-/

import Rustlavel.Lib.Always

namespace Transact

open List Tx Prog

variable {Req S L D W α ρ ε : Type}

section

variable [Store D W] {p : Prog L D W ρ}

/-! ## The next step of a call -/

/-- `T` relates a point and the database found there to what is left of the call and the database it leaves. -/
def Prog.Goes (T : L → Nat → D → Prog L D W ρ → Nat → D → Prop) : Prog L D W ρ → Prop
  | .ret _ => True
  | .step l body k => ∀ n d b n' d', settle d (body.run n d) = (b, n', d') → T l n d (k b) n' d'

namespace Prog.Goes

variable {T : L → Nat → D → Prog L D W ρ → Nat → D → Prop} {l : L}

def Then (T : Prog L D W ρ → Nat → D → Prop) (g : Except ε α → Prog L D W ρ) (d : D) :
    Except ε (Verdict α) × Nat × D → Prop
  | (.ok (.commit a), n', d') => T (g (.ok a)) n' d'
  | (.ok (.rollback a), n', _) => T (g (.ok a)) n' d
  | (.error e, n', _) => T (g (.error e)) n' d

variable {g : Except ε α → Prog L D W ρ}

theorem transaction {body : ExceptT ε (Tx D W) (Verdict α)} (h : ∀ n d, Then (T l n d) g d (run body.run n d)) :
    ((transaction l body).run >>= g).Goes T := by
  intro n d b n' d' hsettle
  have hrun : (body.run.bind fun r => .ret (verdict r)).run n d =
      (verdict (run body.run n d).1, (run body.run n d).2) := run_bind ..
  have hthen := h n d
  rw [hrun] at hsettle
  generalize run body.run n d = out at hthen hsettle
  rcases out with ⟨e | ⟨a⟩ | ⟨a⟩, m, d1⟩ <;> cases hsettle <;> exact hthen

theorem statement {body : ExceptT ε (Tx D W) α}
    (hok : ∀ n d a n' d', run body.run n d = (.ok a, n', d') → T l n d (g (.ok a)) n' d')
    (herror : ∀ n d e n' d', run body.run n d = (.error e, n', d') → T l n d (g (.error e)) n' d) :
    ((statement l body).run >>= g).Goes T := by
  refine transaction fun n d => ?_
  rw [run_except_bind]
  rcases hbody : run body.run n d with ⟨e | a, n', d'⟩
  · exact herror n d e n' d' hbody
  · exact hok n d a n' d' hbody

theorem throw {e : ε} (h : ∀ n d, T l n d (g (.error e)) n d) :
    ((Prog.statement l (throw e : ExceptT ε (Tx D W) α)).run >>= g).Goes T := by
  refine statement (fun n d a n' d' hrun => by cases hrun) fun n d e' n' d' hrun => ?_
  cases hrun
  exact h n d

theorem query {f : D → α} (h : ∀ n d, T l n d (g (.ok (f d))) n d) :
    ((Prog.statement l (query f)).run >>= g).Goes T := by
  refine statement (fun n d a n' d' hrun => ?_) fun n d e n' d' hrun => by cases hrun
  cases hrun
  exact h n d

theorem tryUpdate {w : D → Option W} {g : Except ε Bool → Prog L D W ρ}
    (htrue : ∀ n d x, w d = some x → T l n d (g (.ok true)) n (Store.apply x d))
    (hfalse : ∀ n d, w d = none → T l n d (g (.ok false)) n d) :
    ((Prog.statement l (tryUpdate w)).run >>= g).Goes T := by
  refine statement (fun n d a n' d' hrun => ?_) fun n d e n' d' hrun => ?_
  · rw [run_tryUpdate] at hrun
    split at hrun <;> cases hrun
    · exact htrue n d _ ‹_›
    · exact hfalse n d ‹_›
  · rw [run_tryUpdate] at hrun
    split at hrun <;> cases hrun

theorem update {f : D → W} {g : Except ε Bool → Prog L D W ρ}
    (h : ∀ n d, T l n d (g (.ok true)) n (Store.apply (f d) d)) :
    ((Prog.statement l (Tx.tryUpdate fun d => some (f d))).run >>= g).Goes T := by
  refine tryUpdate (fun n d x hx => ?_) fun n d hx => by cases hx
  cases hx
  exact h n d

theorem tryInsert {w : Nat → D → Option W} {g : Except ε (Nat × Bool) → Prog L D W ρ}
    (htrue : ∀ n d x, w n d = some x → T l n d (g (.ok (n, true))) (n + 1) (Store.apply x d))
    (hfalse : ∀ n d, w n d = none → T l n d (g (.ok (n, false))) (n + 1) d) :
    ((Prog.statement l (tryInsert w)).run >>= g).Goes T := by
  refine statement (fun n d a n' d' hrun => ?_) fun n d e n' d' hrun => ?_
  · rw [run_tryInsert] at hrun
    split at hrun <;> cases hrun
    · exact htrue n d _ ‹_›
    · exact hfalse n d ‹_›
  · rw [run_tryInsert] at hrun
    split at hrun <;> cases hrun

end Prog.Goes

/-! ## Machines -/

structure Staging (sys : System Req L D W ρ) (S : Type) where
  /-- What is left of a call in a stage. -/
  prog : Req → S → Prog L D W ρ
  start : Req → S
  Moves : Req → S → L → Nat → D → S → Nat → D → Prop
  program_eq : ∀ req, sys.program req = prog req (start req)
  goes : ∀ req s, (prog req s).Goes fun l n d q n' d' =>
    ∃ s', prog req s' = q ∧ Moves req s l n d s' n' d'

structure Stages (Req S D : Type) where
  next : Nat
  db : D
  calls : List (Req × S)

namespace Staging

variable {sys : System Req L D W ρ} (σ : Staging sys S)

def config (a : Stages Req S D) : Config Req L D W ρ where
  next := a.next
  db := a.db
  calls := a.calls.map fun x => (x.1, σ.prog x.1 x.2)

variable {i : Nat} {req : Req} {c : Config Req L D W ρ} {a a' : Stages Req S D} {σ : Staging sys S}

theorem of_call (h : (σ.config a).calls[i]? = some (req, p)) :
    ∃ s, a.calls[i]? = some (req, s) ∧ σ.prog req s = p := by
  simp only [config, getElem?_map, Option.map_eq_some_iff] at h
  obtain ⟨⟨_, s⟩, hget, heq⟩ := h
  obtain ⟨rfl, hprog⟩ := Prod.mk.inj heq
  exact ⟨s, hget, hprog⟩

inductive Step : Stages Req S D → Stages Req S D → Prop where
  | call {a : Stages Req S D} (req : Req) (h : sys.allowed req) :
      Step a { a with calls := a.calls ++ [(req, σ.start req)] }
  | advance {a : Stages Req S D} {i : Nat} {req : Req} {s s' : S} {l : L} {n' : Nat} {d' : D}
      (hcall : a.calls[i]? = some (req, s)) (hcond : sys.cond req l a.db)
      (hmove : σ.Moves req s l a.next a.db s' n' d') :
      Step a { next := n', db := d', calls := a.calls.set i (req, s') }

def Run : Stages Req S D → Stages Req S D → Prop := Relation.ReflTransGen σ.Step

def Reachable (d0 : D) (a : Stages Req S D) : Prop := σ.Run { next := 0, db := d0, calls := [] } a

theorem of_advance {l : L} (h : sys.Advance i req l (σ.config a) c) :
    ∃ s s' n' d', a.calls[i]? = some (req, s) ∧ (σ.prog req s).next = some l ∧
      sys.cond req l a.db ∧ σ.Moves req s l a.next a.db s' n' d' ∧
      c = σ.config { next := n', db := d', calls := a.calls.set i (req, s') } := by
  cases h with
  | @mk _ body k hcall hcond b n d hrun =>
    obtain ⟨s, hget, hprog⟩ := σ.of_call hcall
    have hgoes := σ.goes req s
    rw [hprog] at hgoes
    obtain ⟨s', hs', hmove⟩ := hgoes _ _ _ _ _ hrun
    refine ⟨s, s', _, _, hget, by rw [hprog]; rfl, hcond, hmove, ?_⟩
    simp only [config, map_set, hs']

theorem config_call (a : Stages Req S D) (req : Req) :
    { σ.config a with calls := (σ.config a).calls ++ [(req, sys.program req)] } =
      σ.config { a with calls := a.calls ++ [(req, σ.start req)] } := by
  simp only [config, map_append, map_cons, map_nil, σ.program_eq]

theorem of_step (h : sys.Step (σ.config a) c) : ∃ a', σ.Step a a' ∧ c = σ.config a' := by
  cases h with
  | call req hreq => exact ⟨_, .call req hreq, σ.config_call a req⟩
  | advance h =>
    obtain ⟨_, _, _, _, hget, -, hcond, hmove, rfl⟩ := σ.of_advance h
    exact ⟨_, .advance hget hcond hmove, rfl⟩

theorem of_run (h : sys.Run (σ.config a) c) : ∃ a', σ.Run a a' ∧ c = σ.config a' := by
  induction h with
  | refl => exact ⟨a, .refl, rfl⟩
  | tail _ hstep ih =>
    obtain ⟨_, hrun, rfl⟩ := ih
    obtain ⟨a2, hmachine, rfl⟩ := σ.of_step hstep
    exact ⟨a2, hrun.tail hmachine, rfl⟩

theorem Run.stays (h : σ.Run a a') {s : S} {P : S → Prop} (hcall : a.calls[i]? = some (req, s)) (hs : P s)
    (hmoves : ∀ {s l n d s' n' d'}, P s → σ.Moves req s l n d s' n' d' → P s') :
    ∃ s', a'.calls[i]? = some (req, s') ∧ P s' := by
  induction h with
  | refl => exact ⟨s, hcall, hs⟩
  | tail _ hstep ih =>
    obtain ⟨s1, hcall1, hs1⟩ := ih
    have hi := (List.getElem?_eq_some_iff.mp hcall1).1
    cases hstep with
    | call => exact ⟨s1, getElem?_concat hcall1 _, hs1⟩
    | @advance j req' t t' l n' d' hj _ hmove =>
      by_cases hji : j = i
      · subst hji
        rw [hcall1] at hj
        cases hj
        exact ⟨t', getElem?_set_self hi, hmoves hs1 hmove⟩
      · exact ⟨s1, by rw [getElem?_set_ne hji, hcall1], hs1⟩

theorem Run.keeps (h : σ.Run a a') {Q : D → Prop}
    (hQ : Q a.db) (hmoves : ∀ {req s l n d s' n' d'}, Q d → σ.Moves req s l n d s' n' d' → Q d') : Q a'.db := by
  induction h with
  | refl => exact hQ
  | tail _ hstep ih =>
    cases hstep with
    | call => exact ih
    | advance _ _ hmove => exact hmoves ih hmove

theorem of_reachable {d0 : D} (h : sys.Reachable d0 c) : ∃ a, σ.Reachable d0 a ∧ c = σ.config a := σ.of_run h

end Staging

/-! ## Proof outlines -/

/-- An invariant, an assertion at every stage, and the stages that exclude each other. -/
structure Outline {sys : System Req L D W ρ} (σ : Staging sys S) where
  inv : Nat → D → Prop
  Holds : Req → S → D → Prop
  Apart : Req → S → Req → S → Prop
  symm : ∀ {req s req' s'}, Apart req s req' s' → Apart req' s' req s
  start : ∀ {n d req}, sys.allowed req → inv n d →
    Holds req (σ.start req) d ∧ ∀ req' s', Apart req (σ.start req) req' s'
  move : ∀ {req s l n d s' n' d'}, inv n d → Holds req s d → sys.cond req l d →
    σ.Moves req s l n d s' n' d' → inv n' d' ∧ Holds req s' d'
  others : ∀ {req s l n d s' n' d' req' t}, inv n d → Holds req s d → Holds req' t d →
    Apart req s req' t → sys.cond req l d → σ.Moves req s l n d s' n' d' →
    Holds req' t d' ∧ Apart req s' req' t

structure Outline.Fits {sys : System Req L D W ρ} {σ : Staging sys S} (O : Outline σ)
    (a : Stages Req S D) : Prop where
  inv : O.inv a.next a.db
  holds : ∀ {i : Nat} {req s}, a.calls[i]? = some (req, s) → O.Holds req s a.db
  apart : ∀ {i j : Nat} {req s req' s'}, i ≠ j → a.calls[i]? = some (req, s) →
    a.calls[j]? = some (req', s') → O.Apart req s req' s'

namespace Outline

variable {sys : System Req L D W ρ} {σ : Staging sys S} (O : Outline σ) {a a' : Stages Req S D}
  {req : Req} {i : Nat} {s : S} {P : S → D → Prop}

theorem Fits.call (h : O.Fits a) (hreq : sys.allowed req) :
    O.Fits { a with calls := a.calls ++ [(req, σ.start req)] } := by
  obtain ⟨hstart, hapart⟩ := O.start hreq h.inv
  refine ⟨h.inv, fun hi => ?_, fun hij hi hj => ?_⟩
  · rcases of_getElem?_concat hi with hi | heq
    · exact h.holds hi
    · cases heq
      exact hstart
  · rcases of_getElem?_concat hi with hi | heq
    · rcases of_getElem?_concat hj with hj | heq
      · exact h.apart hij hi hj
      · cases heq
        exact O.symm (hapart _ _)
    · cases heq
      exact hapart _ _

theorem Fits.advance {s' : S} {l : L} {n' : Nat} {d' : D} (h : O.Fits a)
    (hcall : a.calls[i]? = some (req, s)) (hcond : sys.cond req l a.db)
    (hmove : σ.Moves req s l a.next a.db s' n' d') :
    O.Fits { next := n', db := d', calls := a.calls.set i (req, s') } := by
  obtain ⟨hinv, hholds⟩ := O.move h.inv (h.holds hcall) hcond hmove
  have hother : ∀ {j : Nat} {r t}, i ≠ j → a.calls[j]? = some (r, t) → O.Holds r t d' ∧ O.Apart req s' r t :=
    fun hij hj => O.others h.inv (h.holds hcall) (h.holds hj) (h.apart hij hcall hj) hcond hmove
  refine ⟨hinv, fun hj => ?_, fun hjk hj hk => ?_⟩
  · rcases of_getElem?_set hj with ⟨hij, hj⟩ | ⟨-, heq⟩
    · exact (hother hij hj).1
    · cases heq
      exact hholds
  · rcases of_getElem?_set hj with ⟨hij, hj0⟩ | ⟨rfl, heq⟩
    · rcases of_getElem?_set hk with ⟨-, hk0⟩ | ⟨-, heq⟩
      · exact h.apart hjk hj0 hk0
      · cases heq
        exact O.symm (hother hij hj0).2
    · cases heq
      rcases of_getElem?_set hk with ⟨hik, hk0⟩ | ⟨hik, -⟩
      · exact (hother hik hk0).2
      · exact absurd hik hjk

theorem Fits.run (h : O.Fits a) (hrun : σ.Run a a') : O.Fits a' := by
  induction hrun with
  | refl => exact h
  | tail _ hstep ih =>
    cases hstep with
    | call req hreq => exact ih.call O hreq
    | advance hcall hcond hmove => exact ih.advance O hcall hcond hmove

/-- A finer invariant and finer assertions, shown with the help of those there are. -/
def strengthen (inv' : Nat → D → Prop) (Holds' : Req → S → D → Prop)
    (start' : ∀ {n d req}, sys.allowed req → O.inv n d → inv' n d → Holds' req (σ.start req) d)
    (move' : ∀ {req s l n d s' n' d'}, O.inv n d → O.Holds req s d → inv' n d → Holds' req s d →
      sys.cond req l d → σ.Moves req s l n d s' n' d' → inv' n' d' ∧ Holds' req s' d')
    (others' : ∀ {req s l n d s' n' d' req' t}, O.inv n d → O.Holds req s d → O.Holds req' t d →
      O.Apart req s req' t → inv' n d → Holds' req s d → Holds' req' t d → sys.cond req l d →
      σ.Moves req s l n d s' n' d' → Holds' req' t d') : Outline σ where
  inv n d := O.inv n d ∧ inv' n d
  Holds req s d := O.Holds req s d ∧ Holds' req s d
  Apart := O.Apart
  symm := O.symm
  start hreq hinv := ⟨⟨(O.start hreq hinv.1).1, start' hreq hinv.1 hinv.2⟩, (O.start hreq hinv.1).2⟩
  move hinv hs hcond hmove := by
    obtain ⟨hinv1, hs1⟩ := O.move hinv.1 hs.1 hcond hmove
    obtain ⟨hinv2, hs2⟩ := move' hinv.1 hs.1 hinv.2 hs.2 hcond hmove
    exact ⟨⟨hinv1, hinv2⟩, hs1, hs2⟩
  others hinv hs ht hapart hcond hmove := by
    obtain ⟨ht1, hapart1⟩ := O.others hinv.1 hs.1 ht.1 hapart hcond hmove
    exact ⟨⟨ht1, others' hinv.1 hs.1 ht.1 hapart hinv.2 hs.2 ht.2 hcond hmove⟩, hapart1⟩

/-- No move of the call or of others ends what holds of its stage. -/
structure Keeps (req : Req) (P : S → D → Prop) : Prop where
  own : ∀ {s l n d s' n' d'}, O.inv n d → O.Holds req s d → P s d → sys.cond req l d →
    σ.Moves req s l n d s' n' d' → P s' d'
  others : ∀ {s req' t l n d t' n' d'}, O.inv n d → O.Holds req s d → P s d →
    O.Holds req' t d → sys.cond req' l d → σ.Moves req' t l n d t' n' d' → P s d'

theorem Fits.follow (h : O.Fits a) (hrun : σ.Run a a') (hcall : a.calls[i]? = some (req, s)) (hs : P s a.db)
    (hkept : O.Keeps req P) : ∃ s', a'.calls[i]? = some (req, s') ∧ P s' a'.db := by
  induction hrun with
  | refl => exact ⟨s, hcall, hs⟩
  | @tail b b' hrun hstep ih =>
    obtain ⟨s1, hcall1, hs1⟩ := ih
    have hfits := h.run O hrun
    have hi := (List.getElem?_eq_some_iff.mp hcall1).1
    cases hstep with
    | call => exact ⟨s1, getElem?_concat hcall1 _, hs1⟩
    | @advance j req' t t' l n' d' hj hcond hmove =>
      by_cases hji : j = i
      · subst hji
        rw [hcall1] at hj
        cases hj
        exact ⟨t', getElem?_set_self hi, hkept.own hfits.inv (hfits.holds hcall1) hs1 hcond hmove⟩
      · refine ⟨s1, by rw [getElem?_set_ne hji, hcall1], ?_⟩
        exact hkept.others hfits.inv (hfits.holds hcall1) hs1 (hfits.holds hj) hcond hmove

theorem Fits.follow_call (h : O.Fits a) (hreq : sys.allowed req) {c : Config Req L D W ρ}
    (hrun : sys.Run { σ.config a with calls := (σ.config a).calls ++ [(req, sys.program req)] } c)
    (hcall : c.calls[(σ.config a).calls.length]? = some (req, p)) (hstart : P (σ.start req) a.db)
    (hkept : O.Keeps req P) :
    ∃ s, σ.prog req s = p ∧ P s c.db ∧ O.Holds req s c.db := by
  have hfits := h.call O hreq
  rw [σ.config_call] at hrun
  obtain ⟨_, hmachine, rfl⟩ := σ.of_run hrun
  have hlength : (σ.config a).calls.length = a.calls.length := length_map ..
  rw [hlength] at hcall
  obtain ⟨s, hget, hs⟩ := hfits.follow O hmachine getElem?_concat_length hstart hkept
  obtain ⟨_, hget', hprog⟩ := σ.of_call hcall
  rw [hget] at hget'
  cases hget'
  exact ⟨s, hprog, hs, (hfits.run O hmachine).holds hget⟩

theorem Fits.each (h : O.Fits a) (hrun : σ.Run a a') {Q : D → Prop} {P : Req → S → Prop} (hQ : Q a.db)
    (hdb : ∀ {req s l n d s' n' d'}, Q d → σ.Moves req s l n d s' n' d' → Q d') (hstart : ∀ req, P req (σ.start req))
    (hmove : ∀ {req s l n d s' n' d'}, O.inv n d → O.Holds req s d → Q d → sys.cond req l d →
      σ.Moves req s l n d s' n' d' → P req s → P req s')
    {j : Nat} (hcall : a'.calls[j]? = some (req, s)) : P req s ∨ ∃ s0, a.calls[j]? = some (req, s0) ∧ ¬P req s0 := by
  have hall : Q a'.db ∧ ∀ {j : Nat} {req s}, a'.calls[j]? = some (req, s) →
      P req s ∨ ∃ s0, a.calls[j]? = some (req, s0) ∧ ¬P req s0 := by
    clear hcall
    induction hrun with
    | refl =>
      refine ⟨hQ, fun {j req s} hcall => ?_⟩
      by_cases hP : P req s
      · exact .inl hP
      · exact .inr ⟨s, hcall, hP⟩
    | @tail b b' hrun hstep ih =>
      obtain ⟨hQb, hcalls⟩ := ih
      have hfits := h.run O hrun
      cases hstep with
      | call =>
        refine ⟨hQb, fun {j req s} hcall => ?_⟩
        rcases of_getElem?_concat hcall with hcall | heq
        · exact hcalls hcall
        · cases heq
          exact .inl (hstart _)
      | @advance i req' t t' l n' d' hi hcond hmoves =>
        refine ⟨hdb hQb hmoves, fun {j req s} hcall => ?_⟩
        rcases of_getElem?_set hcall with ⟨-, hcall⟩ | ⟨rfl, heq⟩
        · exact hcalls hcall
        · cases heq
          obtain hP | hbefore := hcalls hi
          · exact .inl (hmove hfits.inv (hfits.holds hi) hQb hcond hmoves hP)
          · exact .inr hbefore
  exact hall.2 hcall

theorem fits_of_reachable {d0 : D} (h0 : O.inv 0 d0) (hrun : σ.Reachable d0 a) : O.Fits a :=
  Fits.run O ⟨h0, fun h => (by cases h), fun _ h => (by cases h)⟩ hrun

end Outline

end

end Transact
