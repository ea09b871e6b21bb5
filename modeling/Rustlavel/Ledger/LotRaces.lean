/-
  What each transaction of the ledger does to the lots when other calls commit between its statements.
-/

import Rustlavel.Ledger.ReadCommitted

namespace Rustlavel.Ledger

open Transact Transact.ReadCommitted List Rows Book Write
open Transact.Tx (query tryUpdate tryInsert)
open Transact.Prog (transaction statement)

/-! ## Kinds of writes -/

section

variable {P : Write → Prop}

theorem accountIn_only (unit owner : String) : Only P (accountIn unit owner).run := by
  refine .except_bind (.query _) fun a => ?_
  cases a <;> trivial

theorem updateAccount_only {accountId : String} {guard : Account → Bool} {balance held : Int}
    (h : P (.account accountId balance held)) : Only P (updateAccount accountId guard balance held).run := by
  refine .tryUpdate fun d x hx => ?_
  split at hx
  · cases hx
    exact h
  · cases hx

theorem updateHeld_only {holdId : String} {status : HoldStatus} (h : P (.hold holdId status)) :
    Only P (updateHeld holdId status).run := by
  refine .tryUpdate fun d x hx => ?_
  split at hx
  · cases hx
    exact h
  · cases hx

theorem insert_only {row : Nat → Write} (h : ∀ n, P (row n)) : Only P (insert row).run := by
  refine .tryInsert fun n d x hx => ?_
  split at hx
  · cases hx
    exact h n
  · cases hx

theorem balanceOf_only (accountId : String) : Only P (balanceOf accountId).run := by
  refine .except_bind (.query _) fun a => ?_
  cases a <;> trivial

theorem recordEntry_only (hentry : ∀ e, P (.newEntry e)) (t : Transfer) (accountId : String)
    (signed : Int) : Only P (recordEntry t accountId signed).run :=
  .except_bind (balanceOf_only accountId) fun _ =>
    .except_bind (insert_only fun _ => hentry _) fun _ => trivial

theorem record_only (htransfer : ∀ t, P (.newTransfer t)) (hentry : ∀ e, P (.newEntry e))
    (kind : TransferKind) (reference fromAccount toAccount : String) (amount : Int)
    (metadata : Metadata) (now : Nat) :
    Only P (record kind reference fromAccount toAccount amount metadata now).run := by
  refine .except_bind (insert_only fun _ => htransfer _) fun (n, inserted) => ?_
  cases inserted with
  | false => trivial
  | true =>
    exact .except_bind (recordEntry_only hentry _ _ _) fun _ =>
      .except_bind (recordEntry_only hentry _ _ _) fun _ => trivial

end

theorem releaseIn_only (holdId : String) : Only keepsLots (releaseIn holdId).run := by
  refine .except_bind (updateHeld_only trivial) fun released => ?_
  cases released with
  | false => trivial
  | true =>
    refine .except_bind (.query _) fun h => ?_
    cases h with
    | none => trivial
    | some => exact .except_bind (updateAccount_only trivial) fun _ => trivial

theorem releaseOnce_only (holdId : String) : Only keepsLots (releaseOnce holdId).run := by
  refine .except_bind (releaseIn_only holdId) fun released => ?_
  cases released <;> trivial

/-- Holds and releases write no lot. -/
theorem holdIn_only (unit owner : String) (amount : Int) (reference : String) (ttl now : Nat) :
    Only keepsLots (holdIn unit owner amount reference ttl now).run := by
  refine .except_bind (accountIn_only unit owner) fun account => ?_
  refine .except_bind (updateAccount_only trivial) fun covered => ?_
  cases covered with
  | false => trivial
  | true =>
    refine .except_bind (insert_only fun _ => trivial) fun (n, inserted) => ?_
    cases inserted <;> trivial

/-! ## Drawing -/

variable {α β : Type} {x : Tx α}

section

variable {ws : List Write} {d d' : Book}

theorem draws_of_keepsLots (h : ∀ w ∈ ws, w.keepsLots) : Draws ws d :=
  ⟨fun w hw => (h w hw).onlyDraws, fun lotId hne => absurd (takes_eq_zero h lotId) hne⟩

theorem Draws.rely (h : Draws ws d) (hrely : LotsKept ws d d') : Draws ws d' := by
  refine ⟨h.onlyDraws, fun lotId hne => ?_⟩
  obtain ⟨l, hl, rfl, hle⟩ := h.within lotId hne
  exact ⟨l, (hrely.locked l (locked_of_takes hne)).mpr hl, rfl, hle⟩

theorem Draws.write {w : Write} (h : Draws ws d) (hw : w.keepsLots) : Draws (ws ++ [w]) d := by
  have htakes : ∀ lotId, takes lotId (ws ++ [w]) = takes lotId ws := by
    intro lotId
    rw [takes_append, takes_cons, hw.takes, takes_nil, add_zero, add_zero]
  refine ⟨forall_concat h.onlyDraws hw.onlyDraws, fun lotId hne => ?_⟩
  rw [htakes] at hne ⊢
  exact h.within lotId hne

theorem Draws.draw {lotId : String} {take : Int} (h : Draws ws d)
    (hfound : ∃ l ∈ (view d ws).lots, l.id = lotId ∧ take ≤ l.remaining) : Draws (ws ++ [.drawLot lotId take]) d := by
  obtain ⟨_, hl', hid, hle⟩ := hfound
  rw [view_lots_of_onlyDraws h.onlyDraws] at hl'
  obtain ⟨l, hl, rfl⟩ := mem_map.mp hl'
  have hid : l.id = lotId := hid
  have hle : take ≤ l.remaining - takes l.id ws := hle
  refine ⟨forall_concat h.onlyDraws trivial, fun lotId' hne => ?_⟩
  rw [takes_append, takes_cons, takes_nil, add_zero, Write.takes] at hne ⊢
  by_cases heq : lotId = lotId'
  · subst heq
    rw [if_pos rfl]
    refine ⟨l, hl, hid, ?_⟩
    rw [hid] at hle
    omega
  · rw [if_neg heq, add_zero] at hne ⊢
    exact h.within lotId' hne

variable {req : Request} {p : Point} {cond : Request → Point → Write → Book → Prop}

/-- Drawing from lots that were read writes what `Draws` allows, one lot after the other. -/
theorem drawFrom_holds (lots : List Lot) (amount : Int) (h : Draws ws d) :
    HoldsOk lotContract cond req p (fun _ ws d => Draws ws d) (drawFrom lots amount) ws d := by
  induction lots generalizing amount ws d with
  | nil => exact .pure fun d' hrely _ => h.rely hrely
  | cons lot lots ih =>
    rw [drawFrom]
    split
    · exact .pure fun d' hrely _ => h.rely hrely
    · refine .tryUpdate fun d' hrely _ => ⟨fun x hx _ => ?_, fun _ => ih _ (h.rely hrely)⟩
      split at hx
      · rename_i hany
        cases hx
        exact ih _ ((h.rely hrely).draw (by simpa using hany))
      · cases hx

theorem drawLots_holds (accountId : String) (amount : Int) (h : Draws ws d) :
    HoldsOk lotContract cond req p (fun _ ws d => Draws ws d) (drawLots accountId amount) ws d :=
  .query fun _ hrely _ => drawFrom_holds _ amount (h.rely hrely)

theorem Draws.bind {f : α → Tx β} {post : β → List Write → Book → Prop} (h : Draws ws d) (hx : Only keepsLots x.run)
    (hf : ∀ a ws d, Draws ws d → HoldsOk lotContract cond req p post (f a) ws d) :
    HoldsOk lotContract cond req p post (x >>= f) ws d :=
  .keeps hx (fun _ _ _ h hrely => h.rely hrely) (fun _ _ _ h hw => h.write hw) h hf

end

/-! ## The transactions -/

variable {p : Point}

section

variable {req : Request} {cond : Request → Point → Write → Book → Prop} {ws : List Write} {d d' : Book}

/-- A consumption commits with the draws of its lots. -/
theorem consumeIn_holds (unit owner : String) (amount : Int) (reference : String) (now : Nat) (d : Book) :
    HoldsOk lotContract cond req .main (Ends lotContract req .main)
      (consumeIn unit owner amount reference now) [] d := by
  have hnil : Draws [] d := draws_of_keepsLots nofun
  refine hnil.bind (accountIn_only unit owner) fun source ws d h => ?_
  refine h.bind (accountIn_only unit systemConsumption) fun target ws d h => ?_
  refine h.bind (updateAccount_only trivial) fun covered ws d h => ?_
  cases covered with
  | false => exact .pure fun _ _ _ => trivial
  | true =>
    refine h.bind (updateAccount_only trivial) fun _ ws d h => ?_
    refine .bind ((drawLots_holds source.id amount h).weaken fun _ ws d h _ ha => ?_)
    refine (h _ ha).bind (record_only (fun _ => trivial) (fun _ => trivial) ..) fun r ws d h => ?_
    cases r with
    | none => exact .pure fun _ _ _ => trivial
    | some => exact .pure fun _ hrely _ => .inl (h.rely hrely)

/-- So does the capture of a hold. -/
theorem captureIn_holds (unit holdId : String) (now : Nat) (d : Book) :
    HoldsOk lotContract cond req .main (Ends lotContract req .main) (captureIn unit holdId now) [] d := by
  have hnil : Draws [] d := draws_of_keepsLots nofun
  refine hnil.bind (updateHeld_only trivial) fun captured ws d h => ?_
  cases captured with
  | false => exact .pure fun _ _ _ => trivial
  | true =>
    refine h.bind (.query _) fun found ws d h => ?_
    cases found with
    | none => exact .throw
    | some hold =>
      refine h.bind (accountIn_only unit systemConsumption) fun target ws d h => ?_
      refine h.bind (updateAccount_only trivial) fun _ ws d h => ?_
      refine h.bind (updateAccount_only trivial) fun _ ws d h => ?_
      refine .bind ((drawLots_holds hold.accountId hold.amount h).weaken fun _ ws d h _ ha => ?_)
      refine (h _ ha).bind (record_only (fun _ => trivial) (fun _ => trivial) ..) fun r ws d h => ?_
      cases r with
      | none => exact .throw
      | some => exact .pure fun _ hrely _ => .inl (h.rely hrely)

/-- A transaction that has written no lot so far. -/
def Plain (ws : List Write) (_ : Book) : Prop := ∀ w ∈ ws, w.keepsLots

theorem Plain.bind {f : α → Tx β} {post : β → List Write → Book → Prop} (h : Plain ws d) (hx : Only keepsLots x.run)
    (hf : ∀ a ws d, Plain ws d → HoldsOk lotContract cond req p post (f a) ws d) :
    HoldsOk lotContract cond req p post (x >>= f) ws d :=
  .keeps (J := Plain) hx (fun _ _ _ h _ => h) (fun _ _ _ h hw => forall_concat h hw) h hf

variable {amount seen bound : Int} {lotId : String}

/-- A top-up writes one new lot at most. -/
theorem topUpIn_holds (unit owner : String) (reference : String)
    (expiresIn : Option Nat) (now : Nat) (hamount : 0 < amount) (d : Book) :
    HoldsOk lotContract cond req .main (Ends lotContract req .main)
      (topUpIn unit owner amount reference expiresIn now) [] d := by
  have hnil : Plain [] d := nofun
  refine hnil.bind (accountIn_only unit owner) fun target ws d h => ?_
  refine h.bind (accountIn_only unit systemTopup) fun source ws d h => ?_
  refine h.bind (updateAccount_only trivial) fun _ ws d h => ?_
  refine h.bind (updateAccount_only trivial) fun _ ws d h => ?_
  refine h.bind (record_only (fun _ => trivial) (fun _ => trivial) ..) fun r ws d h => ?_
  cases r with
  | none => exact .pure fun _ _ _ => trivial
  | some t =>
    refine .tryInsert fun d' _ _ n => ⟨fun x hx _ => ?_, fun _ => .throw⟩
    split at hx
    · rename_i haccepts
      cases hx
      -- the index checked the id, and the lock keeps it free
      refine .pure fun d'' hrely _ => .inr ⟨ws, _, rfl, h, fun l hl hid => ?_, rfl, hamount.le⟩
      have hlocked : Locked l.id (ws ++ [newLot _]) := ⟨_, mem_append_right _ (mem_singleton_self _), by
          rw [hid]
          exact mem_singleton_self _⟩
      have hl' : l ∈ (view d' ws).lots := by
        rw [view_lots_of_keepsLots h]
        exact (hrely.locked l hlocked).mp hl
      have hfree := all_eq_true.mp haccepts l hl'
      exact (of_decide_eq_true hfree) hid
    · cases hx

/-! ### Expiry -/

/-- A write that neither touches a lot nor takes from an account. -/
def Write.neutral (w : Write) : Prop := w.keepsLots ∧ w.debit = 0

theorem Expires.rely (h : Expires lotId seen bound ws d)
    (hrely : LotsKept ws d d') : Expires lotId seen bound ws d' := by
  obtain ⟨rest, rfl, hkeeps, hdebited, l, hl, rfl, rfl⟩ := h
  have hlocked : Locked l.id (clearLot l.id l.remaining :: rest) := ⟨_, mem_cons_self, mem_singleton_self _⟩
  exact ⟨rest, rfl, hkeeps, hdebited, l, (hrely.locked l hlocked).mpr hl, rfl, rfl⟩

theorem Expires.write {w : Write} (h : Expires lotId seen bound ws d) (hw : w.keepsLots) :
    Expires lotId seen (bound + w.debit) (ws ++ [w]) d := by
  obtain ⟨rest, rfl, hkeeps, _, hlot⟩ := h
  refine ⟨rest ++ [w], rfl, forall_concat hkeeps hw, ?_, hlot⟩
  rw [debited_append, debited_cons, debited_nil, add_zero]
  omega

theorem Expires.mono {bound' : Int} (h : Expires lotId seen bound ws d)
    (hle : bound ≤ bound') : Expires lotId seen bound' ws d := by
  obtain ⟨rest, hws, hkeeps, hdebited, hlot⟩ := h
  exact ⟨rest, hws, hkeeps, hdebited.trans hle, hlot⟩

theorem Expires.bind {f : α → Tx β} {post : β → List Write → Book → Prop} (h : Expires lotId seen bound ws d)
    (hx : Only neutral x.run)
    (hf : ∀ a ws d, Expires lotId seen bound ws d → HoldsOk lotContract cond req p post (f a) ws d) :
    HoldsOk lotContract cond req p post (x >>= f) ws d := by
  refine .keeps hx (fun _ _ _ h hrely => h.rely hrely) (fun _ _ w h hw => ?_) h hf
  have h' := h.write hw.1
  rwa [hw.2, add_zero] at h'

theorem moveExpired_holds (unit lotId accountId : String) (now : Nat)
    (hamount : 0 ≤ amount) (h : Expires lotId seen 0 ws d) :
    HoldsOk lotContract cond req p (fun _ ws d => Expires lotId seen amount ws d)
      (moveExpired unit lotId accountId amount now) ws d := by
  rw [moveExpired]
  split
  · refine h.bind (accountIn_only unit systemExpiry) fun target ws d h => ?_
    refine .tryUpdate fun d' hrely _ => ⟨fun x hx _ => ?_, fun _ => ?_⟩
    · split at hx
      · cases hx
        have hdebit : 0 + (account accountId (-amount) 0).debit = amount := by
          show 0 + max (- -amount) 0 = amount
          omega
        have h' := (h.rely hrely).write (w := .account accountId (-amount) 0) trivial
        rw [hdebit] at h'
        have hcredit : (account target.id amount 0).neutral := by
          refine ⟨trivial, ?_⟩
          show max (-amount) 0 = 0
          omega
        refine h'.bind (updateAccount_only hcredit) fun _ ws d h => ?_
        refine h.bind (record_only (fun _ => ⟨trivial, rfl⟩) (fun _ => ⟨trivial, rfl⟩) ..) fun _ ws d h => ?_
        exact .pure fun _ hrely _ => h.rely hrely
      · cases hx
    · exact .pure fun _ hrely' _ => ((h.rely hrely).rely hrely').mono hamount
  · exact .pure fun _ hrely _ => (h.rely hrely).mono hamount

/-- An expiry empties the lot it has read, as long as what it read is current. -/
theorem expireLotIn_holds (unit lotId accountId : String) (now : Nat) (d : Book) :
    HoldsOk lotContract ReadIsCurrent req (.expireLot lotId accountId)
      (Ends lotContract req (.expireLot lotId accountId))
      (expireLotIn unit lotId accountId now) [] d := by
  refine .query fun d1 _ _ => ?_
  cases hfind : d1.lots.find? fun l => l.id = lotId ∧ 0 < l.remaining with
  | none =>
    have hview : (view d1 ([] : List Write)).lots.find? _ = none := hfind
    rw [hview]
    exact .pure fun _ _ _ => trivial
  | some lot =>
    have hview : (view d1 ([] : List Write)).lots.find? _ = some lot := hfind
    rw [hview]
    have hlot : lot ∈ d1.lots := mem_of_find?_eq_some hfind
    have hfound : lot.id = lotId ∧ 0 < lot.remaining := by simpa using List.find?_some hfind
    refine .query fun d2 hrely2 _ => ?_
    cases accountById accountId (view d2 ([] : List Write)) with
    | none => exact .throw
    | some =>
      -- the lot is still there when it is emptied
      refine .tryUpdate fun d3 hrely3 _ => ?_
      obtain ⟨l2, hl2, hid2⟩ := hrely2.persist lot hlot
      obtain ⟨l3, hl3, hid3⟩ := hrely3.persist l2 hl2
      have hid : l3.id = lotId := (hid3.trans hid2).trans hfound.1
      have hany : d3.lots.any (fun l => l.id = lotId) = true := any_eq_true.mpr ⟨l3, hl3, decide_eq_true hid⟩
      refine ⟨fun x hx hcond => ?_, fun hnone => ?_⟩
      · have hx : (if d3.lots.any (fun l => l.id = lotId) then
            some (clearLot lotId lot.remaining) else none) = some x := hx
        rw [if_pos hany] at hx
        cases hx
        have hexpires : Expires lotId lot.remaining 0 [.clearLot lotId lot.remaining] d3 :=
          ⟨[], rfl, nofun, le_refl 0, l3, hl3, hid, hcond l3 hl3 hid⟩
        refine .bind ((moveExpired_holds unit lotId accountId now (le_max_right ..) hexpires).weaken
          fun _ ws d h _ ha => .pure fun _ hrely _ => ⟨lot.remaining, ?_⟩)
        refine ((h _ ha).rely hrely).mono ?_
        omega
      · have hnone : (if d3.lots.any (fun l => l.id = lotId) then _ else none) = none := hnone
        rw [if_pos hany] at hnone
        cases hnone

end

/-! ## The calls -/

section

variable {req : Request} {α β : Type}

theorem each_of_keepsLots {body : Tx (Verdict α)}
    (hp : ∀ ws d, Draws ws d → Commits p ws d) (h : Only keepsLots body.run) :
    Each lotContract ReadIsCurrent req (transaction p body).run := by
  refine .transaction fun d => (h.keeps (J := Plain) (fun _ _ _ h _ => h)
    (fun _ _ _ h hw => forall_concat h hw) fun _ hw => absurd hw not_mem_nil).weaken ?_
  intro r ws d hplain v _
  cases v with
  | commit => exact hp ws d (draws_of_keepsLots hplain)
  | rollback => trivial

theorem each_statement {body : Tx α} (hp : ∀ ws d, Draws ws d → Commits p ws d)
    (h : Only keepsLots body.run) : Each lotContract ReadIsCurrent req (statement p body).run :=
  each_of_keepsLots hp (.except_bind h fun _ => trivial)

theorem read_each (f : Book → α) : Each lotContract ReadIsCurrent req (read f).run :=
  each_statement (fun _ _ => .inl) (.query f)

theorem lookup_each {f : Book → Option α} {g : Option α → Op β}
    (hsome : ∀ a, Each lotContract ReadIsCurrent req (g (some a)).run)
    (hnone : Each lotContract ReadIsCurrent req (g none).run) :
    Each lotContract ReadIsCurrent req (read f >>= g).run := by
  refine .except_bind (read_each f) fun found => ?_
  cases found with
  | some a => exact hsome a
  | none => exact hnone

variable (unit owner : String)

theorem ensureAttempts_each (attempts : Nat) (last : Option Error) :
    Each lotContract ReadIsCurrent req (ensureAttempts unit owner attempts last).run := by
  induction attempts generalizing last with
  | zero => trivial
  | succ attempts ih =>
    refine lookup_each (fun _ => trivial) ?_
    refine .except_bind (each_statement (fun _ _ => .inl) (insert_only fun _ => trivial)) fun (n, inserted) => ?_
    cases inserted with
    | true => trivial
    | false => exact ih _

theorem ensureAccount_each : Each lotContract ReadIsCurrent req (ensureAccount unit owner).run :=
  ensureAttempts_each unit owner 5 none

theorem positive_each {amount : Int} {f : Unit → Op α}
    (h : 0 < amount → Each lotContract ReadIsCurrent req (f ()).run) :
    Each lotContract ReadIsCurrent req (positive amount >>= f).run := by
  rw [positive]
  split
  · trivial
  · exact h (by omega)

variable (amount : Int) (reference : String)

theorem topUp_each (expiresIn : Option Nat) (now : Nat) :
    Each lotContract ReadIsCurrent req (topUp unit owner amount reference expiresIn now).run := by
  refine positive_each fun hamount => lookup_each (fun _ => trivial) ?_
  refine .except_bind (ensureAccount_each unit owner) fun _ => ?_
  refine .except_bind (ensureAccount_each unit systemTopup) fun _ => ?_
  refine .except_bind (.transaction (topUpIn_holds unit owner reference expiresIn now hamount)) fun attempt => ?_
  cases attempt with
  | done => trivial
  | _ => exact lookup_each (fun _ => trivial) trivial

theorem consume_each (now : Nat) :
    Each lotContract ReadIsCurrent req (consume unit owner amount reference now).run := by
  refine positive_each fun _ => lookup_each (fun _ => trivial) ?_
  refine .except_bind (ensureAccount_each unit owner) fun _ => ?_
  refine .except_bind (ensureAccount_each unit systemConsumption) fun _ => ?_
  refine .except_bind (.transaction (consumeIn_holds unit owner amount reference now)) fun attempt => ?_
  cases attempt with
  | done | short => trivial
  | raced => exact lookup_each (fun _ => trivial) trivial

theorem hold_each (ttl now : Nat) :
    Each lotContract ReadIsCurrent req (hold unit owner amount reference ttl now).run := by
  refine positive_each fun _ => lookup_each (fun _ => trivial) ?_
  refine .except_bind (ensureAccount_each unit owner) fun _ => ?_
  refine .except_bind (each_of_keepsLots (fun _ _ => .inl)
    (holdIn_only unit owner amount reference ttl now)) fun attempt => ?_
  cases attempt with
  | done | short => trivial
  | raced => exact lookup_each (fun _ => trivial) trivial

theorem holdNotHeld_each (holdId : String) : Each lotContract ReadIsCurrent req (holdNotHeld holdId : Op α).run :=
  lookup_each (fun _ => trivial) trivial

theorem capture_each (unit holdId : String) (now : Nat) :
    Each lotContract ReadIsCurrent req (capture unit holdId now).run := by
  refine .except_bind (ensureAccount_each unit systemConsumption) fun _ => ?_
  refine .except_bind (.transaction (captureIn_holds unit holdId now)) fun captured => ?_
  cases captured with
  | some => trivial
  | none => exact holdNotHeld_each holdId

theorem release_each (holdId : String) : Each lotContract ReadIsCurrent req (release holdId).run := by
  refine .except_bind (each_of_keepsLots (fun _ _ => .inl) (releaseOnce_only holdId)) fun released => ?_
  cases released with
  | true => trivial
  | false => exact holdNotHeld_each holdId

theorem sweepHolds_each (holds : List Hold) (swept : Sweep) :
    Each lotContract ReadIsCurrent req (sweepHolds holds swept).run := by
  induction holds generalizing swept with
  | nil => trivial
  | cons h holds ih =>
    exact .except_bind (each_statement (fun _ _ => .inl) (releaseIn_only h.id)) fun _ => ih _

theorem sweepLots_each (unit : String) (now : Nat) (lots : List Lot) (swept : Sweep) :
    Each lotContract ReadIsCurrent req (sweepLots unit now lots swept).run := by
  induction lots generalizing swept with
  | nil => trivial
  | cons l lots ih =>
    refine .except_bind (.transaction (expireLotIn_holds unit l.id l.accountId now)) fun moved => ?_
    cases moved <;> exact ih _

theorem sweep_each (unit : String) (now : Nat) : Each lotContract ReadIsCurrent req (sweep unit now).run := by
  refine .except_bind (ensureAccount_each unit systemExpiry) fun _ => ?_
  refine .except_bind (read_each _) fun staleHolds => ?_
  refine .except_bind (sweepHolds_each staleHolds _) fun swept => ?_
  exact .except_bind (read_each _) fun deadLots => sweepLots_each unit now deadLots swept

/-- Every call keeps the contract, statement by statement. -/
theorem statementSystem_safe : (statementSystem ReadIsCurrent).Safe lotContract := by
  intro req _
  cases req with
  | topUp unit owner amount reference expiresIn now =>
    exact .except_bind (topUp_each unit owner amount reference expiresIn now) fun _ => trivial
  | consume unit owner amount reference now =>
    exact .except_bind (consume_each unit owner amount reference now) fun _ => trivial
  | hold unit owner amount reference ttl now =>
    exact .except_bind (hold_each unit owner amount reference ttl now) fun _ => trivial
  | capture unit holdId now => exact .except_bind (capture_each unit holdId now) fun _ => trivial
  | release unit holdId => exact .except_bind (release_each holdId) fun _ => trivial
  | sweep unit now => exact .except_bind (sweep_each unit now) fun _ => trivial

end

/-! ## Runs -/

/-- If every sweep empties a lot as it read it, no lot gives more than it had, and the transaction that expires one
    debits no more than is left. -/
theorem lots_of_reachable {c : ReadCommitted.Config Request Point Book Write (Except Error Reply)}
    (hc : (statementSystem ReadIsCurrent).Reachable empty c) :
    (∀ l ∈ c.db.lots, drawn l.id c.history + expired l.id c.history ≤ l.initial) ∧
    ∀ c' req lotId accountId ws, (statementSystem ReadIsCurrent).Step c c' →
      c'.history = c.history ++ [(req, .expireLot lotId accountId, ws)] →
      ∃ l ∈ c.db.lots, l.id = lotId ∧ debited ws ≤ l.remaining := by
  have hempty : WithinLots [] empty := ⟨⟨nodup_nil, nofun⟩, nofun, fun _ _ => rfl⟩
  have hok := statementSystem_safe.reachable hempty hc
  refine ⟨fun l hl => ?_, fun c' req lotId accountId ws hstep hhistory => ?_⟩
  · have hcharged := hok.inv.charged l hl
    have hnonneg := hok.inv.ok.nonneg l hl
    omega
  · obtain ⟨_, rest, rfl, -, _, l, hl, hid, rfl⟩ := hok.commits hstep hhistory
    refine ⟨l, hl, hid, ?_⟩
    show 0 + debited rest ≤ l.remaining
    omega

def turns (i n : Nat) : List (System.Event Request) := List.replicate n (.advance i)

theorem lots_of_reachable_run : ∃ c, (statementSystem ReadIsCurrent).Reachable empty c ∧
    c.db.lots.map (fun l => (drawn l.id c.history, expired l.id c.history)) = [(30, 70), (0, 0)] ∧
    ∀ l ∈ c.db.lots, drawn l.id c.history + expired l.id c.history ≤ l.initial := by
  have hplay : ((statementSystem ReadIsCurrent).play
      ([.call (.topUp "credits" "ana" 100 "pay-1" (some 60) 100)] ++ turns 0 27 ++
        [.call (.topUp "credits" "ana" 100 "pay-2" none 101)] ++ turns 1 21 ++
        [.call (.sweep "credits" 200)] ++ turns 2 12 ++
        [.call (.consume "credits" "ana" 30 "job-1" 201)] ++ turns 3 25 ++ turns 2 13)
      { next := 0, db := empty, calls := [], history := [] }).map
        (fun c => c.db.lots.map fun l => (drawn l.id c.history, expired l.id c.history)) =
      some [(30, 70), (0, 0)] := by decide
  obtain ⟨c, hc, hlots⟩ := System.play_reachable _ _ _ _ hplay
  exact ⟨c, hc, hlots, (lots_of_reachable hc).1⟩

/-- The consumption takes the dead lot after the sweep has read it; the lot of 100 pays 200. -/
theorem lot_paid_twice : ∃ c, (statementSystem fun _ _ _ _ => True).Reachable empty c ∧
    c.db.lots.map (fun l => (l.initial, drawn l.id c.history, expired l.id c.history, l.remaining)) =
      [(100, 100, 100, 0), (100, 0, 0, 100)] ∧
    (c.db.findAccount "credits" "ana").map Account.balance = some 0 := by
  have hplay : ((statementSystem fun _ _ _ _ => True).play
      ([.call (.topUp "credits" "ana" 100 "pay-1" (some 60) 100)] ++ turns 0 27 ++
        [.call (.topUp "credits" "ana" 100 "pay-2" none 101)] ++ turns 1 21 ++
        [.call (.sweep "credits" 200)] ++ turns 2 15 ++
        [.call (.consume "credits" "ana" 100 "job-1" 201)] ++ turns 3 25 ++ turns 2 10)
      { next := 0, db := empty, calls := [], history := [] }).map (fun c =>
        (c.db.lots.map fun l => (l.initial, drawn l.id c.history, expired l.id c.history, l.remaining),
          (c.db.findAccount "credits" "ana").map Account.balance)) =
      some ([(100, 100, 100, 0), (100, 0, 0, 100)], some 0) := by decide
  obtain ⟨c, hc, hlots⟩ := System.play_reachable _ _ _ _ hplay
  exact ⟨c, hc, Prod.mk.inj hlots⟩

end Rustlavel.Ledger
