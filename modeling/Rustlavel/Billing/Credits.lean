/-
  The credits of an invoice are granted when it is paid, and only then.
-/

import Rustlavel.Billing.Subscriptions
import Rustlavel.Lib.Always

namespace Rustlavel.Billing

open Transact Transact.Tx List Rows Rustlavel.Billing.Db

/-! ## After the top-up comes the payment -/

variable {α : Type}

def LedgerQuiet (_ : Ledger.Point) (d d' : Ledger.Book)
    (_ : Prog Ledger.Point Ledger.Book Ledger.Write (Except Error α)) : Prop :=
  d'.transfers = d.transfers

def LedgerLast (_ : Ledger.Point) (d d' : Ledger.Book)
    (q : Prog Ledger.Point Ledger.Book Ledger.Write (Except Error α)) : Prop :=
  d'.transfers = d.transfers ∨ ∃ a, q = .ret (.ok a)

theorem ledger_read_always (f : Ledger.Book → α) : (Ledger.read f).run.Always LedgerQuiet :=
  .statement (fun _ _ => .query rfl) fun _ _ => rfl

theorem ensureAttempts_always (unit owner : String) (attempts : Nat) (last : Option Error) :
    (Ledger.ensureAttempts unit owner attempts last).run.Always LedgerQuiet := by
  induction attempts generalizing last with
  | zero => exact .throw
  | succ attempts ih =>
    refine .except_bind (ledger_read_always _) (fun found => ?_) fun _ _ _ _ h => h
    cases found with
    | some => exact .pure
    | none =>
      refine .except_bind (S := LedgerQuiet) (.statement (fun n d => ?_) fun _ _ => rfl)
        (fun (_, inserted) => ?_) fun _ _ _ _ h => h
      · exact Ledger.insert_ends (fun _ => rfl) fun _ => rfl
      · cases inserted
        · exact ih _
        · exact .pure

variable {unit owner reference invoiceId subscriptionId planId : String} {amount : Int}
  {expiresIn : Option Nat} {now n start finish ledgerNow : Nat} {q : Prog Point Db Write (Except Error α)}
  {b : Billing}

theorem topUpIn_done {d : Ledger.Book} : Ends (Ledger.topUpIn unit owner amount reference expiresIn now) n d
      fun v _ _ => ∀ a, v = .commit a → ∃ t, a = .done t := by
  have hany : ∀ {α : Type} {x : Ledger.Tx α} {n : Nat} {d : Ledger.Book}
      {Q : α → Nat → Ledger.Book → Prop}, (∀ a n' d', Q a n' d') → Ends x n d Q :=
    fun h a n' d' _ => h a n' d'
  refine .bind (hany fun _ _ _ => .bind (hany fun _ _ _ => .bind (hany fun _ _ _ => ?_)))
  refine .bind (hany fun _ _ _ => .bind (hany fun transfer _ _ => ?_))
  cases transfer with
  | none => exact .pure fun a ha => by cases ha
  | some t =>
    refine .bind (hany fun (_, inserted) _ _ => ?_)
    cases inserted
    · exact .throw
    · exact .pure fun a ha => by cases ha; exact ⟨t, rfl⟩

theorem topUp_always (unit owner : String) (amount : Int) (reference : String) (expiresIn : Option Nat) (now : Nat) :
    (Ledger.topUp unit owner amount reference expiresIn now).run.Always LedgerLast := by
  have hquiet : ∀ {α β : Type} {f : α → Ledger.Op β} l d d' q, LedgerQuiet l d d' q →
      LedgerLast l d d' (q >>= ExceptT.bindCont f) := fun _ _ _ _ h => .inl h
  have hpositive : (Ledger.positive amount).run.Always LedgerQuiet := by
    unfold Ledger.positive
    split
    · exact .throw
    · exact .pure
  refine .except_bind hpositive (fun _ => ?_) hquiet
  refine .except_bind (ledger_read_always _) (fun found => ?_) hquiet
  cases found with
  | some => exact .pure
  | none =>
    refine .except_bind (ensureAttempts_always unit owner 5 none) (fun _ => ?_) hquiet
    refine .except_bind (ensureAttempts_always unit _ 5 none) (fun _ => ?_) hquiet
    refine .except_bind (S := fun _ d d' q => d'.transfers = d.transfers ∨ ∃ t, q = .ret (.ok (.done t)))
      (.transaction (fun n d => topUpIn_done.mono fun v _ d' hv => ?_) fun _ _ _ _ => .inl rfl)
      (fun attempt => ?_) fun l d d' q hq => ?_
    · cases v with
      | commit a =>
        obtain ⟨t, rfl⟩ := hv a rfl
        exact .inr ⟨t, rfl⟩
      | rollback => exact .inl rfl
    · cases attempt with
      | done => exact .pure
      | short | raced =>
        refine .except_bind (ledger_read_always _) (fun found => ?_) hquiet
        cases found
        · exact .throw
        · exact .pure
    · rcases hq with hq | ⟨t, rfl⟩
      · exact .inl hq
      · exact .inr ⟨t, rfl⟩

def PaysNext (invoiceId : String) (q : Prog Point Db Write (Except Error α)) : Prop :=
  ∃ subscriptionId start, q.next = some (.pay invoiceId subscriptionId start .opened)

/-- What a step of `on_paid` leaves: after its transaction the invoice is paid, or as closed as it was before, and a
    new transfer is followed by the transaction, for an invoice that was read as open. -/
structure Follows {α : Type} (invoiceId : String) (p : Point) (d d' : Db)
    (q : Prog Point Db Write (Except Error α)) : Prop where
  closed : ∀ paidId subscriptionId start seen, p = .pay paidId subscriptionId start seen →
    ∀ i ∈ d'.invoices, i.id = paidId → i.status = .paid ∨ i ∈ d.invoices ∧ i.status ≠ .opened
  granted : d'.book.transfers = d.book.transfers ∨ PaysNext invoiceId q

theorem Follows.bind {β : Type} {p : Point} {d d' : Db} {f : Except Error α → Prog Point Db Write (Except Error β)}
    (h : Follows invoiceId p d d' q) : Follows invoiceId p d d' (q >>= f) := by
  refine ⟨h.closed, h.granted.imp_right ?_⟩
  rintro ⟨subscriptionId, start, hnext⟩
  cases q with
  | ret => cases hnext
  | step => exact ⟨subscriptionId, start, hnext⟩

def Quiet (p : Point) (d d' : Db) (_ : Prog Point Db Write (Except Error α)) : Prop :=
  (∀ invoiceId subscriptionId start seen, p ≠ .pay invoiceId subscriptionId start seen) ∧
  d'.book.transfers = d.book.transfers

theorem Quiet.follows {β : Type} {p : Point} {d d' : Db} {q' : Prog Point Db Write (Except Error β)}
    (h : Quiet p d d' q) : Follows invoiceId p d d' q' :=
  ⟨fun _ _ _ _ hp => absurd hp (h.1 _ _ _ _), .inl h.2⟩

theorem read_always (f : Db → α) : (read f).run.Always Quiet :=
  .statement (fun _ _ => .query ⟨nofun, rfl⟩) fun _ _ => ⟨nofun, rfl⟩

theorem require_always (subscriptionId : String) : (require subscriptionId).run.Always Quiet := by
  refine .except_bind (read_always _) (fun found => ?_) fun _ _ _ _ h => h
  cases found
  · exact .throw
  · exact .pure

theorem requireInvoice_always (invoiceId : String) : (requireInvoice invoiceId).run.Always Quiet := by
  refine .except_bind (read_always _) (fun found => ?_) fun _ _ _ _ h => h
  cases found
  · exact .throw
  · exact .pure

theorem payIn_ne_error {d : Db} {e : Error} :
    (Tx.run (payIn invoiceId subscriptionId planId start finish now).run n d).1 ≠ .error e := by
  unfold payIn setInvoiceIn setSubscriptionIn
  rw [run_except_bind, run_tryUpdate]
  split <;> rename_i hfirst
  · split at hfirst
    · cases hfirst
      rw [if_pos rfl, run_except_bind, run_tryUpdate]
      split <;> rename_i hsecond <;> split at hsecond <;> cases hsecond <;> exact nofun
    · cases hfirst
      exact nofun
  · split at hfirst <;> cases hfirst

theorem pay_always {seen : InvoiceStatus} : (Prog.transaction (Point.pay invoiceId subscriptionId start seen)
      (payIn invoiceId subscriptionId planId start finish now)).run.Always (Follows invoiceId) := by
  refine .transaction (fun n d => ?_) fun n d e he => absurd he payIn_ne_error
  refine .bind (setInvoiceIn_ends (fun i hi hid hopen => ?_) fun hclosed => .pure ?_)
  · refine .bind (setSubscriptionIn_ends (fun _ _ _ _ => .pure ?_) fun _ => .pure ?_)
    all_goals
      refine ⟨fun paidId _ _ _ hp j hj hjid => ?_, .inl rfl⟩
      cases hp
      rcases mem_modify.mp hj with ⟨-, hne⟩ | ⟨j0, -, -, rfl⟩
      · exact absurd hjid hne
      · exact .inl rfl
  · refine ⟨fun paidId _ _ _ hp j hj hjid => ?_, .inl rfl⟩
    cases hp
    exact .inr ⟨hj, fun hopen => hclosed j hj hjid (decide_eq_true hopen)⟩

def Grants (p : Point) (d d' : Db) (q : Prog Point Db Write (Except Error α)) : Prop :=
  (∀ invoiceId subscriptionId start seen, p ≠ .pay invoiceId subscriptionId start seen) ∧
  (d'.book.transfers = d.book.transfers ∨ ∃ a, q = .ret (.ok a))

theorem grant_always {invoice : Invoice} {s : Subscription} {plan : Plan} :
    (b.grant invoice s plan finish now ledgerNow).run.Always Grants := by
  unfold grant
  split
  · refine .except_bind (S := Grants) (.lift (fun l d book q hq => ⟨nofun, ?_⟩) (topUp_always ..))
      (fun _ => .pure) fun p d d' q hq => ⟨hq.1, ?_⟩
    · rcases hq.2 with hq | ⟨t, rfl⟩
      · exact .inl hq
      · exact .inr ⟨(), rfl⟩
    · rcases hq with hq | ⟨t, rfl⟩
      · exact .inl hq
      · exact .inr ⟨t, rfl⟩
  · exact .pure

theorem onPaid_always : (b.onPaid invoiceId now ledgerNow).run.Always (Follows invoiceId) := by
  refine .except_bind (requireInvoice_always _) (fun invoice => ?_) fun _ _ _ _ h => h.follows
  split
  · exact .pure
  · exact .pure
  · exact .pure
  · rename_i hopen
    refine .except_bind (require_always _) (fun s => ?_) fun _ _ _ _ h => h.follows
    refine .except_bind (S := Quiet) trivial (fun plan => ?_) fun _ _ _ _ h => h.follows
    refine .except_bind grant_always (fun _ => ?_) fun p d d' q hq => ?_
    · refine .except_bind pay_always (fun won => ?_) fun _ _ _ _ h => h.bind
      cases won
      · exact .pure
      · refine .except_bind (require_always _) (fun s => ?_) fun _ _ _ _ h => h.follows
        exact .except_bind (requireInvoice_always _) (fun _ => .pure) fun _ _ _ _ h => h.follows
    · -- the top-up done, the next step is the payment
      refine ⟨fun _ _ _ _ hp => absurd hp (hq.1 _ _ _ _), hq.2.imp_right ?_⟩
      rintro ⟨_, rfl⟩
      unfold PaysNext
      rw [← hopen]
      exact ⟨_, _, rfl⟩

theorem program_always (req : Request) (invoiceId : String) (hreq : req.pays = some invoiceId) :
    (b.program req).run.Always (Follows invoiceId) := by
  cases req with
  | onPaid =>
    cases hreq
    exact .except_bind onPaid_always (fun _ => .pure) fun _ _ _ _ h => h.bind
  | onEvent event now ledgerNow =>
    refine .except_bind (S := Follows invoiceId) ?_ (fun _ => .pure) fun _ _ _ _ h => h.bind
    rw [Request.pays] at hreq
    split at hreq
    · rename_i hkind
      unfold onEvent
      cases hcharge : event.charge with
      | none => exact .pure
      | some =>
        rw [hcharge] at hreq
        cases hreq
        refine .except_bind (read_always _) (fun found => ?_) fun _ _ _ _ h => h.follows
        cases found with
        | none => exact .pure
        | some =>
          rw [hkind]
          exact .except_bind onPaid_always (fun _ => .pure) fun _ _ _ _ h => h.bind
    · cases hreq
  | _ => cases hreq

/-! ## What the ledger holds -/

structure PaidInto (b : Billing) (t : Ledger.Transfer) (i : Invoice) : Prop where
  id : i.id = t.reference
  kind : t.kind = .topUp
  plan : ∃ plan, b.plan i.planId = .ok plan ∧ t.amount = plan.creditsPerCycle

/-- Every transfer is the top-up of an invoice, and a paid invoice has its transfer. -/
structure Accounted (b : Billing) (d : Db) : Prop where
  invoice : ∀ t ∈ d.book.transfers, ∃ i ∈ d.invoices, PaidInto b t i
  granted : ∀ i ∈ d.invoices, i.status = .paid → ∀ plan, b.plan i.planId = .ok plan →
    0 < plan.creditsPerCycle → ∃ t ∈ d.book.transfers, t.reference = i.id

/-- Between `on_paid`'s look at the invoice and its transaction nobody voids the invoice or lets it expire: it is
    as it was read, or another payment has come first. -/
def PaysAsRead (_ : Request) : Point → Db → Prop
  | .pay invoiceId _ _ seen, d => ∀ i ∈ d.invoices, i.id = invoiceId → i.status = seen ∨ i.status = .paid
  | _, _ => True

instance (req : Request) (p : Point) (d : Db) : Decidable (PaysAsRead req p d) := by
  apply @Point.casesOn _ p <;> unfold PaysAsRead <;> infer_instance

theorem ledger_change_topUp {p : Ledger.Point} {d d' : Ledger.Book}
    (hc : Ledger.Change (.topUp unit owner amount reference expiresIn now) p d d') :
    d'.transfers = d.transfers ∨ ∃ t, d'.transfers = d.transfers ++ [t] ∧
      t.kind = .topUp ∧ t.reference = reference ∧ t.amount = amount := by
  cases hc with
  | unchanged | ensured => exact .inl rfl
  | toppedUp _ _ _ ht => exact .inr ⟨_, rfl, ht⟩
  | released hreq => cases hreq

variable {b : Billing} {req : Request} {p : Point} {d d' : Db}

theorem Accounted.updateInvoice {set : SetInvoice} (h : Accounted b d)
    (hpaid : ∀ i ∈ d.invoices, i.id = invoiceId → (set.apply i).status = .paid →
      ∀ plan, b.plan i.planId = .ok plan → 0 < plan.creditsPerCycle →
      ∃ t ∈ d.book.transfers, t.reference = i.id) :
    Accounted b (d.updateInvoice invoiceId fun i => set.apply i) where
  invoice t ht := by
    obtain ⟨i, hi, hinto⟩ := h.invoice t ht
    by_cases hid : i.id = invoiceId
    · refine ⟨_, mem_modify.mpr (.inr ⟨i, hi, hid, rfl⟩), ?_, hinto.kind, ?_⟩
      · rw [set.apply_id]
        exact hinto.id
      · rw [set.apply_planId]
        exact hinto.plan
    · exact ⟨i, mem_modify.mpr (.inl ⟨hi, hid⟩), hinto⟩
  granted := by
    refine forall_modify h.granted fun i hi hid hstatus plan hplan hcredits => ?_
    rw [set.apply_planId] at hplan
    rw [set.apply_id]
    exact hpaid i hi hid hstatus plan hplan hcredits

theorem Change.accounted (hc : Change b req p d d') (hsound : d.Sound) (h : Accounted b d) : Accounted b d' := by
  cases hc with
  | raised hnew hopen =>
    refine ⟨fun t ht => ?_, forall_concat h.granted fun hpaid => ?_⟩
    · obtain ⟨i, hi, hrest⟩ := h.invoice t ht
      exact ⟨i, mem_append_left _ hi, hrest⟩
    · rw [hopen] at hpaid
      cases hpaid
  | charged hset =>
    refine h.updateInvoice fun i hi _ hpaid => ?_
    rw [hset.status] at hpaid
    exact h.granted i hi hpaid
  | closed hp =>
    refine h.updateInvoice fun _ _ _ hpaid => ?_
    cases hp <;> cases hpaid
  | @paid _ i plan start finish now _ _ hi _ hplan hgranted =>
    have hupdated : Accounted b (d.updateInvoice i.id fun i =>
        (SetInvoice.paid now start finish).apply i) := by
      refine h.updateInvoice fun j hj hid _ plan' hplan' hcredits => ?_
      obtain rfl := eq_of_key hsound.invoiceIds hj hi hid
      rw [hplan] at hplan'
      cases hplan'
      exact hgranted hcredits
    exact ⟨hupdated.invoice, hupdated.granted⟩
  | @ledger _ _ book i _ plan _ _ hreq hi hplan _ _ _ hbook =>
    rcases ledger_change_topUp hbook with hsame | ⟨t, htransfers, hkind, href, hamount⟩
    · have hbook' : (d.withBook book).book.transfers = d.book.transfers := hsame
      refine ⟨?_, ?_⟩
      · rw [hbook']
        exact h.invoice
      · rw [hbook']
        exact h.granted
    · have hbook' : (d.withBook book).book.transfers = d.book.transfers ++ [t] := htransfers
      refine ⟨?_, fun j hj hpaid plan' hplan' hcredits' => ?_⟩
      · rw [hbook']
        exact forall_concat h.invoice ⟨i, hi, href.symm, hkind, plan, hplan, hamount⟩
      · obtain ⟨t', ht', href'⟩ := h.granted j hj hpaid plan' hplan' hcredits'
        rw [hbook']
        exact ⟨t', mem_append_left _ ht', href'⟩
  | _ => exact ⟨h.invoice, h.granted⟩

theorem Change.transfers (hc : Change b req p d d') : d'.book.transfers = d.book.transfers ∨
    ∃ t, d'.book.transfers = d.book.transfers ++ [t] ∧ req.pays = some t.reference := by
  cases hc with
  | ledger hreq _ _ _ _ _ hbook =>
    rcases ledger_change_topUp hbook with hsame | ⟨t, htransfers, -, href, -⟩
    · exact .inl hsame
    · exact .inr ⟨t, htransfers, href ▸ hreq⟩
  | _ => exact .inl rfl

/-! ## Runs -/

section

variable {cond : Request → Point → Db → Prop} {c c' : Config Request Point Db Write (Except Error Reply)}

def SettlingFor (c : Config Request Point Db Write (Except Error Reply)) (t : Ledger.Transfer) : Prop :=
  (∃ i ∈ c.db.invoices, i.id = t.reference ∧ i.status = .paid) ∨
    ∃ (j : Nat) (req : Request) (q : Prog Point Db Write (Except Error Reply)),
      c.calls[j]? = some (req, q) ∧ req.pays = some t.reference ∧ PaysNext t.reference q

def AsPaid (req : Request) (p : Point) (d d' : Db) (q : Prog Point Db Write (Except Error Reply)) : Prop :=
  ∀ invoiceId, req.pays = some invoiceId → Follows invoiceId p d d' q

theorem asPaid_of_reachable (hc : (b.system cond).Reachable empty c) : ∀ x ∈ c.calls, x.2.Always (AsPaid x.1) := by
  refine System.always_of_reachable (fun req => ?_) hc
  cases hreq : req.pays with
  | none => exact .of_forall (fun _ _ _ _ _ h => by rw [hreq] at h; cases h) _
  | some paidId =>
    refine (program_always req paidId hreq).mono fun p d d' q h invoiceId hid => ?_
    rw [hreq] at hid
    cases hid
    exact h

section

variable {i : Nat} {req : Request} {p : Point} {t : Ledger.Transfer}

theorem SettlingFor.advance (h : SettlingFor c t) (hcalls : ∀ x ∈ c.calls, x.2.Always (AsPaid x.1))
    (hadvance : (b.system cond).Advance i req p c c') (hstep : Change b req p c.db c'.db)
    (hcond : PaysAsRead req p c.db) (hsound : c.db.Sound) (haccounted : Accounted b c'.db)
    (ht : t ∈ c'.db.book.transfers) : SettlingFor c' t := by
  obtain ⟨⟨_, hq0, hnext⟩, _, _, hfollows, -⟩ := hadvance.always hcalls
  rcases h with ⟨x, hx, hid, hpaid⟩ | ⟨j, req', q', hj, hpays, sub, start, hpay⟩
  · obtain ⟨x', hx', hid', -, -, hclosed⟩ := (hstep.persists hsound).invoices x hx
    have hpaid' : x'.status = .paid := by
      rw [hclosed (by rw [hpaid]; exact nofun), hpaid]
    exact .inl ⟨x', hx', hid'.trans hid, hpaid'⟩
  · by_cases hij : i = j
    · -- the payment is this step, for an invoice that is as it was read, open, or paid already
      subst hij
      rw [hq0] at hj
      cases hj
      obtain rfl : p = .pay t.reference sub start .opened := Option.some.inj (hnext.symm.trans hpay)
      obtain ⟨x, hx, hinto⟩ := haccounted.invoice t ht
      rcases (hfollows _ hpays).closed _ _ _ _ rfl x hx hinto.id with hpaid | ⟨hx0, hne⟩
      · exact .inl ⟨x, hx, hinto.id, hpaid⟩
      · exact .inl ⟨x, hx, hinto.id, (hcond x hx0 hinto.id).resolve_left hne⟩
    · refine .inr ⟨j, req', q', ?_, hpays, sub, start, hpay⟩
      rw [hadvance.getElem?_of_ne hij]
      exact hj

theorem settlingFor_of_advance (h : ∀ t ∈ c.db.book.transfers, SettlingFor c t)
    (hcalls : ∀ x ∈ c.calls, x.2.Always (AsPaid x.1)) (hadvance : (b.system cond).Advance i req p c c')
    (hstep : Change b req p c.db c'.db) (hcond : PaysAsRead req p c.db) (hsound : c.db.Sound)
    (haccounted : Accounted b c'.db) : ∀ t ∈ c'.db.book.transfers, SettlingFor c' t := by
  obtain ⟨-, q, hq, hfollows, -⟩ := hadvance.always hcalls
  intro t ht
  have hold : t ∈ c.db.book.transfers → SettlingFor c' t := fun ht0 =>
    (h t ht0).advance hcalls hadvance hstep hcond hsound haccounted ht
  rcases hstep.transfers with hsame | ⟨t', htransfers, hpays⟩
  · exact hold (hsame ▸ ht)
  · rw [htransfers] at ht
    rcases mem_append.mp ht with ht | ht
    · exact hold ht
    · rw [mem_singleton.mp ht]
      rcases (hfollows _ hpays).granted with hsame | hpay
      · rw [htransfers] at hsame
        exact absurd hsame (by simp)
      · exact .inr ⟨i, req, q, hq, hpays, hpay⟩

end

theorem accounted_of_reachable (hc : (b.system PaysAsRead).Reachable empty c) : Accounted b c.db :=
  (system_safe b PaysAsRead).invariant (inv_empty b) (P := Accounted b)
    ⟨fun _ ht => absurd ht not_mem_nil, fun _ hi => absurd hi not_mem_nil⟩
    (fun _ _ _ _ _ _ hinv h _ hstep => hstep.accounted hinv.1 h) hc

theorem settling_of_reachable (hc : (b.system PaysAsRead).Reachable empty c) :
    ∀ t ∈ c.db.book.transfers, SettlingFor c t := by
  induction hc with
  | refl => exact nofun
  | @tail c c' hrun hstep ih =>
    have hok := (system_safe b PaysAsRead).reachable (inv_empty b) hrun
    have haccounted : Accounted b c'.db := accounted_of_reachable (hrun.tail hstep)
    cases hstep with
    | call =>
      intro t ht
      refine (ih t ht).imp_right ?_
      rintro ⟨j, req', q, hj, hrest⟩
      exact ⟨j, req', q, getElem?_concat hj _, hrest⟩
    | advance h =>
      exact settlingFor_of_advance ih (asPaid_of_reachable hrun) h (hok.advance h).2.2.2
        (hok.advance h).2.2.1 hok.inv.1 haccounted

/-- Whenever no payment is in progress, the ledger holds one top-up of its plan's credits for a paid invoice, and
    none for any other. -/
theorem credits_iff_paid (b : Billing) (hc : (b.system PaysAsRead).Reachable empty c)
    (hidle : ∀ x ∈ c.calls, x.1.pays ≠ none → ∃ r, x.2 = .ret r) {i : Invoice}
    (hi : i ∈ c.db.invoices) {plan : Plan} (hplan : b.plan i.planId = .ok plan)
    (hcredits : 0 < plan.creditsPerCycle) :
    (i.status = .paid → ∃ t, (c.db.book.transfers.filter fun t => t.reference = i.id) = [t] ∧
      t.kind = .topUp ∧ t.amount = plan.creditsPerCycle) ∧
    (i.status ≠ .paid → (c.db.book.transfers.filter fun t => t.reference = i.id) = []) := by
  have hsound := ((system_safe b PaysAsRead).reachable (inv_empty b) hc).inv.1
  have haccounted := accounted_of_reachable hc
  constructor
  · intro hpaid
    obtain ⟨t, ht, href⟩ := haccounted.granted i hi hpaid plan hplan hcredits
    obtain ⟨j, hj, hinto⟩ := haccounted.invoice t ht
    obtain rfl := eq_of_key hsound.invoiceIds hj hi (hinto.id.trans href)
    obtain ⟨_, hplan', hamount⟩ := hinto.plan
    rw [hplan] at hplan'
    cases hplan'
    refine ⟨t, ?_, hinto.kind, hamount⟩
    rw [← href]
    exact filter_key hsound.book.references ht
  · intro hne
    refine filter_eq_nil_iff.mpr fun t ht href => hne ?_
    have href := of_decide_eq_true href
    rcases settling_of_reachable hc t ht with ⟨j, hj, hid, hpaid⟩ | ⟨j, req, q, hj, hpays, _, _, hnext⟩
    · rw [← eq_of_key hsound.invoiceIds hj hi (hid.trans href)]
      exact hpaid
    · -- a call about to pay is in progress
      obtain ⟨r, hr⟩ := hidle _ (mem_of_getElem? hj) (by rw [hpays]; exact nofun)
      obtain rfl : q = .ret r := hr
      cases hnext

theorem credits_iff_paid_of_renewal : ∃ c, (twoPlans.system PaysAsRead).Reachable empty c ∧
      c.db.invoices.map (fun i => (i.id, i.planId, i.status)) =
        [("inv_1", "basic", .paid), ("inv_9", "basic", .opened)] ∧
      ∀ i ∈ c.db.invoices, (i.status = .paid → ∃ t, (c.db.book.transfers.filter fun t => t.reference = i.id) = [t] ∧
          t.kind = .topUp ∧ t.amount = 10) ∧
        (i.status ≠ .paid → (c.db.book.transfers.filter fun t => t.reference = i.id) = []) := by
  obtain ⟨c, hc, hv⟩ := (twoPlans.system PaysAsRead).play_reachable
    (subscribedAndPaid ++ .call (.tickAt noGateway 2592000) :: steps 2 4) empty
    (fun c => (c.db.invoices.map fun i => (i.id, i.planId, i.status),
      c.calls.all fun x => x.1.pays = none ∨ x.2.result.isSome))
    (v := ([("inv_1", "basic", .paid), ("inv_9", "basic", .opened)], true)) (by decide +kernel)
  obtain ⟨hinvoices, hreturned⟩ := Prod.mk.inj hv
  refine ⟨c, hc, hinvoices, fun i hi => ?_⟩
  have hplan : twoPlans.plan i.planId = .ok basicPlan := by
    have hmem : (i.id, i.planId, i.status) ∈ c.db.invoices.map fun i => (i.id, i.planId, i.status) :=
      mem_map_of_mem hi
    rw [hinvoices] at hmem
    have hplanId : i.planId = "basic" := by
      rcases mem_cons.mp hmem with h | h
      · exact (Prod.mk.inj (Prod.mk.inj h).2).1
      · exact (Prod.mk.inj (Prod.mk.inj (mem_singleton.mp h)).2).1
    rw [hplanId]
    rfl
  refine credits_iff_paid twoPlans hc (fun x hx hpays => ?_) hi hplan (by decide)
  have hx := all_eq_true.mp hreturned x hx
  obtain ⟨r, hr⟩ := Option.isSome_iff_exists.mp ((of_decide_eq_true hx).resolve_left hpays)
  exact ⟨r, Prog.eq_ret_of_result hr⟩

/-- The credits are in the ledger when Ana cancels; the payment finds its invoice void. -/
theorem credits_of_void : ∃ c, (twoPlans.system fun _ _ _ => True).Reachable empty c ∧
      c.calls.all (fun x => x.2.result.isSome) = true ∧
      c.db.invoices.map (fun i => (i.id, i.status,
        (c.db.book.transfers.filter fun t => t.kind = .topUp ∧ t.reference = i.id).map
          Ledger.Transfer.amount)) = [("inv_1", .void, [10])] := by
  obtain ⟨c, hc, hv⟩ := (twoPlans.system fun _ _ _ => True).play_reachable
    (.call (.subscribe noGateway ana "basic" .qris 50) :: steps 0 4 ++
      .call (.onPaid "inv_1" 100 100) :: steps 1 8 ++ .call (.cancelNow "sub_0" 100) :: steps 2 5 ++
      steps 1 1) empty
    (fun c => (c.calls.all fun x => x.2.result.isSome, c.db.invoices.map fun i => (i.id, i.status,
      (c.db.book.transfers.filter fun t => t.kind = .topUp ∧ t.reference = i.id).map Ledger.Transfer.amount)))
    (v := (true, [("inv_1", .void, [10])])) (by decide +kernel)
  exact ⟨c, hc, Prod.mk.inj hv⟩

/-- However calls interleave, an invoice keeps its plan and, once closed, its status. -/
theorem rows_persist (hc : (b.system cond).Reachable empty c) :
    ∀ c', (b.system cond).Run c c' → c'.db.Sound ∧ Persists c.db c'.db := by
  intro c' hrun
  have hok := (system_safe _ _).reachable (inv_empty b) hc
  exact ⟨((system_safe _ _).run hok hrun).inv.1, (system_safe _ _).rely hok hrun⟩

theorem rows_persist_paid : ∃ c, (twoPlans.system fun _ _ _ => True).Reachable empty c ∧
    c.db.invoices.map (·.status) = [.paid] ∧ c.db.Sound := by
  obtain ⟨c, hc, h⟩ := (twoPlans.system fun _ _ _ => True).play_reachable subscribedAndPaid empty
    (·.db.invoices.map (·.status)) (v := [.paid]) (by decide +kernel)
  exact ⟨c, hc, h, (rows_persist hc c .refl).1⟩

end

end Rustlavel.Billing
