/-
  What one transaction of billing can do to its tables.
-/

import Rustlavel.Billing.Schedule
import Rustlavel.Ledger.Idempotency

namespace Rustlavel.Billing

open List Rows String

/-! ## Changes -/

def Request.pays : Request → Option String
  | .onPaid invoiceId _ _ => some invoiceId
  | .onEvent event _ _ => if event.kind = .chargePaid then event.charge.map Charge.reference else none
  | _ => none

/-- What is set on a subscription outside a payment: a status only on a row that is not cancelled. -/
def SetSubscription.Permitted (s : Subscription) : SetSubscription → Prop
  | status _ => s.status ≠ .cancelled
  | activated .. => False
  | _ => True

def SetInvoice.KeepsStatus : SetInvoice → Prop
  | closed _ => False
  | paid .. => False
  | _ => True

inductive Closes (invoiceId : String) : Point → InvoiceStatus → Prop where
  | void : Closes invoiceId (.void invoiceId) .void
  | expire : Closes invoiceId (.expire invoiceId) .expired

inductive Change (b : Billing) : Request → Point → Db → Db → Prop where
  | unchanged (req : Request) (p : Point) (d : Db) : Change b req p d d
  | subscribed {req : Request} {d : Db} {s : Subscription}
      (hnew : d.accepts (.newSubscription s) = true) (hpending : s.status = .pending) :
      Change b req (.subscribe s.subscriber.id none) d (d.addSubscription s)
  | raised {req : Request} {d : Db} {i : Invoice} {seen : Bool}
      (hnew : d.accepts (.newInvoice i) = true) (hopen : i.status = .opened)
      (hkey : i.periodKey = toString i.periodStart) (hseen : 0 < i.periodStart → seen = false) :
      Change b req (.raise i.subscriptionId i.planId i.periodStart seen) d (d.addInvoice i)
  | charged {req : Request} {d : Db} {invoiceId : String} {set : SetInvoice} (hset : set.KeepsStatus) :
      Change b req (.charge invoiceId) d (d.updateInvoice invoiceId fun i => set.apply i)
  | closed {req : Request} {p : Point} {d : Db} {i : Invoice} {status : InvoiceStatus}
      (hp : Closes i.id p status) (hi : i ∈ d.invoices) (hopen : i.status = .opened) :
      Change b req p d (d.updateInvoice i.id fun i => (SetInvoice.closed status).apply i)
  | paid {req : Request} {d : Db} {i : Invoice} {plan : Plan} {start finish now : Nat} {seen : InvoiceStatus}
      (hreq : req.pays = some i.id) (hi : i ∈ d.invoices) (hopen : i.status = .opened)
      (hplan : b.plan i.planId = .ok plan)
      (hgranted : 0 < plan.creditsPerCycle → ∃ t ∈ d.book.transfers, t.reference = i.id) :
      Change b req (.pay i.id i.subscriptionId start seen) d
        ((d.updateInvoice i.id fun i => (SetInvoice.paid now start finish).apply i).updateSubscription
          i.subscriptionId fun s => (SetSubscription.activated plan.id start finish).apply now s)
  | set {req : Request} {d : Db} {s : Subscription} {set : SetSubscription} {now : Nat}
      (hs : s ∈ d.subscriptions) (hset : set.Permitted s) :
      Change b req (.subscription s.id set) d (d.updateSubscription s.id fun s => set.apply now s)
  | reminded {req : Request} {d : Db} {r : Reminded} : Change b req .remind d (d.addReminder r)
  | ledger {req : Request} {p : Ledger.Point} {d : Db} {book : Ledger.Book} {i : Invoice}
      {s : Subscription} {plan : Plan} {lifetime : Option Nat} {now : Nat}
      (hreq : req.pays = some i.id) (hi : i ∈ d.invoices) (hplan : b.plan i.planId = .ok plan)
      (hcredits : 0 < plan.creditsPerCycle) (hs : s ∈ d.subscriptions)
      (hsubscription : s.id = i.subscriptionId)
      (hbook : Ledger.Change (.topUp b.unit s.subscriber.id plan.creditsPerCycle i.id lifetime now) p d.book book) :
      Change b req (.ledger p) d (d.withBook book)

/-! ## Period keys -/

theorem closedKey_inj {status status' : InvoiceStatus} {x y : String}
    (h : closedKey status x = closedKey status' y) : x = y := by
  have hlist := congrArg toList h
  simp only [closedKey, toList_append] at hlist
  cases status <;> cases status' <;>
    simp [InvoiceStatus.asStr, toList_inj] at hlist <;> exact hlist

theorem closedKey_ne_toString (status : InvoiceStatus) (x : String) (n : Nat) : closedKey status x ≠ toString n := by
  intro h
  have hmem : ':' ∈ (closedKey status x).toList := by
    simp [closedKey, toList_append]
  rw [h] at hmem
  have hrepr : (toString n).toList = Nat.toDigits 10 n := Nat.toList_repr
  rw [hrepr] at hmem
  exact absurd (Nat.isDigit_of_mem_toDigits (by decide) (by decide) hmem) (by decide)

/-! ## What the rows keep -/

structure Db.Sound (d : Db) : Prop where
  subscriptionIds : (d.subscriptions.map Subscription.id).Nodup
  invoiceIds : (d.invoices.map Invoice.id).Nodup
  keys : (d.invoices.map fun i => (i.subscriptionId, i.periodKey)).Nodup
  numbers : (d.invoices.map fun i => (i.subscriptionId, i.number)).Nodup
  openKey : ∀ i ∈ d.invoices, i.status = .opened → i.periodKey = toString i.periodStart
  closedKey : ∀ i ∈ d.invoices, i.status ≠ .opened → i.periodKey = closedKey i.status i.id
  book : d.book.Sound

theorem Db.sound_empty : Db.empty.Sound where
  subscriptionIds := nodup_nil
  invoiceIds := nodup_nil
  keys := nodup_nil
  numbers := nodup_nil
  openKey := fun _ hi => absurd hi not_mem_nil
  closedKey := fun _ hi => absurd hi not_mem_nil
  book := Ledger.Book.sound_empty

variable {set : SetInvoice}

namespace Db.Sound

variable {d : Db}

theorem updateSubscription (h : d.Sound) (subscriptionId : String) {f : Subscription → Subscription}
    (hf : ∀ s, (f s).id = s.id) : (d.updateSubscription subscriptionId f).Sound :=
  { h with subscriptionIds := nodup_modify h.subscriptionIds hf }

theorem close (h : d.Sound) (invoiceId : String) {f : Invoice → Invoice} {status : InvoiceStatus}
    (hid : ∀ i, (f i).id = i.id) (hsubscription : ∀ i, (f i).subscriptionId = i.subscriptionId)
    (hnumber : ∀ i, (f i).number = i.number) (hstatus : ∀ i, (f i).status = status)
    (hne : status ≠ .opened) (hkey : ∀ i, (f i).periodKey = Billing.closedKey status i.id) :
    (d.updateInvoice invoiceId f).Sound where
  __ := h
  invoiceIds := nodup_modify h.invoiceIds hid
  keys := by
    refine nodup_modify_of_ne h.invoiceIds h.keys fun i hi j hj hii hji heq => ?_
    -- the other row has the key of its period, or one with its own id in it
    have hkeys : Billing.closedKey status i.id = j.periodKey := (hkey i).symm.trans (Prod.mk.inj heq).2
    by_cases hopen : j.status = .opened
    · rw [h.openKey j hj hopen] at hkeys
      exact closedKey_ne_toString _ _ _ hkeys
    · rw [h.closedKey j hj hopen] at hkeys
      exact hji ((closedKey_inj hkeys).symm.trans hii)
  numbers := by
    refine nodup_modify h.numbers fun i => ?_
    rw [hsubscription, hnumber]
  openKey := by
    refine forall_modify h.openKey fun i _ _ hopen => ?_
    rw [hstatus] at hopen
    exact absurd hopen hne
  closedKey := by
    refine forall_modify h.closedKey fun i _ _ _ => ?_
    rw [hkey, hstatus, hid]

theorem setCharge (h : d.Sound) (invoiceId : String) (hset : set.KeepsStatus) :
    (d.updateInvoice invoiceId fun i => set.apply i).Sound := by
  have hsame : ∀ i, (set.apply i).id = i.id ∧ (set.apply i).subscriptionId = i.subscriptionId ∧
      (set.apply i).number = i.number ∧ (set.apply i).periodKey = i.periodKey ∧
      (set.apply i).status = i.status ∧ (set.apply i).periodStart = i.periodStart := by
    intro i
    cases set <;> first | exact ⟨rfl, rfl, rfl, rfl, rfl, rfl⟩ | cases hset
  refine { h with invoiceIds := ?_, keys := ?_, numbers := ?_, openKey := ?_, closedKey := ?_ }
  · exact nodup_modify h.invoiceIds fun i => (hsame i).1
  · exact nodup_modify h.keys fun i => by rw [(hsame i).2.1, (hsame i).2.2.2.1]
  · exact nodup_modify h.numbers fun i => by rw [(hsame i).2.1, (hsame i).2.2.1]
  · refine forall_modify h.openKey fun i hi _ hopen => ?_
    obtain ⟨-, -, -, hkey, hstatus, hstart⟩ := hsame i
    rw [hkey, hstart]
    exact h.openKey i hi (hstatus ▸ hopen)
  · refine forall_modify h.closedKey fun i hi _ hne => ?_
    obtain ⟨hid, -, -, hkey, hstatus, -⟩ := hsame i
    rw [hkey, hstatus, hid]
    exact h.closedKey i hi (hstatus ▸ hne)

theorem addInvoice (h : d.Sound) {i : Invoice} (hnew : d.accepts (.newInvoice i) = true)
    (hopen : i.status = .opened) (hkey : i.periodKey = toString i.periodStart) : (d.addInvoice i).Sound := by
  simp only [Db.accepts, all_eq_true, decide_eq_true_eq] at hnew
  exact { h with
      invoiceIds := nodup_concat h.invoiceIds fun x hx => (hnew x hx).1
      keys := nodup_concat h.keys fun x hx heq => (hnew x hx).2.1 (Prod.mk.inj heq)
      numbers := nodup_concat h.numbers fun x hx heq => (hnew x hx).2.2 (Prod.mk.inj heq)
      openKey := forall_concat h.openKey fun _ => hkey
      closedKey := forall_concat h.closedKey fun hne => absurd hopen hne }

theorem addSubscription (h : d.Sound) {s : Subscription}
    (hnew : d.accepts (.newSubscription s) = true) : (d.addSubscription s).Sound := by
  simp only [Db.accepts, all_eq_true, decide_eq_true_eq] at hnew
  exact { h with subscriptionIds := nodup_concat h.subscriptionIds hnew }

end Db.Sound

@[simp] theorem SetSubscription.apply_id (set : SetSubscription) (now : Nat) (s : Subscription) :
    (set.apply now s).id = s.id := by
  cases set <;> rfl

@[simp] theorem SetSubscription.apply_subscriber (set : SetSubscription) (now : Nat)
    (s : Subscription) : (set.apply now s).subscriber = s.subscriber := by
  cases set <;> rfl

@[simp] theorem SetInvoice.apply_id (set : SetInvoice) (i : Invoice) : (set.apply i).id = i.id := by
  cases set <;> rfl

@[simp] theorem SetInvoice.apply_subscriptionId (set : SetInvoice) (i : Invoice) :
    (set.apply i).subscriptionId = i.subscriptionId := by
  cases set <;> rfl

@[simp] theorem SetInvoice.apply_planId (set : SetInvoice) (i : Invoice) : (set.apply i).planId = i.planId := by
  cases set <;> rfl

variable {b : Billing} {req : Request} {p : Point} {d d' : Db}

theorem Closes.ne_opened {invoiceId : String} {status : InvoiceStatus} (h : Closes invoiceId p status) :
    status ≠ .opened := by
  cases h <;> decide

theorem Change.sound (hc : Change b req p d d') (h : d.Sound) : d'.Sound := by
  cases hc with
  | unchanged => exact h
  | subscribed hnew => exact h.addSubscription hnew
  | raised hnew hopen hkey => exact h.addInvoice hnew hopen hkey
  | charged hset => exact h.setCharge _ hset
  | closed hp =>
    exact h.close _ (fun _ => rfl) (fun _ => rfl) (fun _ => rfl) (fun _ => rfl) hp.ne_opened fun _ => rfl
  | paid =>
    have hne : InvoiceStatus.paid ≠ .opened := by decide
    refine Db.Sound.updateSubscription ?_ _ (SetSubscription.apply_id _ _)
    exact h.close _ (fun _ => rfl) (fun _ => rfl) (fun _ => rfl) (fun _ => rfl) hne fun _ => rfl
  | set => exact h.updateSubscription _ (SetSubscription.apply_id _ _)
  | reminded => exact { h with }
  | ledger _ _ _ _ _ _ hbook => exact { h with book := hbook.sound h.book }

/-! ## What becomes of a row -/

structure Persists (d d' : Db) : Prop where
  subscriptions : ∀ s ∈ d.subscriptions, ∃ s' ∈ d'.subscriptions, s'.id = s.id ∧ s'.subscriber = s.subscriber
  invoices : ∀ i ∈ d.invoices, ∃ i' ∈ d'.invoices, i'.id = i.id ∧
    i'.subscriptionId = i.subscriptionId ∧ i'.planId = i.planId ∧
    (i.status ≠ .opened → i'.status = i.status)
  book : Ledger.Persists d.book d'.book

namespace Persists

protected theorem refl (d : Db) : Persists d d where
  subscriptions s hs := ⟨s, hs, rfl, rfl⟩
  invoices i hi := ⟨i, hi, rfl, rfl, rfl, fun _ => rfl⟩
  book := .refl d.book

protected theorem trans {d1 d2 : Db} (h1 : Persists d d1) (h2 : Persists d1 d2) : Persists d d2 where
  subscriptions s hs := by
    obtain ⟨s1, hs1, hid1, hsubscriber1⟩ := h1.subscriptions s hs
    obtain ⟨s2, hs2, hid2, hsubscriber2⟩ := h2.subscriptions s1 hs1
    exact ⟨s2, hs2, hid2.trans hid1, hsubscriber2.trans hsubscriber1⟩
  invoices i hi := by
    obtain ⟨i1, hi1, hid1, hsub1, hplan1, hclosed1⟩ := h1.invoices i hi
    obtain ⟨i2, hi2, hid2, hsub2, hplan2, hclosed2⟩ := h2.invoices i1 hi1
    refine ⟨i2, hi2, hid2.trans hid1, hsub2.trans hsub1, hplan2.trans hplan1, fun hne => ?_⟩
    have heq := hclosed1 hne
    exact (hclosed2 (heq ▸ hne)).trans heq
  book := h1.book.trans h2.book

theorem updateSubscription (d : Db) (subscriptionId : String) (set : SetSubscription) (now : Nat) :
    Persists d (d.updateSubscription subscriptionId fun s => set.apply now s) := by
  refine { Persists.refl d with subscriptions := fun s hs => ?_ }
  by_cases hid : s.id = subscriptionId
  · exact ⟨_, mem_modify.mpr (.inr ⟨s, hs, hid, rfl⟩), set.apply_id now s, set.apply_subscriber now s⟩
  · exact ⟨s, mem_modify.mpr (.inl ⟨hs, hid⟩), rfl, rfl⟩

theorem updateInvoice (d : Db) (invoiceId : String) (set : SetInvoice)
    (hset : ∀ i ∈ d.invoices, i.id = invoiceId → i.status ≠ .opened → (set.apply i).status = i.status) :
    Persists d (d.updateInvoice invoiceId fun i => set.apply i) := by
  refine { Persists.refl d with invoices := fun i hi => ?_ }
  by_cases hid : i.id = invoiceId
  · exact ⟨_, mem_modify.mpr (.inr ⟨i, hi, hid, rfl⟩), set.apply_id i, set.apply_subscriptionId i,
      set.apply_planId i, hset i hi hid⟩
  · exact ⟨i, mem_modify.mpr (.inl ⟨hi, hid⟩), rfl, rfl, rfl, fun _ => rfl⟩

end Persists

theorem SetInvoice.KeepsStatus.status (h : set.KeepsStatus) (i : Invoice) : (set.apply i).status = i.status := by
  cases set <;> first | rfl | cases h

theorem Change.persists (hc : Change b req p d d') (h : d.Sound) : Persists d d' := by
  -- the compare-and-set of an invoice writes the row that was found open
  have hopened : ∀ {i : Invoice}, i ∈ d.invoices → i.status = .opened → ∀ {set : SetInvoice},
      ∀ j ∈ d.invoices, j.id = i.id → j.status ≠ .opened → (set.apply j).status = j.status := by
    intro i hi hopen set j hj hid hne
    rw [eq_of_key h.invoiceIds hj hi hid] at hne
    exact absurd hopen hne
  cases hc with
  | unchanged => exact .refl d
  | subscribed =>
    exact { Persists.refl d with
      subscriptions := fun s hs => ⟨s, mem_append_left _ hs, rfl, rfl⟩ }
  | raised =>
    exact { Persists.refl d with
      invoices := fun i hi => ⟨i, mem_append_left _ hi, rfl, rfl, rfl, fun _ => rfl⟩ }
  | charged hset => exact .updateInvoice d _ _ fun i _ _ _ => hset.status i
  | closed _ hi hopen => exact .updateInvoice d _ _ (hopened hi hopen)
  | paid _ hi hopen =>
    exact (Persists.updateInvoice d _ _ (hopened hi hopen)).trans (.updateSubscription _ _ _ _)
  | set => exact .updateSubscription d _ _ _
  | reminded => exact { Persists.refl d with }
  | ledger _ _ _ _ _ _ hbook => exact { Persists.refl d with book := hbook.persists h.book }

end Rustlavel.Billing
