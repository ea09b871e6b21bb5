/-
  `tick_at`, in its six passes over rows it has read, and all calls together.
-/

import Rustlavel.Billing.Operations

namespace Rustlavel.Billing

open Transact.Prog (statement)

structure Reminder where
  kind : ReminderKind
  subscriber : Subscriber
  subscriptionId : String
  plan : Plan
  invoice : Invoice
  deriving DecidableEq

structure Tick where
  invoicesRaised : Nat := 0
  chargesCreated : Nat := 0
  movedToGrace : Nat := 0
  suspended : Nat := 0
  cancelled : Nat := 0
  reminders : List Reminder := []
  deriving DecidableEq

def remind (b : Billing) (tick : Tick) (kind : ReminderKind) (s : Subscription) (invoice : Invoice)
    (now : Nat) : Op Tick := do
  let (_, claimed) ← statement .remind (insert fun _ =>
    .newReminder { invoiceId := invoice.id, kind := kind.key, sentAt := now })
  if claimed then do
    let plan ← b.requirePlan invoice.planId
    let reminder : Reminder :=
      { kind := kind, subscriber := s.subscriber, subscriptionId := s.id, plan := plan, invoice := invoice }
    pure { tick with reminders := tick.reminders ++ [reminder] }
  else pure tick

/-! ## The passes -/

def raiseRenewals (b : Billing) (gateway : Gateway) (now : Nat) : List Subscription → Tick → Op Tick
  | [], tick => pure tick
  | s :: rows, tick => do
    let raised ← b.raiseRenewal gateway s now
    b.raiseRenewals gateway now rows
      (if raised.isSome then { tick with invoicesRaised := tick.invoicesRaised + 1 } else tick)

def retryCharges (b : Billing) (gateway : Gateway) (now : Nat) : List Invoice → Tick → Op Tick
  | [], tick => pure tick
  | i :: rows, tick => do
    match ← read (Db.subscription i.subscriptionId) with
    | none => b.retryCharges gateway now rows tick
    | some s => do
      match b.plan i.planId with
      | .error _ => b.retryCharges gateway now rows tick
      | .ok plan => do
        let (_, stored) ← attachCharge gateway i s plan now
        b.retryCharges gateway now rows
          (if stored then { tick with chargesCreated := tick.chargesCreated + 1 } else tick)

def endPeriods (b : Billing) (now : Nat) : List Subscription → Tick → Op Tick
  | [], tick => pure tick
  | s :: rows, tick => do
    let target := if s.cancelAtPeriodEnd then .cancelled else .grace
    if ← moveStatus s.id .active target now then
      if s.cancelAtPeriodEnd then
        b.endPeriods now rows { tick with cancelled := tick.cancelled + 1 }
      else do
        let tick := { tick with movedToGrace := tick.movedToGrace + 1 }
        match ← read (Db.openInvoice s.id) with
        | none => b.endPeriods now rows tick
        | some invoice => do
          let tick ← b.remind tick .overdue s invoice now
          b.endPeriods now rows tick
    else b.endPeriods now rows tick

def endGrace (b : Billing) (now : Nat) : List Subscription → Tick → Op Tick
  | [], tick => pure tick
  | s :: rows, tick => do
    let plan ← b.requirePlan s.planId
    if now < s.periodEnd + plan.grace then b.endGrace now rows tick
    else do
      let target := if s.cancelAtPeriodEnd then .cancelled else .suspended
      if ← moveStatus s.id .grace target now then do
        let invoice ← read (Db.openInvoice s.id)
        match invoice with
        | none => pure ()
        | some invoice => expireInvoice invoice.id
        if s.cancelAtPeriodEnd then
          b.endGrace now rows { tick with cancelled := tick.cancelled + 1 }
        else do
          let tick := { tick with suspended := tick.suspended + 1 }
          match invoice with
          | none => b.endGrace now rows tick
          | some invoice => do
            let tick ← b.remind tick .suspended s { invoice with status := .expired } now
            b.endGrace now rows tick
      else b.endGrace now rows tick

def closePending (now : Nat) : List Subscription → Tick → Op Tick
  | [], tick => pure tick
  | s :: rows, tick => do
    match ← read (Db.openInvoice s.id) with
    | none => do
      let moved ← moveStatus s.id .pending .cancelled now
      closePending now rows (if moved then { tick with cancelled := tick.cancelled + 1 } else tick)
    | some invoice =>
      if now < invoice.dueAt then closePending now rows tick
      else do
        if ← moveStatus s.id .pending .cancelled now then do
          expireInvoice invoice.id
          closePending now rows { tick with cancelled := tick.cancelled + 1 }
        else closePending now rows tick

def remindEach (b : Billing) (s : Subscription) (invoice : Invoice) (now : Nat) : List Nat → Tick → Op Tick
  | [], tick => pure tick
  | before :: rest, tick => do
    if invoice.dueAt - now ≤ before then do
      let tick ← b.remind tick (.due (before / 86400)) s invoice now
      b.remindEach s invoice now rest tick
    else b.remindEach s invoice now rest tick

def remindDue (b : Billing) (now : Nat) : List Invoice → Tick → Op Tick
  | [], tick => pure tick
  | i :: rows, tick => do
    match ← read (Db.subscription i.subscriptionId) with
    | none => b.remindDue now rows tick
    | some s =>
      if s.status ≠ .active then b.remindDue now rows tick
      else do
        let tick ← b.remindEach s i now b.remindBefore tick
        b.remindDue now rows tick

def tickAt (b : Billing) (gateway : Gateway) (now : Nat) : Op Tick := do
  let rows ← read fun d => d.subscriptions.filter fun s =>
    s.status = .active ∧ ¬ s.cancelAtPeriodEnd ∧ s.periodEnd ≤ now + b.lead
  let tick ← b.raiseRenewals gateway now rows {}
  let rows ← read fun d => d.invoices.filter fun i => i.status = .opened ∧ i.chargeId = none
  let tick ← b.retryCharges gateway now rows tick
  let rows ← read fun d => d.subscriptions.filter fun s => s.status = .active ∧ s.periodEnd ≤ now
  let tick ← b.endPeriods now rows tick
  let rows ← read fun d => d.subscriptions.filter fun s => s.status = .grace
  let tick ← b.endGrace now rows tick
  let rows ← read fun d => d.subscriptions.filter fun s => s.status = .pending
  let tick ← closePending now rows tick
  let rows ← read fun d => d.invoices.filter fun i => i.status = .opened ∧ 1 < i.number ∧ now < i.dueAt
  b.remindDue now rows tick

/-! ## Requests -/

inductive Request where
  | subscribe (gateway : Gateway) (subscriber : Subscriber) (planId : String) (channel : Channel) (now : Nat)
  | changePlan (gateway : Gateway) (subscriptionId planId : String) (now : Nat)
  | cancel (subscriptionId : String) (now : Nat)
  | cancelNow (subscriptionId : String) (now : Nat)
  | renew (gateway : Gateway) (subscriptionId : String) (channel : Channel) (now : Nat)
  | reissue (gateway : Gateway) (invoiceId : String) (channel : Channel) (now : Nat)
  | onPaid (invoiceId : String) (now ledgerNow : Nat)
  | onChargeLost (invoiceId : String) (now : Nat)
  | onEvent (event : WebhookEvent) (now ledgerNow : Nat)
  | tickAt (gateway : Gateway) (now : Nat)

inductive Reply where
  | subscription (s : Subscription)
  | invoice (invoice : Invoice)
  | paid (paid : Paid)
  | event (paid : Option Paid)
  | tick (tick : Tick)
  | done
  deriving DecidableEq

def program (b : Billing) : Request → Op Reply
  | .subscribe gateway subscriber planId channel now => do
    let invoice ← b.subscribe gateway subscriber planId channel now
    pure (.invoice invoice)
  | .changePlan gateway subscriptionId planId now => do
    let s ← b.changePlan gateway subscriptionId planId now
    pure (.subscription s)
  | .cancel subscriptionId now => do
    let s ← cancel subscriptionId now
    pure (.subscription s)
  | .cancelNow subscriptionId now => do
    let s ← cancelNow subscriptionId now
    pure (.subscription s)
  | .renew gateway subscriptionId channel now => do
    let invoice ← b.renew gateway subscriptionId channel now
    pure (.invoice invoice)
  | .reissue gateway invoiceId channel now => do
    let invoice ← b.reissue gateway invoiceId channel now
    pure (.invoice invoice)
  | .onPaid invoiceId now ledgerNow => do
    let paid ← b.onPaid invoiceId now ledgerNow
    pure (.paid paid)
  | .onChargeLost invoiceId now => do
    onChargeLost invoiceId now
    pure .done
  | .onEvent event now ledgerNow => do
    let paid ← b.onEvent event now ledgerNow
    pure (.event paid)
  | .tickAt gateway now => do
    let tick ← b.tickAt gateway now
    pure (.tick tick)

/-- The database shared by any number of calls, in every order of their statements. -/
def system (b : Billing) (cond : Request → Point → Db → Prop) :
    Transact.System Request Point Db Write (Except Error Reply) where
  program := fun req => (b.program req).run
  allowed := fun _ => True
  cond := cond

variable {b : Billing} {cond : Request → Point → Db → Prop}

instance : DecidablePred (b.system cond).allowed := fun _ => .isTrue trivial

instance [h : ∀ req p d, Decidable (cond req p d)] (req : Request) (p : Point) (d : Db) :
    Decidable ((b.system cond).cond req p d) := h req p d

end Rustlavel.Billing
