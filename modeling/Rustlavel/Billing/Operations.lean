/-
  The methods of billing, as the statements and transactions they send.
-/

import Rustlavel.Billing.Tables

namespace Rustlavel.Billing

open Rustlavel.Billing.Db

open Transact (Verdict)
open Transact.Tx (query tryUpdate tryInsert)
open Transact.Prog (transaction statement)
open Ledger (id)

/-- What a statement is for. A write that rests on an earlier SELECT of the same call says what that found
    (`seen`): the subscription of the customer, whether the period has an invoice, the status of the invoice. -/
inductive Point where
  | read
  | subscribe (customer : String) (seen : Option Subscription)
  | raise (subscriptionId planId : String) (periodStart : Nat) (seen : Bool)
  | gateway
  | charge (invoiceId : String)
  | void (invoiceId : String)
  | expire (invoiceId : String)
  | pay (invoiceId subscriptionId : String) (start : Nat) (seen : InvoiceStatus)
  | subscription (subscriptionId : String) (set : SetSubscription)
  | remind
  | ledger (p : Ledger.Point)

abbrev Tx (α : Type) : Type := ExceptT Error (Transact.Tx Db Write) α

abbrev Op (α : Type) : Type 1 := ExceptT Error (Transact.Prog Point Db Write) α

/-! ## Statements -/

namespace Db

def subscription (subscriptionId : String) (d : Db) : Option Subscription :=
  d.subscriptions.find? fun s => s.id = subscriptionId

def forCustomer (customer : String) (d : Db) : Option Subscription :=
  (d.subscriptions.filter fun s => s.subscriber.id = customer ∧ s.status ≠ .cancelled).getLast?

def invoice (invoiceId : String) (d : Db) : Option Invoice := d.invoices.find? fun i => i.id = invoiceId

def newest : List Invoice → Option Invoice
  | [] => none
  | i :: is =>
    match newest is with
    | some j => if i.number < j.number then some j else some i
    | none => some i

def openInvoices (subscriptionId : String) (d : Db) : List Invoice :=
  d.invoices.filter fun i => i.subscriptionId = subscriptionId ∧ i.status = .opened

def openInvoice (subscriptionId : String) (d : Db) : Option Invoice := newest (d.openInvoices subscriptionId)

def nextNumber (subscriptionId : String) (d : Db) : Int :=
  ((newest (d.invoices.filter fun i => i.subscriptionId = subscriptionId)).map Invoice.number).getD 0 + 1

def invoiced (subscriptionId : String) (periodStart : Nat) (d : Db) : Bool := d.invoices.any fun i =>
    i.subscriptionId = subscriptionId ∧ i.periodStart = periodStart ∧ (i.status = .opened ∨ i.status = .paid)

end Db

variable (invoiceId subscriptionId : String) (guard : Subscription → Bool) (set : SetSubscription) (now : Nat)

/-- `UPDATE billing_subscriptions … WHERE subscription_id = …`, with a further condition; whether it found the row. -/
def setSubscriptionIn : Tx Bool :=
  tryUpdate fun d =>
    if d.subscriptions.any fun s => s.id = subscriptionId ∧ guard s then
      some (.subscription subscriptionId set now)
    else none

def setInvoiceIn (guard : Invoice → Bool) (set : SetInvoice) : Tx Bool := tryUpdate fun d =>
    if d.invoices.any fun i => i.id = invoiceId ∧ guard i then some (.invoice invoiceId set) else none

/-- An `INSERT`, which a unique index may refuse. -/
def insert (row : Nat → Write) : Tx (Nat × Bool) :=
  tryInsert fun n d => if d.accepts (row n) then some (row n) else none

def read {α : Type} (f : Db → α) : Op α := statement .read (query f)

def setSubscription : Op Bool :=
  statement (.subscription subscriptionId set) (setSubscriptionIn subscriptionId guard set now)

def require : Op Subscription := do
  match ← read (subscription subscriptionId) with
  | some s => pure s
  | none => throw (.msg s!"no subscription `{subscriptionId}`")

def requireInvoice : Op Invoice := do
  match ← read (invoice invoiceId) with
  | some i => pure i
  | none => throw (.msg s!"no invoice `{invoiceId}`")

def moveStatus (source target : SubscriptionStatus) (now : Nat) : Op Bool :=
  setSubscription subscriptionId (fun s => s.status = source) (.status target) now

def setChannel (channel : Channel) (now : Nat) : Op Unit := do
  let _ ← setSubscription subscriptionId (fun _ => true) (.channel channel) now
  pure ()

def plan (b : Billing) (planId : String) : Except Error Plan :=
  match b.plans.find? fun p => p.id = planId with
  | some p => .ok p
  | none => .error (.msg (s!"no plan `{planId}` is configured; a subscription refers to it, " ++
      "so it cannot be removed while that is so"))

def requirePlan (b : Billing) (planId : String) : Op Plan := ExceptT.mk (pure (b.plan planId))

def Subscription.renewalPlanId (s : Subscription) : String := s.nextPlanId.getD s.planId

/-! ## Invoices -/

def raised (s : Subscription) (plan : Plan) (number : Int) (periodStart periodEnd dueAt now n : Nat) : Invoice where
  id := id "inv" n
  subscriptionId := s.id
  customer := s.subscriber.id
  planId := plan.id
  number := number
  amount := plan.price
  credits := plan.creditsPerCycle
  periodStart := periodStart
  periodEnd := periodEnd
  periodKey := toString periodStart
  status := .opened
  chargeId := none
  channel := s.channel
  instructions := {}
  dueAt := dueAt
  paidAt := none
  createdAt := now

def raise (s : Subscription) (plan : Plan) (number : Int) (periodStart periodEnd dueAt now : Nat) (seen : Bool) :
    Op (Option Invoice) := do
  let row := raised s plan number periodStart periodEnd dueAt now
  let (n, inserted) ← statement (.raise s.id plan.id periodStart seen) (insert fun n => .newInvoice (row n))
  if inserted then pure (some (row n)) else pure none

/-- What `attach_charge` asks the gateway for. -/
def chargeRequest (invoice : Invoice) (s : Subscription) (plan : Plan) (now : Nat) : ChargeRequest :=
  let name := plan.name
  let number := invoice.number
  { reference := invoice.id, amount := invoice.amount, channel := invoice.channel
    expiresIn := max (invoice.dueAt + plan.grace - now) 600
    customerName := s.subscriber.name, customerEmail := s.subscriber.email
    customerPhone := s.subscriber.phone
    description := s!"{name} — invoice #{number}", metadata := (s.id, invoice.id, plan.id) }

def attachCharge (gateway : Gateway) (invoice : Invoice) (s : Subscription) (plan : Plan) (now : Nat) :
    Op (Invoice × Bool) := do
  let (n, _) ← statement .gateway (tryInsert fun _ _ => none)
  match gateway n (chargeRequest invoice s plan now) with
  | none => pure (invoice, false)
  | some charge => do
    let stored ← statement (.charge invoice.id) (setInvoiceIn invoice.id
      (fun i => i.status = .opened ∧ i.chargeId = none) (.charge charge))
    if stored then
      pure ({ invoice with chargeId := some charge.id, instructions := charge.instructions }, true)
    else do
      -- another tick got its charge in first
      match ← read (Db.invoice invoice.id) with
      | some i => pure (i, false)
      | none => pure (invoice, false)

def chargeFor (gateway : Gateway) (invoice : Invoice) (s : Subscription) (plan : Plan) (now : Nat) : Op Invoice := do
  let (invoice, _) ← attachCharge gateway invoice s plan now
  pure invoice

variable (b : Billing) (gateway : Gateway)

def raiseRenewal (s : Subscription) (now : Nat) : Op (Option Invoice) := do
  let plan ← b.requirePlan s.renewalPlanId
  let already ← read (invoiced s.id s.periodEnd)
  if already then pure none
  else do
    let number ← read (nextNumber s.id)
    match ← raise s plan number s.periodEnd (s.periodEnd + plan.cycle.length) s.periodEnd now already with
    | none => pure none
    | some invoice => do
      let invoice ← chargeFor gateway invoice s plan now
      pure (some invoice)

def voidEach : List Invoice → Nat → Op Nat
  | [], voided => pure voided
  | i :: is, voided => do
    let won ← statement (.void i.id) (setInvoiceIn i.id (fun x => x.status = .opened) (.closed .void))
    voidEach is (if won then voided + 1 else voided)

def voidOpenInvoices (s : Subscription) : Op Nat := do
  let rows ← read (openInvoices s.id)
  voidEach rows 0

def expireInvoice : Op Unit := do
  match ← read (invoice invoiceId) with
  | none => pure ()
  | some _ => do
    let _ ← statement (.expire invoiceId) (setInvoiceIn invoiceId (fun i => i.status = .opened) (.closed .expired))
    pure ()

/-! ## Starting and changing -/

def subscribed (subscriber : Subscriber) (plan : Plan) (channel : Channel) (now n : Nat) : Subscription where
  id := id "sub" n
  subscriber := subscriber
  planId := plan.id
  nextPlanId := none
  status := .pending
  channel := channel
  periodStart := 0
  periodEnd := 0
  cancelAtPeriodEnd := false
  createdAt := now
  updatedAt := now

def subscribe (subscriber : Subscriber) (planId : String) (channel : Channel) (now : Nat) : Op Invoice := do
  let plan ← b.requirePlan planId
  let found ← read (forCustomer subscriber.id)
  match found with
  | some existing =>
    let customer := subscriber.id
    let existingId := existing.id
    let status := existing.status.asStr
    throw (.msg (s!"{customer} already has subscription `{existingId}` ({status}); " ++
      "change or cancel it rather than adding another"))
  | none => do
    let row := subscribed subscriber plan channel now
    let (n, inserted) ← statement (.subscribe subscriber.id found) (insert fun n => .newSubscription (row n))
    if inserted then do
      match ← raise (row n) plan 1 0 0 (now + b.firstInvoiceTtl) now false with
      | none => throw (.msg "the first invoice of a brand-new subscription already existed")
      | some invoice => chargeFor gateway invoice (row n) plan now
    else throw .duplicateKey

/-- `change_plan` of a pending subscription: the first invoice is raised again. -/
def changePending (s : Subscription) (plan : Plan) (now : Nat) : Op Unit := do
  let _ ← voidOpenInvoices s
  let _ ← setSubscription s.id (fun _ => true) (.plan plan.id) now
  let number ← read (nextNumber s.id)
  match ← raise s plan number 0 0 (now + b.firstInvoiceTtl) now false with
  | none => pure ()
  | some invoice => do
    let _ ← chargeFor gateway invoice s plan now
    pure ()

/-- `change_plan` of any other: a renewal on the table is raised again. -/
def changeNext (s : Subscription) (plan : Plan) (now : Nat) : Op Unit := do
  let next := if plan.id = s.planId then none else some plan.id
  let _ ← setSubscription s.id (fun _ => true) (.nextPlan next) now
  let voided ← voidOpenInvoices s
  if 0 < voided then do
    let refreshed ← require s.id
    let _ ← b.raiseRenewal gateway { refreshed with nextPlanId := next } now
    pure ()
  else pure ()

def changePlan (subscriptionId planId : String) (now : Nat) : Op Subscription := do
  let plan ← b.requirePlan planId
  let s ← require subscriptionId
  if s.status = .cancelled then throw (.msg s!"subscription `{subscriptionId}` is cancelled")
  else do
    if s.status = .pending then b.changePending gateway s plan now else b.changeNext gateway s plan now
    require subscriptionId

def cancel : Op Subscription := do
  let s ← require subscriptionId
  let _ ← voidOpenInvoices s
  let set := if s.status = .active ∨ s.status = .grace then .cancelAtPeriodEnd else .cancelled
  let _ ← setSubscription subscriptionId (fun _ => true) set now
  require subscriptionId

def cancelNow : Op Subscription := do
  let s ← require subscriptionId
  let _ ← voidOpenInvoices s
  let _ ← setSubscription subscriptionId (fun _ => true) .cancelled now
  require subscriptionId

def renew (subscriptionId : String) (channel : Channel) (now : Nat) : Op Invoice := do
  let s ← require subscriptionId
  if s.status ≠ .suspended then
    let status := s.status.asStr
    throw (.msg (s!"subscription `{subscriptionId}` is {status}; `renew` is for a suspended one. " ++
      "An active subscription's renewal is raised by `tick`, and a pending one has its first invoice"))
  else do
    match ← read (openInvoice subscriptionId) with
    | some invoice => pure invoice
    | none => do
      setChannel subscriptionId channel now
      let plan ← b.requirePlan s.renewalPlanId
      let number ← read (nextNumber subscriptionId)
      let s := { s with channel := channel }
      match ← raise s plan number 0 0 (now + b.firstInvoiceTtl) now false with
      | some invoice => chargeFor gateway invoice s plan now
      | none => do
        match ← read (openInvoice subscriptionId) with
        | some invoice => pure invoice
        | none => throw (.msg "the renewal was raised by another call and is not there")

def reissue (invoiceId : String) (channel : Channel) (now : Nat) : Op Invoice := do
  let invoice ← requireInvoice invoiceId
  if invoice.status ≠ .opened then
    let status := invoice.status.asStr
    throw (.msg s!"invoice `{invoiceId}` is {status}, not open")
  else do
    let s ← require invoice.subscriptionId
    let plan ← b.requirePlan invoice.planId
    setChannel s.id channel now
    let _ ← statement (.charge invoiceId) (setInvoiceIn invoiceId (fun _ => true) (.reissued channel))
    chargeFor gateway { invoice with channel := channel, chargeId := none, instructions := {} }
      { s with channel := channel } plan now

/-! ## Money arriving -/

inductive Paid where
  | extended (s : Subscription) (invoice : Invoice)
  | already
  | unexpected (invoice : Invoice)
  deriving DecidableEq

def startOf (invoice : Invoice) (s : Subscription) (now : Nat) : Nat :=
  if invoice.number = 1 ∨ invoice.periodStart = 0 ∨ s.status = .pending ∨ s.status = .suspended then now
  else invoice.periodStart

/-- The transaction of `on_paid`: `open → paid`, and the subscription extended. -/
def payIn (planId : String) (start finish now : Nat) : Tx (Verdict Bool) := do
  if ← setInvoiceIn invoiceId (fun i => i.status = .opened) (.paid now start finish) then do
    let _ ← setSubscriptionIn subscriptionId (fun _ => true) (.activated planId start finish) now
    pure (.commit true)
  else pure (.rollback false)

def grant (b : Billing) (invoice : Invoice) (s : Subscription) (plan : Plan) (finish now ledgerNow : Nat) : Op Unit :=
  if 0 < plan.creditsPerCycle then do
    let lifetime := if b.creditsExpire then some (max (finish - now) 1) else none
    let _ ← Transact.liftOp ledger Point.ledger
      (Ledger.topUp b.unit s.subscriber.id plan.creditsPerCycle invoice.id lifetime ledgerNow)
    pure ()
  else pure ()

def onPaid (b : Billing) (invoiceId : String) (now ledgerNow : Nat) : Op Paid := do
  let invoice ← requireInvoice invoiceId
  match invoice.status with
  | .paid => pure .already
  | .void | .expired => pure (.unexpected invoice)
  | .opened => do
    let s ← require invoice.subscriptionId
    let plan ← b.requirePlan invoice.planId
    let start := startOf invoice s now
    let finish := start + plan.cycle.length
    b.grant invoice s plan finish now ledgerNow
    if ← transaction (.pay invoiceId s.id start invoice.status) (payIn invoiceId s.id plan.id start finish now) then do
      let s ← require s.id
      let invoice ← requireInvoice invoiceId
      pure (.extended s invoice)
    else pure .already

def onChargeLost : Op Unit := do
  let invoice ← requireInvoice invoiceId
  if invoice.status ≠ .opened then pure ()
  else do
    let s ← require invoice.subscriptionId
    if s.status = .pending then do
      expireInvoice invoice.id
      let _ ← moveStatus s.id .pending .cancelled now
      pure ()
    else do
      let _ ← statement (.charge invoiceId) (setInvoiceIn invoiceId (fun i => i.status = .opened) .noCharge)
      pure ()

def onEvent (b : Billing) (event : WebhookEvent) (now ledgerNow : Nat) : Op (Option Paid) := do
  match event.charge with
  | none => pure none
  | some charge => do
    match ← read (invoice charge.reference) with
    | none => pure none
    | some _ => do
      match event.kind with
      | .chargePaid => do
        let paid ← b.onPaid charge.reference now ledgerNow
        pure (some paid)
      | .chargeExpired | .chargeFailed => do
        onChargeLost charge.reference now
        pure none
      | _ => pure none

end Rustlavel.Billing
