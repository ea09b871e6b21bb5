/-
  Plans, and the three tables of billing with the ledger's book beside them.
-/

import Rustlavel.Ledger.Operations
import Rustlavel.Lib.Component

namespace Rustlavel.Billing

/-! ## Plans -/

structure Money where
  minor : Int
  currency : String
  deriving DecidableEq

inductive Cycle where
  | monthly
  | yearly
  | days (n : Nat)
  deriving DecidableEq

def Cycle.length : Cycle → Nat
  | monthly => 30 * 86400
  | yearly => 365 * 86400
  | days n => max n 1 * 86400

structure Plan where
  id : String
  name : String
  price : Money
  creditsPerCycle : Int
  cycle : Cycle
  grace : Nat
  deriving DecidableEq

end Billing

structure Billing where
  unit : String
  plans : List Billing.Plan
  lead : Nat := 7 * 86400
  remindBefore : List Nat := [3 * 86400, 86400]
  firstInvoiceTtl : Nat := 86400
  creditsExpire : Bool := true

namespace Billing

/-! ## Payment -/

inductive Bank where
  | bca | bni | bri | cimb | danamon | mandiri | permata | bnc
  deriving DecidableEq

inductive Wallet where
  | dana | ovo | shopeePay | linkAja | goPay
  deriving DecidableEq

inductive Retail where
  | alfamart | indomaret
  deriving DecidableEq

inductive Channel where
  | virtualAccount (bank : Bank)
  | qris
  | eWallet (wallet : Wallet)
  | retail (store : Retail)
  deriving DecidableEq

structure Instructions where
  accountNumber : Option String := none
  qrString : Option String := none
  url : Option String := none
  paymentCode : Option String := none
  deriving DecidableEq

/-- What billing asks the gateway for; `metadata` is its three texts. -/
structure ChargeRequest where
  reference : String
  amount : Money
  channel : Channel
  expiresIn : Nat
  customerName : String
  customerEmail : Option String
  customerPhone : Option String
  description : String
  metadata : String × String × String

structure Charge where
  id : String
  reference : String
  instructions : Instructions
  deriving DecidableEq

abbrev Gateway : Type := Nat → ChargeRequest → Option Charge

inductive EventKind where
  | chargePaid
  | chargeExpired
  | chargeFailed
  | transferCompleted
  | transferFailed
  | other (name : String)
  deriving DecidableEq

def EventKind.asStr : EventKind → String
  | chargePaid => "charge.paid"
  | chargeExpired => "charge.expired"
  | chargeFailed => "charge.failed"
  | transferCompleted => "transfer.completed"
  | transferFailed => "transfer.failed"
  | other name => name

structure WebhookEvent where
  kind : EventKind
  charge : Option Charge
  deriving DecidableEq

/-! ## Rows -/

inductive SubscriptionStatus where
  | pending | active | grace | suspended | cancelled
  deriving DecidableEq

def SubscriptionStatus.asStr : SubscriptionStatus → String
  | pending => "pending"
  | active => "active"
  | grace => "grace"
  | suspended => "suspended"
  | cancelled => "cancelled"

structure Subscriber where
  id : String
  name : String
  email : Option String
  phone : Option String
  deriving DecidableEq

structure Subscription where
  id : String
  subscriber : Subscriber
  planId : String
  nextPlanId : Option String
  status : SubscriptionStatus
  channel : Channel
  periodStart : Nat
  periodEnd : Nat
  cancelAtPeriodEnd : Bool
  createdAt : Nat
  updatedAt : Nat
  deriving DecidableEq

inductive InvoiceStatus where
  | opened | paid | void | expired
  deriving DecidableEq

def InvoiceStatus.asStr : InvoiceStatus → String
  | opened => "open"
  | paid => "paid"
  | void => "void"
  | expired => "expired"

structure Invoice where
  id : String
  subscriptionId : String
  customer : String
  planId : String
  number : Int
  amount : Money
  credits : Int
  periodStart : Nat
  periodEnd : Nat
  periodKey : String
  status : InvoiceStatus
  chargeId : Option String
  channel : Channel
  instructions : Instructions
  dueAt : Nat
  paidAt : Option Nat
  createdAt : Nat
  deriving DecidableEq

def closedKey (status : InvoiceStatus) (invoiceId : String) : String := status.asStr ++ ":" ++ invoiceId

inductive ReminderKind where
  | due (daysLeft : Nat)
  | overdue
  | suspended
  deriving DecidableEq

def ReminderKind.key : ReminderKind → String
  | due daysLeft => s!"due:{daysLeft}"
  | overdue => "overdue"
  | suspended => "suspended"

structure Reminded where
  invoiceId : String
  kind : String
  sentAt : Nat

/-! ## The tables -/

structure Db where
  subscriptions : List Subscription
  invoices : List Invoice
  reminders : List Reminded
  book : Ledger.Book

namespace Db

def empty : Db := { subscriptions := [], invoices := [], reminders := [], book := Ledger.Book.empty }

variable (d : Db)

@[simps] def updateSubscription (subscriptionId : String) (f : Subscription → Subscription) : Db :=
  { d with subscriptions := Rows.modify Subscription.id subscriptionId f d.subscriptions }

@[simps] def updateInvoice (invoiceId : String) (f : Invoice → Invoice) : Db :=
  { d with invoices := Rows.modify Invoice.id invoiceId f d.invoices }

@[simps] def addSubscription (s : Subscription) : Db := { d with subscriptions := d.subscriptions ++ [s] }

@[simps] def addInvoice (i : Invoice) : Db := { d with invoices := d.invoices ++ [i] }

@[simps] def addReminder (r : Reminded) : Db := { d with reminders := d.reminders ++ [r] }

@[simps] def withBook (book : Ledger.Book) : Db := { d with book := book }

end Db

/-! ## Writes -/

inductive SetSubscription where
  | plan (planId : String)
  | nextPlan (nextPlanId : Option String)
  | channel (channel : Channel)
  | status (status : SubscriptionStatus)
  | cancelAtPeriodEnd
  | cancelled
  | activated (planId : String) (periodStart periodEnd : Nat)

def SetSubscription.apply (now : Nat) (s : Subscription) : SetSubscription → Subscription
  | plan planId => { s with planId := planId, updatedAt := now }
  | nextPlan nextPlanId => { s with nextPlanId := nextPlanId, updatedAt := now }
  | channel c => { s with channel := c, updatedAt := now }
  | status st => { s with status := st, updatedAt := now }
  | cancelAtPeriodEnd => { s with cancelAtPeriodEnd := true, updatedAt := now }
  | cancelled => { s with status := .cancelled, cancelAtPeriodEnd := true, updatedAt := now }
  | activated planId periodStart periodEnd =>
    { s with
      status := .active, planId := planId, nextPlanId := none
      periodStart := periodStart, periodEnd := periodEnd, updatedAt := now }

inductive SetInvoice where
  | closed (status : InvoiceStatus)
  | paid (now periodStart periodEnd : Nat)
  | charge (charge : Charge)
  | noCharge
  | reissued (channel : Channel)

def SetInvoice.apply (i : Invoice) : SetInvoice → Invoice
  | closed st => { i with status := st, periodKey := closedKey st i.id }
  | paid now periodStart periodEnd =>
    { i with
      status := .paid, periodKey := closedKey .paid i.id, paidAt := some now
      periodStart := periodStart, periodEnd := periodEnd }
  | charge c => { i with chargeId := some c.id, instructions := c.instructions }
  | noCharge => { i with chargeId := none, instructions := {} }
  | reissued c => { i with chargeId := none, channel := c, instructions := {} }

inductive Write where
  | newSubscription (s : Subscription)
  | newInvoice (i : Invoice)
  | newReminder (r : Reminded)
  | subscription (id : String) (set : SetSubscription) (now : Nat)
  | invoice (id : String) (set : SetInvoice)
  | ledger (w : Ledger.Write)

def Write.apply : Write → Db → Db
  | newSubscription s, d => d.addSubscription s
  | newInvoice i, d => d.addInvoice i
  | newReminder r, d => d.addReminder r
  | subscription id set now, d => d.updateSubscription id fun s => set.apply now s
  | invoice id set, d => d.updateInvoice id fun i => set.apply i
  | ledger w, d => d.withBook (w.apply d.book)

instance : Transact.Store Db Write where
  apply := Write.apply

/-- Whether the unique indexes let a row in. -/
def Db.accepts (d : Db) : Write → Bool
  | .newSubscription s => d.subscriptions.all fun x => x.id ≠ s.id
  | .newInvoice i => d.invoices.all fun x => x.id ≠ i.id ∧
      ¬ (x.subscriptionId = i.subscriptionId ∧ x.periodKey = i.periodKey) ∧
      ¬ (x.subscriptionId = i.subscriptionId ∧ x.number = i.number)
  | .newReminder r => d.reminders.all fun x => ¬ (x.invoiceId = r.invoiceId ∧ x.kind = r.kind)
  | _ => true

def ledger : Transact.Component Db Write Ledger.Book Ledger.Write where
  get := Db.book
  set := fun book d => d.withBook book
  write := .ledger
  get_set := fun _ _ => rfl
  set_get := fun _ => rfl
  set_set := fun _ _ _ => rfl
  apply_write := fun _ _ => rfl

end Billing
end Rustlavel
