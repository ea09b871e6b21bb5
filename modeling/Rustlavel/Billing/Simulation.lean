/-
  The methods of billing take no steps but `Change`s.
-/

import Rustlavel.Billing.Changes

namespace Rustlavel.Billing

open Transact Transact.Tx List
open Transact.Prog (SafeOk)

/-- What every step of an operation keeps, and what the others may do between two of its steps: the tables stay
    sound and the ledger's ids fresh, and each change is one of `Change`. -/
def contract (b : Billing) : Contract Request Point Db where
  inv n d := d.Sound ∧ d.book.Fresh n
  step := Change b
  rely := Persists
  inv_mono := fun hle ⟨hsound, hfresh⟩ => ⟨hsound, fun t ht =>
    let ⟨m, hm, hid⟩ := hfresh t ht
    ⟨m, lt_of_lt_of_le hm hle, hid⟩⟩
  step_refl := .unchanged
  rely_refl := .refl
  rely_trans := .trans
  rely_of_step := fun hinv hstep => hstep.persists hinv.1

variable {b : Billing} {cond : Request → Point → Db → Prop} {req : Request} {n : Nat} {d d' : Db} {α : Type}

/-- Wherever it is called, the operation keeps its promises. -/
def Safe (b : Billing) (cond : Request → Point → Db → Prop) (req : Request) {α : Type} (x : Op α) : Prop :=
  ∀ d, SafeOk (contract b) cond req (fun _ _ => True) x d

theorem safe_pure {a : α} : Safe b cond req (pure a) := fun _ => .pure fun _ _ _ _ => trivial

theorem Safe.throw {e : Error} : Safe b cond req (throw e : Op α) := fun _ => SafeOk.throw

theorem Safe.bind {α β : Type} {x : Op α} {f : α → Op β} (hx : Safe b cond req x) (hf : ∀ a, Safe b cond req (f a)) :
    Safe b cond req (x >>= f) := fun d => SafeOk.bind (hx d) fun a d' _ => hf a d'

/-! ## Statements -/

variable {subscriptionId invoiceId planId : String} {guard : Subscription → Bool} {set : SetSubscription}
  {now n' ledgerNow finish : Nat} {Q : Bool → Nat → Db → Prop} {row : Nat → Write} {p : Point}
  {s : Subscription} {channel : Channel} {plan : Plan} {invoice : Invoice} {gateway : Gateway}
  {lifetime : Option Nat}

theorem tryUpdate_ends {R : Type} {rows : Db → List R} {key : R → Prop} {guard : R → Bool} {w : Write}
    [DecidablePred key]
    (htrue : ∀ r ∈ rows d, key r → guard r → Q true n (w.apply d))
    (hfalse : (∀ r ∈ rows d, key r → ¬ guard r) → Q false n d) :
    Ends (tryUpdate fun d => if (rows d).any fun r => key r ∧ guard r then some w else none : Tx Bool) n d Q := by
  refine .tryUpdate (fun w hw => ?_) fun hw => ?_
  · split at hw
    · cases hw
      rename_i hany
      obtain ⟨r, hr, hguard⟩ := any_eq_true.mp hany
      obtain ⟨hkey, hg⟩ := of_decide_eq_true hguard
      exact htrue r hr hkey hg
    · cases hw
  · split at hw
    · cases hw
    · rename_i hany
      refine hfalse fun r hr hkey hg => hany (any_eq_true.mpr ⟨r, hr, ?_⟩)
      exact decide_eq_true ⟨hkey, hg⟩

theorem setSubscriptionIn_ends (htrue : ∀ s ∈ d.subscriptions, s.id = subscriptionId → guard s →
      Q true n (d.updateSubscription subscriptionId fun s => set.apply now s))
    (hfalse : (∀ s ∈ d.subscriptions, s.id = subscriptionId → ¬ guard s) → Q false n d) :
    Ends (setSubscriptionIn subscriptionId guard set now) n d Q := tryUpdate_ends htrue hfalse

theorem setInvoiceIn_ends {guard : Invoice → Bool} {set : SetInvoice}
    (htrue : ∀ i ∈ d.invoices, i.id = invoiceId → guard i → Q true n (d.updateInvoice invoiceId fun i => set.apply i))
    (hfalse : (∀ i ∈ d.invoices, i.id = invoiceId → ¬ guard i) → Q false n d) :
    Ends (setInvoiceIn invoiceId guard set) n d Q := tryUpdate_ends htrue hfalse

theorem insert_ends {Q : Nat × Bool → Nat → Db → Prop}
    (htrue : d.accepts (row n) = true → Q (n, true) (n + 1) ((row n).apply d))
    (hfalse : Q (n, false) (n + 1) d) : Ends (insert row) n d Q := by
  refine .tryInsert (fun w hw => ?_) fun _ => hfalse
  split at hw
  · cases hw
    exact htrue ‹_›
  · cases hw

theorem inv_of_change (hinv : (contract b).inv n d) (hle : n ≤ n')
    (hc : Change b req p d d') (htransfers : d'.book.transfers = d.book.transfers) : (contract b).inv n' d' := by
  refine (contract b).inv_mono hle ⟨hc.sound hinv.1, ?_⟩
  unfold Ledger.Book.Fresh
  rw [htransfers]
  exact hinv.2

/-! ## Rows that were read -/

/-- The row that was read is still there, with its subscriber. -/
def KnownSubscription (s : Subscription) (d : Db) : Prop :=
  ∃ s' ∈ d.subscriptions, s'.id = s.id ∧ s'.subscriber = s.subscriber

/-- The invoice that was read is still there; one that was no longer open has kept its status. -/
def KnownInvoice (i : Invoice) (d : Db) : Prop :=
  ∃ i' ∈ d.invoices, i'.id = i.id ∧ i'.subscriptionId = i.subscriptionId ∧ i'.planId = i.planId ∧
    (i.status ≠ .opened → i'.status = i.status)

theorem KnownSubscription.persists (h : KnownSubscription s d) (hd : Persists d d') : KnownSubscription s d' := by
  obtain ⟨s1, hs1, hid1, hsubscriber1⟩ := h
  obtain ⟨s2, hs2, hid2, hsubscriber2⟩ := hd.subscriptions s1 hs1
  exact ⟨s2, hs2, hid2.trans hid1, hsubscriber2.trans hsubscriber1⟩

theorem KnownInvoice.persists {i : Invoice} (h : KnownInvoice i d) (hd : Persists d d') : KnownInvoice i d' := by
  obtain ⟨i1, hi1, hid1, hsub1, hplan1, hclosed1⟩ := h
  obtain ⟨i2, hi2, hid2, hsub2, hplan2, hclosed2⟩ := hd.invoices i1 hi1
  refine ⟨i2, hi2, hid2.trans hid1, hsub2.trans hsub1, hplan2.trans hplan1, fun hne => ?_⟩
  have heq := hclosed1 hne
  exact (hclosed2 (heq ▸ hne)).trans heq

theorem read_safe {f : Db → α} {post : α → Db → Prop} (h : ∀ d', Persists d d' → d'.Sound → post (f d') d')
    (hstable : ∀ a d' d'', post a d' → Persists d' d'' → post a d'') : SafeOk (contract b) cond req post (read f) d :=
  .statement (fun _ d' hrely hinv _ => .query ⟨hinv, .unchanged .., h d' hrely hinv.1⟩)
    fun a d' _ d'' ha hrely _ => hstable a d' d'' ha hrely

theorem read_any (f : Db → α) : Safe b cond req (read f) :=
  fun _ => read_safe (fun _ _ _ => trivial) fun _ _ _ _ _ => trivial

theorem search_any {α β : Type} {f : Db → Option α} {k : Option α → Op β} (hnone : Safe b cond req (k none))
    (hsome : ∀ a, Safe b cond req (k (some a))) : Safe b cond req (read f >>= k) := by
  refine .bind (read_any f) fun found => ?_
  cases found with
  | none => exact hnone
  | some a => exact hsome a

theorem find_safe {f : Db → Option α} {k : Option α → Op α} {K : α → Db → Prop} {e : Error}
    (hsome : ∀ a, k (some a) = pure a) (hnone : k none = throw e) (hfound : ∀ {d a}, f d = some a → K a d)
    (hstable : ∀ {a d d'}, K a d → Persists d d' → K a d') (d : Db) :
    SafeOk (contract b) cond req K (read f >>= k) d := by
  have hread : SafeOk (contract b) cond req (fun found d => ∀ a, found = some a → K a d) (read f) d :=
    read_safe (fun _ _ _ _ ha => hfound ha) fun _ _ _ h hd a ha => hstable (h a ha) hd
  refine .bind hread fun found d1 hfound => ?_
  cases found with
  | none => exact hnone ▸ .throw
  | some a => exact hsome a ▸ .pure fun _ _ hrely _ => hstable (hfound a rfl) hrely

theorem require_safe (subscriptionId : String) (d : Db) :
    SafeOk (contract b) cond req (fun s d => s.id = subscriptionId ∧ KnownSubscription s d)
      (require subscriptionId) d := by
  refine find_safe (fun _ => rfl) rfl (fun {d s} hs => ?_) (fun h hd => ⟨h.1, h.2.persists hd⟩) d
  exact ⟨by simpa using find?_some hs, s, mem_of_find?_eq_some hs, rfl, rfl⟩

theorem requireInvoice_safe (invoiceId : String) (d : Db) :
    SafeOk (contract b) cond req (fun i d => i.id = invoiceId ∧ KnownInvoice i d) (requireInvoice invoiceId) d := by
  refine find_safe (fun _ => rfl) rfl (fun {d i} hi => ?_) (fun h hd => ⟨h.1, h.2.persists hd⟩) d
  exact ⟨by simpa using find?_some hi, i, mem_of_find?_eq_some hi, rfl, rfl, rfl, fun _ => rfl⟩

theorem require_any : Safe b cond req (require subscriptionId) :=
  fun d => Prog.Safe.weaken (require_safe subscriptionId d) fun _ _ _ _ _ => trivial

theorem requireInvoice_any : Safe b cond req (requireInvoice invoiceId) :=
  fun d => Prog.Safe.weaken (requireInvoice_safe invoiceId d) fun _ _ _ _ _ => trivial

theorem requirePlan_safe (planId : String) (d : Db) :
    SafeOk (contract b) cond req (fun plan _ => b.plan planId = .ok plan) (b.requirePlan planId) d := by
  intro _ _ _ _ plan hplan
  exact hplan

theorem requirePlan_any : Safe b cond req (b.requirePlan planId) :=
  fun d => Prog.Safe.weaken (requirePlan_safe planId d) fun _ _ _ _ _ => trivial

/-! ## Updates -/

theorem setSubscription_safe (hset : ∀ s, guard s → set.Permitted s) :
    Safe b cond req (setSubscription subscriptionId guard set now) := by
  refine fun _ => .statement (fun n d' _ hinv _ => setSubscriptionIn_ends (fun s hs hid hguard => ?_)
    fun _ => ⟨hinv, .unchanged .., trivial⟩) fun _ _ _ _ _ _ _ => trivial
  subst hid
  have hchange : Change b req (.subscription s.id set) d'
      (d'.updateSubscription s.id fun s => set.apply now s) := .set hs (hset s hguard)
  exact ⟨inv_of_change hinv (le_refl n) hchange rfl, hchange, trivial⟩

theorem moveStatus_safe {source target : SubscriptionStatus} (hsource : source ≠ .cancelled) :
    Safe b cond req (moveStatus subscriptionId source target now) := by
  refine setSubscription_safe fun s hs => ?_
  show s.status ≠ .cancelled
  rw [of_decide_eq_true hs]
  exact hsource

theorem setChannel_safe : Safe b cond req (setChannel subscriptionId channel now) :=
  .bind (setSubscription_safe (fun _ _ => by trivial)) fun _ => safe_pure

theorem setCharge_safe {guard : Invoice → Bool} {set : SetInvoice} (hset : set.KeepsStatus) : Safe b cond req
      (Prog.statement (.charge invoiceId) (setInvoiceIn invoiceId guard set)) := by
  refine fun _ => .statement (fun n d' _ hinv _ => setInvoiceIn_ends (fun _ _ _ _ => ?_)
    fun _ => ⟨hinv, .unchanged .., trivial⟩) fun _ _ _ _ _ _ _ => trivial
  have hchange : Change b req (.charge invoiceId) d' _ := .charged hset
  exact ⟨inv_of_change hinv (le_refl n) hchange rfl, hchange, trivial⟩

theorem closeInvoice_safe {status : InvoiceStatus} (hp : Closes invoiceId p status) :
    Safe b cond req (Prog.statement p (setInvoiceIn invoiceId (fun i => i.status = .opened) (.closed status))) := by
  refine fun _ => .statement (fun n d' _ hinv _ => setInvoiceIn_ends (fun i hi hid hopen => ?_)
    fun _ => ⟨hinv, .unchanged .., trivial⟩) fun _ _ _ _ _ _ _ => trivial
  subst hid
  have hchange : Change b req p d' _ := .closed hp hi (of_decide_eq_true hopen)
  exact ⟨inv_of_change hinv (le_refl n) hchange rfl, hchange, trivial⟩

theorem insert_safe (hchange : ∀ n d, d.accepts (row n) = true → Change b req p d ((row n).apply d))
    (hbook : ∀ n d, ((row n).apply d).book = d.book) : Safe b cond req (Prog.statement p (insert row)) := by
  refine fun _ => .statement (fun n d' _ hinv _ => insert_ends (fun hnew => ?_) ?_) fun _ _ _ _ _ _ _ => trivial
  · have hc := hchange n d' hnew
    exact ⟨inv_of_change hinv (Nat.le_succ n) hc (by rw [hbook]), hc, trivial⟩
  · exact ⟨(contract b).inv_mono (Nat.le_succ n) hinv, .unchanged .., trivial⟩

theorem raise_safe {number : Int} {periodStart periodEnd dueAt : Nat} {seen : Bool}
    (hseen : 0 < periodStart → seen = false) : Safe b cond req
      (raise s plan number periodStart periodEnd dueAt now seen) := by
  refine .bind (insert_safe (fun n d' hnew => ?_) (fun _ _ => rfl)) fun (n, inserted) => ?_
  · exact .raised hnew rfl rfl hseen
  cases inserted <;> exact safe_pure

theorem remind_safe {tick : Tick} {kind : ReminderKind} : Safe b cond req (b.remind tick kind s invoice now) := by
  refine .bind (insert_safe (fun _ _ _ => .reminded) (fun _ _ => rfl)) fun (n, claimed) => ?_
  cases claimed with
  | false => exact safe_pure
  | true => exact .bind requirePlan_any fun _ => safe_pure

/-! ## Charges, renewals and voiding -/

theorem attachCharge_safe : Safe b cond req (attachCharge gateway invoice s plan now) := by
  have hgateway : Safe b cond req (Prog.statement .gateway (tryInsert fun _ _ => none) : Op (Nat × Bool)) := by
    refine fun _ => .statement (fun n d' _ hinv _ => .tryInsert (fun _ hw => by cases hw) fun _ => ?_)
      fun _ _ _ _ _ _ _ => trivial
    exact ⟨(contract b).inv_mono (Nat.le_succ n) hinv, .unchanged .., trivial⟩
  refine .bind hgateway fun (n, _) => ?_
  dsimp only
  cases gateway n (chargeRequest invoice s plan now) with
  | none => exact safe_pure
  | some =>
    refine .bind (setCharge_safe (by trivial)) fun stored => ?_
    cases stored with
    | true => exact safe_pure
    | false => exact search_any safe_pure fun _ => safe_pure

theorem chargeFor_safe : Safe b cond req (chargeFor gateway invoice s plan now) :=
  .bind attachCharge_safe fun _ => safe_pure

theorem raiseRenewal_safe : Safe b cond req (b.raiseRenewal gateway s now) := by
  refine .bind requirePlan_any fun plan => ?_
  refine .bind (read_any _) fun already => ?_
  cases already with
  | true => exact safe_pure
  | false =>
    refine .bind (read_any _) fun number => ?_
    refine .bind (raise_safe fun _ => rfl) fun invoice => ?_
    cases invoice with
    | none => exact safe_pure
    | some => exact .bind chargeFor_safe fun _ => safe_pure

theorem voidEach_safe (is : List Invoice) (voided : Nat) : Safe b cond req (voidEach is voided) := by
  induction is generalizing voided with
  | nil => exact safe_pure
  | cons i is ih => exact .bind (closeInvoice_safe .void) fun _ => ih _

theorem voidOpenInvoices_safe : Safe b cond req (voidOpenInvoices s) :=
  .bind (read_any _) fun rows => voidEach_safe rows 0

theorem expireInvoice_safe : Safe b cond req (expireInvoice invoiceId) :=
  search_any safe_pure fun _ => .bind (closeInvoice_safe .expire) fun _ => safe_pure

/-! ## Starting and changing -/

theorem subscribe_safe {subscriber : Subscriber} : Safe b cond req
      (b.subscribe gateway subscriber planId channel now) := by
  refine .bind requirePlan_any fun plan => ?_
  refine search_any ?_ fun _ => .throw
  refine .bind (insert_safe (fun n d' hnew => ?_) (fun _ _ => rfl)) fun (n, inserted) => ?_
  · exact .subscribed hnew rfl
  cases inserted with
  | false => exact .throw
  | true =>
    refine .bind (raise_safe fun _ => rfl) fun invoice => ?_
    cases invoice with
    | none => exact .throw
    | some => exact chargeFor_safe

theorem changePending_safe : Safe b cond req (b.changePending gateway s plan now) := by
  refine .bind voidOpenInvoices_safe fun _ => ?_
  refine .bind (setSubscription_safe (fun _ _ => by trivial)) fun _ => ?_
  refine .bind (read_any _) fun number => ?_
  refine .bind (raise_safe fun _ => rfl) fun invoice => ?_
  cases invoice with
  | none => exact safe_pure
  | some => exact .bind chargeFor_safe fun _ => safe_pure

theorem changeNext_safe : Safe b cond req (b.changeNext gateway s plan now) := by
  refine .bind (setSubscription_safe (fun _ _ => by trivial)) fun _ => ?_
  refine .bind voidOpenInvoices_safe fun voided => ?_
  split
  · refine .bind require_any fun refreshed => ?_
    exact .bind raiseRenewal_safe fun _ => safe_pure
  · exact safe_pure

theorem changePlan_safe : Safe b cond req (b.changePlan gateway subscriptionId planId now) := by
  refine .bind requirePlan_any fun plan => ?_
  refine .bind require_any fun s => ?_
  split
  · exact .throw
  · split
    · exact .bind changePending_safe fun _ => require_any
    · exact .bind changeNext_safe fun _ => require_any

theorem cancel_safe : Safe b cond req (cancel subscriptionId now) := by
  refine .bind require_any fun s => ?_
  refine .bind voidOpenInvoices_safe fun _ => ?_
  refine .bind (setSubscription_safe (fun _ _ => ?_)) fun _ => require_any
  split <;> trivial

theorem cancelNow_safe : Safe b cond req (cancelNow subscriptionId now) := by
  refine .bind require_any fun s => ?_
  refine .bind voidOpenInvoices_safe fun _ => ?_
  exact .bind (setSubscription_safe (fun _ _ => by trivial)) fun _ => require_any

theorem renew_safe : Safe b cond req (b.renew gateway subscriptionId channel now) := by
  refine .bind require_any fun s => ?_
  split
  · exact .throw
  · refine search_any ?_ fun _ => safe_pure
    refine .bind setChannel_safe fun _ => ?_
    refine .bind requirePlan_any fun plan => ?_
    refine .bind (read_any _) fun number => ?_
    refine .bind (raise_safe fun _ => rfl) fun invoice => ?_
    cases invoice with
    | some => exact chargeFor_safe
    | none => exact search_any .throw fun _ => safe_pure

theorem reissue_safe : Safe b cond req (b.reissue gateway invoiceId channel now) := by
  refine .bind requireInvoice_any fun invoice => ?_
  split
  · exact .throw
  · refine .bind require_any fun s => ?_
    refine .bind requirePlan_any fun plan => ?_
    refine .bind setChannel_safe fun _ => ?_
    exact .bind (setCharge_safe (by trivial)) fun _ => chargeFor_safe

/-! ## Money arriving -/

/-- What `on_paid` knows of the rows it read. -/
structure Paying (b : Billing) (invoice : Invoice) (s : Subscription) (plan : Plan) (d : Db) : Prop where
  known : KnownInvoice invoice d
  subscription : KnownSubscription s d
  subscriptionId : s.id = invoice.subscriptionId
  plan_eq : b.plan invoice.planId = .ok plan

theorem Paying.persists (h : Paying b invoice s plan d) (hd : Persists d d') : Paying b invoice s plan d' :=
  { h with known := h.known.persists hd, subscription := h.subscription.persists hd }

/-- The credits of the invoice are in the ledger, if its plan gives any. -/
def Granted (invoice : Invoice) (plan : Plan) (d : Db) : Prop :=
  0 < plan.creditsPerCycle → ∃ t ∈ d.book.transfers, t.reference = invoice.id

theorem Granted.persists (h : Granted invoice plan d) (hd : Persists d d') : Granted invoice plan d' := by
  intro hcredits
  obtain ⟨t, ht, href⟩ := h hcredits
  exact ⟨t, hd.book.transfers t ht, href⟩

theorem topUp_step {p : Ledger.Point} {book : Ledger.Book} (hreq : req.pays = some invoice.id)
    (hcredits : 0 < plan.creditsPerCycle) (hd : Paying b invoice s plan d)
    (hinv : (contract b).inv n d) (hinv' : Ledger.contract.inv n' book)
    (hstep : Ledger.contract.step
      (.topUp b.unit s.subscriber.id plan.creditsPerCycle invoice.id lifetime ledgerNow) p d.book book) :
    (contract b).inv n' (d.withBook book) ∧ (contract b).step req (.ledger p) d (d.withBook book) := by
  obtain ⟨_, hi, hid, hsubscription, hplanId, -⟩ := hd.known
  obtain ⟨_, hs', hsid, hsubscriber⟩ := hd.subscription
  have hchange : Change b req (.ledger p) d (d.withBook book) := by
    rw [← hid, ← hsubscriber] at hstep
    refine .ledger (hid ▸ hreq) hi (hplanId ▸ hd.plan_eq) hcredits hs' ?_ hstep
    rw [hsid, hd.subscriptionId, hsubscription]
  exact ⟨⟨hchange.sound hinv.1, hinv'.2⟩, hchange⟩

theorem topUp_safe (hreq : req.pays = some invoice.id) (hcredits : 0 < plan.creditsPerCycle)
    (hd : Paying b invoice s plan d) :
    SafeOk (contract b) cond req (fun t d => Paying b invoice s plan d ∧ Ledger.Found invoice.id t d.book)
      (liftOp ledger Point.ledger
        (Ledger.topUp b.unit s.subscriber.id plan.creditsPerCycle invoice.id lifetime ledgerNow)) d := by
  have hledger : SafeOk Ledger.contract (fun _ _ _ => True) _ (Ledger.Found invoice.id)
      (Ledger.topUp b.unit s.subscriber.id plan.creditsPerCycle invoice.id lifetime ledgerNow)
      d.book := Ledger.topUp_safe d.book
  refine Prog.Safe.weaken (Prog.Safe.lift (J := Paying b invoice s plan) ledger ?_ ?_ ?_
    Paying.persists (fun hd hinv _ => topUp_step hreq hcredits hd hinv) hledger hd)
    fun r d1 hr t ht => ⟨hr.2, hr.1 t ht⟩
  · exact fun hinv => ⟨hinv.1.book, hinv.2⟩
  · exact fun hrely => hrely.book
  · exact fun _ => trivial

theorem grant_safe (hreq : req.pays = some invoice.id) (hd : Paying b invoice s plan d) :
    SafeOk (contract b) cond req (fun _ d => Paying b invoice s plan d ∧ Granted invoice plan d)
      (b.grant invoice s plan finish now ledgerNow) d := by
  unfold grant
  split
  · rename_i hcredits
    refine .bind (topUp_safe hreq hcredits hd) fun t d1 ⟨hd1, hfound⟩ => ?_
    refine .pure fun _ _ hrely _ => ⟨hd1.persists hrely, fun _ => ?_⟩
    exact ⟨t, hrely.book.transfers t hfound.1, hfound.2⟩
  · rename_i hcredits
    exact .pure fun _ _ hrely _ => ⟨hd.persists hrely, fun hpos => absurd hpos hcredits⟩

theorem payIn_ends {start : Nat} {seen : InvoiceStatus} (hinv : (contract b).inv n d)
    (hreq : req.pays = some invoice.id)
    (hd : Paying b invoice s plan d) (hgranted : Granted invoice plan d) :
    Ends (payIn invoice.id s.id plan.id start finish now) n d
      ((contract b).Outcome req (.pay invoice.id s.id start seen) d fun _ _ => True) := by
  refine .bind (setInvoiceIn_ends (fun i hi hid hopen => ?_) fun _ => .pure trivial)
  obtain ⟨j, hj, hjid, hsubscription, hplanId, -⟩ := hd.known
  obtain rfl : i = j := Rows.eq_of_key hinv.1.invoiceIds hi hj (hid.trans hjid.symm)
  have hsid := hd.subscriptionId.trans hsubscription.symm
  refine .bind (setSubscriptionIn_ends (fun _ _ _ _ => .pure ?_) fun hnone => ?_)
  · have hchange : Change b req (.pay i.id i.subscriptionId start seen) d
        ((d.updateInvoice i.id fun i => (SetInvoice.paid now start finish).apply i).updateSubscription
          i.subscriptionId fun s => (SetSubscription.activated plan.id start finish).apply now s) :=
      .paid (hid ▸ hreq) hi (of_decide_eq_true hopen) (hplanId ▸ hd.plan_eq) (hid ▸ hgranted)
    rw [hid, ← hsid] at hchange
    exact ⟨inv_of_change hinv (le_refl n) hchange rfl, hchange, trivial⟩
  · obtain ⟨s', hs', hsid', -⟩ := hd.subscription
    exact absurd rfl (hnone s' hs' hsid')

theorem onPaid_safe (hreq : req.pays = some invoiceId) : Safe b cond req (b.onPaid invoiceId now ledgerNow) := by
  intro d
  refine .bind (requireInvoice_safe invoiceId d) fun invoice d1 ⟨hid, hknown⟩ => ?_
  subst hid
  split
  · exact safe_pure _
  · exact safe_pure _
  · exact safe_pure _
  · refine .bind (.stable KnownInvoice.persists (require_safe _ d1) hknown) fun s d2 ⟨⟨hsid, hs⟩, hknown⟩ => ?_
    refine .bind (.stable (K := fun d => KnownInvoice invoice d ∧ KnownSubscription s d)
      (fun h hd => ⟨h.1.persists hd, h.2.persists hd⟩) (requirePlan_safe _ d2) ⟨hknown, hs⟩)
      fun plan d3 ⟨hplan, hknown, hs⟩ => ?_
    refine .bind (grant_safe hreq ⟨hknown, hs, hsid, hplan⟩) fun _ d4 ⟨hpaying, hgranted⟩ => ?_
    refine .bind (.transaction (fun n d' hrely hinv _ => ?_) fun _ _ _ _ _ _ _ => trivial) fun won d5 _ => ?_
    · exact payIn_ends hinv hreq (hpaying.persists hrely) (hgranted.persists hrely)
    · cases won with
      | false => exact safe_pure _
      | true =>
        refine .bind (require_any d5) fun s d6 _ => ?_
        exact .bind (requireInvoice_safe _ d6) fun _ _ _ => safe_pure _

theorem onChargeLost_safe : Safe b cond req (onChargeLost invoiceId now) := by
  refine .bind requireInvoice_any fun invoice => ?_
  split
  · exact safe_pure
  · refine .bind require_any fun s => ?_
    split
    · refine .bind expireInvoice_safe fun _ => ?_
      exact .bind (moveStatus_safe (by decide)) fun _ => safe_pure
    · exact .bind (setCharge_safe (by trivial)) fun _ => safe_pure

theorem onEvent_safe {event : WebhookEvent} :
    Safe b cond (.onEvent event now ledgerNow) (b.onEvent event now ledgerNow) := by
  unfold onEvent
  cases hcharge : event.charge with
  | none => exact safe_pure
  | some charge =>
    refine search_any safe_pure fun invoice => ?_
    dsimp only
    split
    · -- a payment: the event's request is one of `on_paid`
      rename_i hkind
      have hreq : (Request.onEvent event now ledgerNow).pays = some charge.reference := by
        rw [Request.pays, if_pos hkind, hcharge]
        rfl
      exact .bind (onPaid_safe hreq) fun _ => safe_pure
    · exact .bind onChargeLost_safe fun _ => safe_pure
    · exact .bind onChargeLost_safe fun _ => safe_pure
    · exact safe_pure

/-! ## The passes of a tick -/

variable (rows : List Subscription) (tick : Tick)

theorem raiseRenewals_safe : Safe b cond req (b.raiseRenewals gateway now rows tick) := by
  induction rows generalizing tick with
  | nil => exact safe_pure
  | cons s rows ih => exact .bind raiseRenewal_safe fun _ => ih _

theorem retryCharges_safe (rows : List Invoice) (tick : Tick) :
    Safe b cond req (b.retryCharges gateway now rows tick) := by
  induction rows generalizing tick with
  | nil => exact safe_pure
  | cons i rows ih =>
    refine search_any (ih _) fun _ => ?_
    dsimp only
    split
    · exact ih _
    · exact .bind attachCharge_safe fun _ => ih _

theorem endPeriods_safe : Safe b cond req (b.endPeriods now rows tick) := by
  induction rows generalizing tick with
  | nil => exact safe_pure
  | cons s rows ih =>
    refine .bind (moveStatus_safe (by decide)) fun moved => ?_
    split
    · split
      · exact ih _
      · exact search_any (ih _) fun _ => .bind remind_safe fun _ => ih _
    · exact ih _

theorem endGrace_safe : Safe b cond req (b.endGrace now rows tick) := by
  induction rows generalizing tick with
  | nil => exact safe_pure
  | cons s rows ih =>
    refine .bind requirePlan_any fun plan => ?_
    split
    · exact ih _
    · refine .bind (moveStatus_safe (by decide)) fun moved => ?_
      split
      · refine search_any ?_ fun _ => .bind expireInvoice_safe fun _ => ?_
        · dsimp only
          split <;> exact ih _
        · split
          · exact ih _
          · exact .bind remind_safe fun _ => ih _
      · exact ih _

theorem closePending_safe : Safe b cond req (closePending now rows tick) := by
  induction rows generalizing tick with
  | nil => exact safe_pure
  | cons s rows ih =>
    refine search_any (.bind (moveStatus_safe (by decide)) fun _ => ih _) fun _ => ?_
    dsimp only
    split
    · exact ih _
    · refine .bind (moveStatus_safe (by decide)) fun moved => ?_
      cases moved with
      | false => exact ih _
      | true => exact .bind expireInvoice_safe fun _ => ih _

theorem remindEach_safe (before : List Nat) (tick : Tick) :
    Safe b cond req (b.remindEach s invoice now before tick) := by
  induction before generalizing tick with
  | nil => exact safe_pure
  | cons before rest ih =>
    unfold remindEach
    split
    · exact .bind remind_safe fun _ => ih _
    · exact ih _

theorem remindDue_safe (rows : List Invoice) (tick : Tick) : Safe b cond req (b.remindDue now rows tick) := by
  induction rows generalizing tick with
  | nil => exact safe_pure
  | cons i rows ih =>
    refine search_any (ih _) fun _ => ?_
    dsimp only
    split
    · exact ih _
    · exact .bind (remindEach_safe _ _) fun _ => ih _

theorem tickAt_safe : Safe b cond req (b.tickAt gateway now) := by
  refine .bind (read_any _) fun rows => ?_
  refine .bind (raiseRenewals_safe rows _) fun tick => ?_
  refine .bind (read_any _) fun rows => ?_
  refine .bind (retryCharges_safe rows tick) fun tick => ?_
  refine .bind (read_any _) fun rows => ?_
  refine .bind (endPeriods_safe rows tick) fun tick => ?_
  refine .bind (read_any _) fun rows => ?_
  refine .bind (endGrace_safe rows tick) fun tick => ?_
  refine .bind (read_any _) fun rows => ?_
  refine .bind (closePending_safe rows tick) fun tick => ?_
  exact .bind (read_any _) fun rows => remindDue_safe rows tick

/-! ## The system -/

theorem system_safe (b : Billing) (cond : Request → Point → Db → Prop) :
    (b.system cond).Safe (contract b) fun _ _ _ => True := by
  have hok : ∀ {α : Type} {req : Request} {x : Op α} {f : α → Reply},
      Safe b cond req x → Safe b cond req (do let a ← x; pure (f a)) := fun hx => .bind hx fun _ => safe_pure
  intro req _ n d _
  suffices h : Safe b cond req (b.program req) from Prog.Safe.weaken (h d) fun _ _ _ => trivial
  cases req with
  | subscribe => exact hok subscribe_safe
  | changePlan => exact hok changePlan_safe
  | cancel => exact hok cancel_safe
  | cancelNow => exact hok cancelNow_safe
  | renew => exact hok renew_safe
  | reissue => exact hok reissue_safe
  | onPaid => exact hok (onPaid_safe rfl)
  | onChargeLost => exact hok onChargeLost_safe
  | onEvent => exact hok onEvent_safe
  | tickAt => exact hok tickAt_safe

theorem inv_empty (b : Billing) : (contract b).inv 0 Db.empty := ⟨Db.sound_empty, nofun⟩

/-! ## Runs to compute -/

def basicPlan : Plan :=
  { id := "basic", name := "Basic", price := ⟨100, "IDR"⟩, creditsPerCycle := 10, cycle := .monthly
    grace := 259200 }

def proPlan : Plan :=
  { id := "pro", name := "Pro", price := ⟨300, "IDR"⟩, creditsPerCycle := 40, cycle := .monthly
    grace := 259200 }

def twoPlans : Billing := { unit := "credits", plans := [basicPlan, proPlan] }

def ana : Subscriber := { id := "ana", name := "Ana", email := none, phone := none }

def noGateway : Gateway := fun _ _ => none

def steps (i k : Nat) : List (System.Event Request) := replicate k (.advance i)

/-- Ana subscribes as `sub_0` at 50 and pays `inv_1` at 100, for the period up to 2592100. -/
def subscribedAndPaid : List (System.Event Request) :=
  .call (.subscribe noGateway ana "basic" .qris 50) :: steps 0 4 ++ .call (.onPaid "inv_1" 100 100) :: steps 1 11

end Rustlavel.Billing
