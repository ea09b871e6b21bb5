/-
  A customer has one subscription that lives.
-/

import Rustlavel.Billing.Simulation

namespace Rustlavel.Billing

open Transact Rows Rustlavel.Billing.Db

def Db.IsOpen (invoiceId : String) (d : Db) : Prop := ∃ i ∈ d.invoices, i.id = invoiceId ∧ i.status = .opened

instance (invoiceId : String) (d : Db) : Decidable (d.IsOpen invoiceId) :=
  inferInstanceAs (Decidable (∃ i ∈ d.invoices, _))

variable {b : Billing} {req : Request} {p : Point} {d d' : Db} {s : Subscription} {now : Nat}

theorem SetSubscription.Permitted.live {set : SetSubscription}
    (h : set.Permitted s) (hlive : (set.apply now s).status ≠ .cancelled) : s.status ≠ .cancelled := by
  cases set with
  | status => exact h
  | activated => exact h.elim
  | cancelled => exact absurd rfl hlive
  | _ => exact hlive

/-! ## One live subscription -/

structure Rivals (s t : Subscription) : Prop where
  customer : s.subscriber.id = t.subscriber.id
  left : s.status ≠ .cancelled
  right : t.status ≠ .cancelled

theorem Rivals.symm {s t : Subscription} (h : Rivals s t) : Rivals t s := ⟨h.customer.symm, h.right, h.left⟩

def OneLive (d : Db) : Prop := Apart Subscription.id Rivals d.subscriptions

/-- When `subscribe` inserts, `for_customer` would find what the call found; and no open invoice of a cancelled
    subscription is paid. -/
def Undisturbed (_ : Request) : Point → Db → Prop
  | .subscribe customer seen, d => d.forCustomer customer = seen
  | .pay invoiceId subscriptionId _ _, d => d.IsOpen invoiceId →
      ∀ s ∈ d.subscriptions, s.id = subscriptionId → s.status ≠ .cancelled
  | _, _ => True

instance (req : Request) (p : Point) (d : Db) : Decidable (Undisturbed req p d) := by
  apply @Point.casesOn _ p <;> unfold Undisturbed <;> infer_instance

theorem cancelled_of_forCustomer {customer : String} (h : d.forCustomer customer = none) :
    ∀ s ∈ d.subscriptions, s.subscriber.id = customer → s.status = .cancelled := by
  intro s hs hcustomer
  by_contra hlive
  have hnone := List.getLast?_eq_none_iff.mp h
  exact List.filter_eq_nil_iff.mp hnone s hs (decide_eq_true ⟨hcustomer, hlive⟩)

theorem OneLive.subscribed (h : OneLive d)
    (hcond : Undisturbed req (.subscribe s.subscriber.id none) d) : OneLive (d.addSubscription s) :=
  Apart.concat (fun _ _ => Rivals.symm) h fun x hx hrivals =>
    hrivals.left (cancelled_of_forCustomer hcond x hx hrivals.customer)

theorem OneLive.set {set : SetSubscription} (h : OneLive d)
    (hsound : d.Sound) (hs : s ∈ d.subscriptions) (hset : set.Permitted s) :
    OneLive (d.updateSubscription s.id fun s => set.apply now s) := by
  refine Apart.modify_of_imp (fun _ _ => Rivals.symm) h (set.apply_id now) fun x _ t ht hid hrivals => ?_
  obtain rfl := eq_of_key hsound.subscriptionIds ht hs hid
  have hcustomer := hrivals.customer
  rw [set.apply_subscriber] at hcustomer
  exact ⟨hcustomer, hrivals.left, hset.live hrivals.right⟩

theorem OneLive.paid {i : Invoice} {planId : String} {start finish now : Nat} {seen : InvoiceStatus}
    (h : OneLive d) (hi : i ∈ d.invoices) (hopen : i.status = .opened)
    (hcond : Undisturbed req (.pay i.id i.subscriptionId start seen) d) :
    OneLive (d.updateSubscription i.subscriptionId fun s =>
      (SetSubscription.activated planId start finish).apply now s) := by
  refine Apart.modify (fun _ _ => Rivals.symm) h (fun _ => rfl) fun x hx s hs hxid hsid hrivals => ?_
  have hlive : s.status ≠ .cancelled := hcond ⟨i, hi, rfl, hopen⟩ s hs hsid
  exact hxid ((h x hx s hs ⟨hrivals.customer, hrivals.left, hlive⟩).trans hsid)

theorem Change.oneLive (hc : Change b req p d d') (hsound : d.Sound) (h : OneLive d)
    (hcond : Undisturbed req p d) : OneLive d' := by
  cases hc with
  | subscribed => exact h.subscribed hcond
  | paid _ hi hopen => exact h.paid hi hopen hcond
  | set hs hset => exact h.set hsound hs hset
  | _ => exact h

/-- In every run under the condition, a customer has at most one subscription that is not cancelled. -/
theorem one_live_of_reachable (b : Billing) {c : Config Request Point Db Write (Except Error Reply)}
    (hc : (b.system Undisturbed).Reachable empty c) :
    ∀ s ∈ c.db.subscriptions, ∀ t ∈ c.db.subscriptions, s.subscriber.id = t.subscriber.id →
      s.status ≠ .cancelled → t.status ≠ .cancelled → s = t := by
  have hsafe := system_safe b Undisturbed
  have hone : OneLive c.db := hsafe.invariant (inv_empty b) (P := OneLive) Apart.nil
      (fun _ _ _ _ _ _ hinv h hcond hstep => hstep.oneLive hinv.1 h hcond) hc
  have hids := (hsafe.reachable (inv_empty b) hc).inv.1.subscriptionIds
  intro s hs t ht hcustomer hs' ht'
  exact eq_of_key hids hs ht (hone s hs t ht ⟨hcustomer, hs', ht'⟩)

theorem one_live_of_resubscribed : ∃ c, (twoPlans.system Undisturbed).Reachable empty c ∧
      c.db.subscriptions.map (fun s => (s.id, s.subscriber.id, s.status)) =
        [("sub_0", "ana", .cancelled), ("sub_9", "ana", .pending)] ∧
      ∀ s ∈ c.db.subscriptions, ∀ t ∈ c.db.subscriptions, s.subscriber.id = t.subscriber.id →
        s.status ≠ .cancelled → t.status ≠ .cancelled → s = t := by
  obtain ⟨c, hc, hsubscriptions⟩ := (twoPlans.system Undisturbed).play_reachable
    (subscribedAndPaid ++ .call (.cancelNow "sub_0" 200) :: steps 2 4 ++
      .call (.subscribe noGateway ana "pro" .qris 300) :: steps 3 4) empty
    (fun c => c.db.subscriptions.map fun s => (s.id, s.subscriber.id, s.status))
    (v := [("sub_0", "ana", .cancelled), ("sub_9", "ana", .pending)]) (by decide +kernel)
  exact ⟨c, hc, hsubscriptions, one_live_of_reachable twoPlans hc⟩

/-- Two calls of `subscribe` both find that Ana has no subscription. -/
theorem subscribed_twice : ∃ c, (twoPlans.system fun _ _ _ => True).Reachable empty c ∧
      c.db.subscriptions.map (fun s => (s.id, s.subscriber.id, s.status)) =
        [("sub_0", "ana", .pending), ("sub_3", "ana", .pending)] :=
  (twoPlans.system fun _ _ _ => True).play_reachable
    (.call (.subscribe noGateway ana "basic" .qris 50) :: steps 0 1 ++
      .call (.subscribe noGateway ana "pro" .qris 50) :: steps 1 4 ++ steps 0 3) empty _
    (by decide +kernel)

end Rustlavel.Billing
