/-
  No period of a subscription is invoiced twice.
-/

import Rustlavel.Billing.Simulation

namespace Rustlavel.Billing

open Transact

def Invoice.Counts (i : Invoice) : Prop := i.status = .opened ∨ i.status = .paid

instance (i : Invoice) : Decidable i.Counts := inferInstanceAs (Decidable (_ ∨ _))

structure Clash (i j : Invoice) : Prop where
  subscriptionId : i.subscriptionId = j.subscriptionId
  periodStart : i.periodStart = j.periodStart
  pos : 0 < i.periodStart
  left : i.Counts
  right : j.Counts

theorem Clash.symm {i j : Invoice} (h : Clash i j) : Clash j i :=
  ⟨h.subscriptionId.symm, h.periodStart.symm, h.periodStart ▸ h.pos, h.right, h.left⟩

def OnePerPeriod (d : Db) : Prop := Rows.Apart Invoice.id Clash d.invoices

/-- A paid invoice of the period `raise` inserts for was there when the call looked for one; and a payment that
    begins a period at its own moment does not meet another invoice's period there. -/
def SeenBefore (_ : Request) : Point → Db → Prop
  | .raise subscriptionId _ periodStart seen, d => ∀ i ∈ d.invoices,
      i.subscriptionId = subscriptionId → i.status = .paid → 0 < periodStart → i.periodStart = periodStart → seen = true
  | .pay invoiceId subscriptionId start _, d =>
    (∃ i ∈ d.invoices, i.id = invoiceId ∧ i.periodStart = start) ∨
      ∀ i ∈ d.invoices, i.id ≠ invoiceId → i.subscriptionId = subscriptionId → i.Counts → i.periodStart ≠ start
  | _, _ => True

instance (req : Request) (p : Point) (d : Db) : Decidable (SeenBefore req p d) := by
  cases p <;> unfold SeenBefore <;> infer_instance

variable {b : Billing} {req : Request} {p : Point} {d d' : Db} {set : SetInvoice}

theorem OnePerPeriod.raised {i : Invoice} {seen : Bool} (h : OnePerPeriod d) (hsound : d.Sound)
    (hnew : d.accepts (.newInvoice i) = true) (hkey : i.periodKey = toString i.periodStart)
    (hseen : 0 < i.periodStart → seen = false)
    (hfree : SeenBefore req (.raise i.subscriptionId i.planId i.periodStart seen) d) :
    OnePerPeriod (d.addInvoice i) := by
  simp only [Db.accepts, List.all_eq_true, decide_eq_true_eq] at hnew
  refine Rows.Apart.concat (fun _ _ => Clash.symm) h fun x hx hclash => ?_
  rcases hclash.left with hopen | hpaid
  · have hxkey : x.periodKey = i.periodKey := by
      rw [hsound.openKey x hx hopen, hclash.periodStart, hkey]
    exact (hnew x hx).2.1 ⟨hclash.subscriptionId, hxkey⟩
  · -- the call has looked, and found none
    have hpos : 0 < i.periodStart := hclash.periodStart ▸ hclash.pos
    have hfound := hfree x hx hclash.subscriptionId hpaid hpos hclash.periodStart
    rw [hseen hpos] at hfound
    cases hfound

theorem OnePerPeriod.updateInvoice {invoiceId : String} (h : OnePerPeriod d)
    (hset : ∀ i ∈ d.invoices, i.id = invoiceId → (set.apply i).Counts →
      i.Counts ∧ (set.apply i).periodStart = i.periodStart) :
    OnePerPeriod (d.updateInvoice invoiceId fun i => set.apply i) := by
  refine Rows.Apart.modify_of_imp (fun _ _ => Clash.symm) h set.apply_id fun x _ i hi hid hclash => ?_
  obtain ⟨hcounts, hstart⟩ := hset i hi hid hclash.right
  exact ⟨hclash.subscriptionId.trans (set.apply_subscriptionId i), hclash.periodStart.trans hstart,
    hclash.pos, hclash.left, hcounts⟩

theorem SetInvoice.KeepsStatus.periodStart (h : set.KeepsStatus) (i : Invoice) :
    (set.apply i).periodStart = i.periodStart := by
  cases set <;> first | rfl | cases h

theorem OnePerPeriod.paid {i : Invoice} {now start finish : Nat} {seen : InvoiceStatus} (h : OnePerPeriod d)
    (hsound : d.Sound) (hi : i ∈ d.invoices) (hopen : i.status = .opened)
    (hfree : SeenBefore req (.pay i.id i.subscriptionId start seen) d) :
    OnePerPeriod (d.updateInvoice i.id fun i => (SetInvoice.paid now start finish).apply i) := by
  have heq : ∀ j ∈ d.invoices, j.id = i.id → j = i := fun j hj hid =>
    Rows.eq_of_key hsound.invoiceIds hj hi hid
  rcases hfree with ⟨j, hj, hid, hstart⟩ | hfree
  · obtain rfl : j = i := heq j hj hid
    refine h.updateInvoice fun x hx hxid _ => ?_
    rw [heq x hx hxid]
    exact ⟨.inl hopen, hstart.symm⟩
  · refine Rows.Apart.modify (fun _ _ => Clash.symm) h (fun _ => rfl) fun x hx j hj hxid hjid hclash => ?_
    rw [heq j hj hjid] at hclash
    exact hfree x hx hxid hclash.subscriptionId hclash.left hclash.periodStart

theorem Change.onePerPeriod (hc : Change b req p d d') (hsound : d.Sound) (h : OnePerPeriod d)
    (hfree : SeenBefore req p d) : OnePerPeriod d' := by
  cases hc with
  | raised hnew _ hkey hseen => exact h.raised hsound hnew hkey hseen hfree
  | charged hset =>
    refine h.updateInvoice fun i _ _ hcounts => ⟨?_, hset.periodStart i⟩
    unfold Invoice.Counts at hcounts
    rw [hset.status] at hcounts
    exact hcounts
  | closed hp =>
    -- void or expired, it takes no period up any more
    refine h.updateInvoice fun i _ _ hcounts => ?_
    cases hp <;> rcases hcounts with hcounts | hcounts <;> cases hcounts
  | paid _ hi hopen => exact h.paid hsound hi hopen hfree
  | _ => exact h

/-- In every run in which no invoice of a period is raised and paid between another call's look for one and its
    INSERT, no subscription has two invoices for one period. -/
theorem one_per_period_of_reachable (b : Billing) {c : Config Request Point Db Write (Except Error Reply)}
    (hc : (b.system SeenBefore).Reachable Db.empty c) :
    ∀ i ∈ c.db.invoices, ∀ j ∈ c.db.invoices, i.subscriptionId = j.subscriptionId →
      i.periodStart = j.periodStart → 0 < i.periodStart →
      (i.status = .opened ∨ i.status = .paid) → (j.status = .opened ∨ j.status = .paid) → i = j := by
  have hsafe := system_safe b SeenBefore
  have hone : OnePerPeriod c.db := hsafe.invariant (inv_empty b) (P := OnePerPeriod) Rows.Apart.nil
      (fun _ _ _ _ _ _ hinv h hfree hstep => hstep.onePerPeriod hinv.1 h hfree) hc
  have hids := (hsafe.reachable (inv_empty b) hc).inv.1.invoiceIds
  intro i hi j hj hsubscription hstart hpos hcounts hcounts'
  exact Rows.eq_of_key hids hi hj (hone i hi j hj ⟨hsubscription, hstart, hpos, hcounts, hcounts'⟩)

theorem one_per_period_of_renewal : ∃ c, (twoPlans.system SeenBefore).Reachable Db.empty c ∧
      c.db.invoices.map (fun i => (i.id, i.periodStart, i.status)) =
        [("inv_1", 100, .paid), ("inv_9", 2592100, .opened)] ∧
      ∀ i ∈ c.db.invoices, ∀ j ∈ c.db.invoices, i.subscriptionId = j.subscriptionId →
        i.periodStart = j.periodStart → 0 < i.periodStart →
        (i.status = .opened ∨ i.status = .paid) → (j.status = .opened ∨ j.status = .paid) → i = j := by
  obtain ⟨c, hc, hinvoices⟩ := (twoPlans.system SeenBefore).play_reachable
    (subscribedAndPaid ++ .call (.tickAt noGateway 2592000) :: steps 2 4) Db.empty
    (fun c => c.db.invoices.map fun i => (i.id, i.periodStart, i.status))
    (v := [("inv_1", 100, .paid), ("inv_9", 2592100, .opened)]) (by decide +kernel)
  exact ⟨c, hc, hinvoices, one_per_period_of_reachable twoPlans hc⟩

/-- A tick has seen that the next period has no invoice; a second one raises it and it is paid; the first raises
    another. -/
theorem period_invoiced_twice : ∃ c, (twoPlans.system fun _ _ _ => True).Reachable Db.empty c ∧
      c.db.invoices.map (fun i => (i.id, i.subscriptionId, i.periodStart, i.status)) =
        [("inv_1", "sub_0", 100, .paid), ("inv_9", "sub_0", 2592100, .paid), ("inv_14", "sub_0", 2592100, .opened)] :=
  (twoPlans.system fun _ _ _ => True).play_reachable
    (subscribedAndPaid ++ .call (.tickAt noGateway 2592000) :: steps 2 2 ++
      .call (.tickAt noGateway 2592000) :: steps 3 4 ++
      .call (.onPaid "inv_9" 2592050 2592050) :: steps 4 9 ++ steps 2 2) Db.empty _
    (by decide +kernel)

end Rustlavel.Billing
