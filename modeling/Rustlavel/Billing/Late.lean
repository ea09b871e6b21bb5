/-
  The webhook about a charge that has been replaced comes late.
-/

import Rustlavel.Billing.Subscriptions

namespace Rustlavel.Billing

open Transact Rows List Rustlavel.Billing.Db Prog

variable {b : Billing} {d d' : Db} {req : Request} {p : Point} {invoiceId : String}

/-! ## Charges that are lost -/

section

variable {α β : Type} (n : Nat) (d : Db)

theorem alone_read {γ : Type} (f : Db → γ) (g : γ → Op α) (k : α → Op β) :
    (read f >>= g >>= k).run.alone n d = (g (f d) >>= k).run.alone n d := rfl

theorem alone_requireInvoice {i : Invoice} (hi : d.invoice invoiceId = some i) (k : Invoice → Op β) :
    (requireInvoice invoiceId >>= k).run.alone n d = (k i).run.alone n d := by
  rw [requireInvoice, alone_read, hi]
  rfl

theorem alone_setInvoice {l : Point} (invoiceId : String) (guard : Invoice → Bool) (set : SetInvoice)
    (hset : ∀ i ∈ d.invoices, i.id = invoiceId → set.apply i = i) :
    ((do let _ ← statement l (setInvoiceIn invoiceId guard set); pure () : Op Unit).run.alone n d).2.2 = d := by
  have hrows : d.updateInvoice invoiceId (set.apply) = d := by
    rw [updateInvoice, modify_eq_self hset]
  show (((statement l (setInvoiceIn invoiceId guard set) : Op Bool).run >>= _).alone n d).2.2 = d
  rw [alone_bind, setInvoiceIn, alone_tryUpdate]
  by_cases hany : d.invoices.any fun i => i.id = invoiceId ∧ guard i
  · rw [if_pos hany]
    exact hrows
  · rw [if_neg hany]
    rfl

end

theorem onChargeLost_alone (hids : (d.invoices.map Invoice.id).Nodup) {i : Invoice}
    (hi : d.invoice invoiceId = some i)
    (h : i.status = .opened → i.chargeId = none ∧ i.instructions = {} ∧
      ∀ s, d.subscription i.subscriptionId = some s → s.status ≠ .pending) (n now : Nat) :
    ((onChargeLost invoiceId now).run.alone n d).2.2 = d := by
  rw [onChargeLost, alone_requireInvoice n d hi]
  by_cases hopen : i.status = .opened
  · obtain ⟨_, _, hpending⟩ := h hopen
    rw [if_neg (not_not.mpr hopen)]
    rw [require, alone_read]
    cases hs : d.subscription i.subscriptionId with
    | none => rfl
    | some s =>
      show ((if s.status = .pending then _ else _ : Op Unit).run.alone n d).2.2 = d
      rw [if_neg (hpending s hs)]
      refine alone_setInvoice n d _ _ _ fun j hj hid => ?_
      have hmem : i ∈ d.invoices ∧ i.id = invoiceId := by
        have hfound := find?_some hi
        exact ⟨mem_of_find?_eq_some hi, of_decide_eq_true hfound⟩
      obtain rfl := eq_of_key hids hj hmem.1 (hid.trans hmem.2.symm)
      cases j
      simp_all [SetInvoice.apply]
  · rw [if_pos hopen]
    rfl

/-- An expired or failed charge changes nothing if the invoice is not open, or has no charge and is not a first one. -/
theorem lost_charge_ignored (b : Billing) {event : WebhookEvent}
    (hkind : event.kind = .chargeExpired ∨ event.kind = .chargeFailed) {charge : Charge}
    (hcharge : event.charge = some charge) (hids : (d.invoices.map Invoice.id).Nodup)
    (h : ∀ i, d.invoice charge.reference = some i → i.status = .opened → i.chargeId = none ∧ i.instructions = {} ∧
        ∀ s, d.subscription i.subscriptionId = some s → s.status ≠ .pending) (n now ledgerNow : Nat) :
    ((b.onEvent event now ledgerNow).run.alone n d).2.2 = d := by
  rw [onEvent, hcharge]
  dsimp only
  rw [read, alone_query]
  cases hi : d.invoice charge.reference with
  | none => rfl
  | some i =>
    have hthen : (((do onChargeLost charge.reference now; pure none) : Op (Option Paid)).run.alone n d).2.2 = d := by
      have hlost := onChargeLost_alone hids hi (h i hi) n now
      show (((onChargeLost charge.reference now).run >>= _).alone n d).2.2 = d
      rw [alone_bind, hlost]
      cases ((onChargeLost charge.reference now).run.alone n d).1 <;> rfl
    rcases hkind with hkind | hkind <;> rw [hkind] <;> exact hthen

def numbered : Gateway := fun n request => some { id := toString n, reference := request.reference, instructions := {} }

/-- The database after the webhook that says the first invoice's charge has expired. -/
def afterExpiry (chargeId : String) (n : Nat) (d : Db) : Db :=
  ((twoPlans.onEvent { kind := .chargeExpired, charge := some ⟨chargeId, "inv_1", {}⟩ } 70 70).run.alone n d).2.2

theorem lost_charge_ignored_of_cancel : ∃ c, (twoPlans.system fun _ _ _ => True).Reachable empty c ∧
      c.db.invoices.map (fun i => (i.id, i.status)) = [("inv_1", .void)] ∧ afterExpiry "2" c.next c.db = c.db := by
  obtain ⟨c, hc, hv⟩ := (twoPlans.system fun _ _ _ => True).play_reachable
    (.call (.subscribe numbered ana "basic" .qris 50) :: steps 0 5 ++ .call (.cancel "sub_0" 60) :: steps 1 5) empty
    (fun c => (c.db.invoices.map fun i => (i.id, i.status), ((c.db.invoices.map Invoice.id).Nodup : Bool),
      ((c.db.invoice "inv_1").all fun i => i.status ≠ .opened : Bool)))
    (v := ([("inv_1", .void)], true, true)) (by decide +kernel)
  obtain ⟨hinvoices, hnodup, hopen⟩ := by simpa only [Prod.mk.injEq] using hv
  refine ⟨c, hc, hinvoices, lost_charge_ignored twoPlans (.inl rfl) rfl (of_decide_eq_true hnodup) ?_ _ _ _⟩
  intro i hi hopened
  simp [hi, hopened] at hopen

/-- How the first invoice and its subscription stand. -/
structure Standing where
  invoice : Option InvoiceStatus
  charge : Option String
  subscription : Option SubscriptionStatus
  deriving DecidableEq

def standing (d : Db) : Standing where
  invoice := (d.invoice "inv_1").map Invoice.status
  charge := (d.invoice "inv_1").bind Invoice.chargeId
  subscription := (d.subscription "sub_0").map Subscription.status

/-- Ana asks for another channel; the replaced charge expires and closes the subscription, while the new charge can
    be paid. -/
theorem replaced_charge_closes : ∃ c, (twoPlans.system fun _ _ _ => True).Reachable empty c ∧
      standing c.db = ⟨some .opened, some "3", some .pending⟩ ∧
      standing (afterExpiry "2" c.next c.db) = ⟨some .expired, some "3", some .cancelled⟩ := by
  obtain ⟨c, hc, hv⟩ := (twoPlans.system fun _ _ _ => True).play_reachable
    (.call (.subscribe numbered ana "basic" .qris 50) :: steps 0 5 ++
      .call (.reissue numbered "inv_1" .qris 60) :: steps 1 6) empty
    (fun c => (standing c.db, standing (afterExpiry "2" c.next c.db)))
    (v := (⟨some .opened, some "3", some .pending⟩, ⟨some .expired, some "3", some .cancelled⟩)) (by decide +kernel)
  exact ⟨c, hc, Prod.mk.inj hv⟩

end Rustlavel.Billing
