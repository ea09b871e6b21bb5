/-
  The lots of an account say where its credits came from: what remains of them
  adds up to its balance, for every account that is credited by top-ups alone.
-/

import Rustlavel.Ledger.Conservation

namespace Rustlavel.Ledger

open Transact Rows Book Change

variable {d d' : Book} {req : Request} {p : Point}

/-! ## The remainder of an account's lots -/

def Book.lotsTotal (accountId : String) (d : Book) : Int :=
  total (fun l => l.accountId = accountId) Lot.remaining d.lots

theorem lotsTotal_addLot (d : Book) (l : Lot) (accountId : String) : (d.addLot l).lotsTotal accountId =
      d.lotsTotal accountId + if l.accountId = accountId then l.remaining else 0 := by
  unfold lotsTotal
  rw [addLot_lots, total_concat]
  simp only [decide_eq_true_eq]

theorem lotsTotal_clearLot (hsound : d.Sound) {l : Lot} (hl : l ∈ d.lots) (accountId : String) :
    (d.clearLot l.id).lotsTotal accountId =
      d.lotsTotal accountId - if l.accountId = accountId then l.remaining else 0 := by
  unfold lotsTotal
  rw [clearLot_lots, total_modify hsound.lotIds hl]
  by_cases hid : l.accountId = accountId <;> simp [hid, sub_eq_add_neg]

theorem lotsTotal_drawn {source : String} {amount : Int} {lots : List Lot}
    (hdrawn : Drawn source amount d.lots lots) (accountId : String)
    (hcovered : accountId = source → amount ≤ d.lotsTotal source) :
    (d.withLots lots).lotsTotal accountId = d.lotsTotal accountId - if accountId = source then amount else 0 := by
  obtain ⟨take, rfl, -, hothers, htotal⟩ := hdrawn
  have hmap : (d.withLots (d.lots.map fun l => { l with remaining := l.remaining - take l })).lotsTotal
      accountId = d.lotsTotal accountId +
        total (fun l => l.accountId = accountId) (fun l => l.remaining - take l - l.remaining) d.lots :=
    total_map fun _ _ => rfl
  have hneg : total (fun l => l.accountId = accountId) (fun l => l.remaining - take l - l.remaining)
      d.lots = - total (fun l => l.accountId = accountId) take d.lots := by
    rw [← total_neg]
    exact total_congr (fun _ _ => rfl) fun l _ _ => by ring
  rw [hmap, hneg]
  by_cases hid : accountId = source
  · subst hid
    have hmin : min amount (total (fun l => l.accountId = accountId) Lot.remaining d.lots) = amount :=
      min_eq_left (hcovered rfl)
    rw [if_pos rfl, htotal, hmin]
    ring
  · -- no lot of another account gave anything
    have hzero : total (fun l => l.accountId = accountId) take d.lots = 0 := by
      refine total_eq_zero fun l hl hacc => hothers l hl fun heq => hid ?_
      rw [← of_decide_eq_true hacc, heq]
    rw [if_neg hid, hzero, neg_zero, add_zero, sub_zero]

/-! ## Accounts credited by top-ups alone -/

/-- Every credit the account ever had came from a top-up. -/
def ToppedUp (a : Account) (d : Book) : Prop := a.owner ≠ systemTopup ∧ a.owner ≠ systemExpiry ∧
    ∀ t ∈ d.transfers, t.toAccount = a.id → t.kind = .topUp

instance (a : Account) (d : Book) : Decidable (ToppedUp a d) := by
  unfold ToppedUp
  infer_instance

def Backed (d : Book) : Prop := ∀ a ∈ d.accounts, ToppedUp a d → d.lotsTotal a.id = a.balance

/-- When a sweep expires a lot, no part of the lot is reserved: the account has the whole remainder available. -/
def Covered : Request → Point → Book → Prop
  | .sweep _ _, .expireLot lotId accountId, d =>
    ∀ l ∈ d.lots, l.id = lotId → 0 < l.remaining → ∀ a ∈ d.accounts, a.id = accountId → l.remaining ≤ a.available
  | _, _, _ => True

instance (req : Request) (p : Point) (d : Book) : Decidable (Covered req p d) := by
  apply @Request.casesOn _ req <;> intros <;> apply @Point.casesOn _ p <;> unfold Covered <;> infer_instance

theorem ToppedUp.of_subset {a a' : Account} (hid : a'.id = a.id) (howner : a'.owner = a.owner)
    (hsub : ∀ t ∈ d.transfers, t ∈ d'.transfers) (h : ToppedUp a' d') : ToppedUp a d := by
  obtain ⟨htopup, hexpiry, hin⟩ := h
  rw [howner] at htopup hexpiry
  rw [hid] at hin
  exact ⟨htopup, hexpiry, fun t ht => hin t (hsub t ht)⟩

theorem Backed.expired (h : Backed d) (hsound : d.Sound) {lot : Lot} {source target : Account}
    (hlot : lot ∈ d.lots) (htarget : target ∈ d.accounts)
    (hid : source.id = lot.accountId) (howner : target.owner = systemExpiry)
    (hcovered : lot.remaining ≤ source.available) {d' : Book}
    (haccounts : (d'.accounts, d'.lots) = (((d.clearLot lot.id).move source.id target.id
      (min lot.remaining source.available)).accounts, (d.clearLot lot.id).lots))
    (hsub : ∀ t ∈ d.transfers, t ∈ d'.transfers) : Backed d' := by
  obtain ⟨haccounts, hlots⟩ := Prod.mk.inj haccounts
  intro a' ha' htopped
  rw [haccounts] at ha'
  obtain ⟨a, ha, rfl⟩ := mem_move.mp ha'
  have hne : a.id ≠ target.id := by
    intro heq
    rw [eq_of_key hsound.accountIds ha htarget heq] at htopped
    exact htopped.2.1 howner
  have hbefore := h a ha (htopped.of_subset rfl rfl hsub)
  have hsame : d'.lotsTotal a.id = (d.clearLot lot.id).lotsTotal a.id := by
    unfold lotsTotal
    rw [hlots]
  rw [hsame, lotsTotal_clearLot hsound hlot, hbefore, min_eq_left hcovered, if_neg hne, add_zero, ← hid]
  by_cases heq : a.id = source.id
  · rw [if_pos heq, if_pos heq.symm]
  · rw [if_neg heq, if_neg (Ne.symm heq)]

theorem Change.backed (hc : Change req p d d') (hsound : d.Sound) (hsolvent : Solvent d)
    (hreserved : Reserved d) (hcond : Covered req p d) (h : Backed d) : Backed d' := by
  have hsub := (hc.persists hsound).transfers
  -- what a hold or a debit is covered by, the lots have
  have hlots : ∀ a ∈ d.accounts, ToppedUp a d → a.held ≤ d.lotsTotal a.id ∧ a.available ≤ d.lotsTotal a.id := by
    intro a ha htopped
    have hbounds := hsolvent a ha htopped.1
    rw [h a ha htopped]
    unfold Account.available
    omega
  cases hc with
  | unchanged => exact h
  | @ensured _ _ _ a hnew _ _ hbalance =>
    refine forall_concat (fun x hx htopped => h x hx htopped) fun _ => ?_
    -- no lot can name an account that was not there
    rw [hbalance]
    refine total_eq_zero fun l hl hid => ?_
    obtain ⟨b, hb, hbid⟩ := exists_account (hsound.lots l hl).1
    have hfree := of_decide_eq_true (List.all_eq_true.mp hnew b hb)
    exact absurd (hbid.trans (of_decide_eq_true hid)) hfree.1
  | @toppedUp _ _ _ amount _ _ _ source target t l hmoves hsource _ ht hl =>
    intro a' ha' htopped
    obtain ⟨a, ha, rfl⟩ := mem_move.mp ha'
    have hne : a.id ≠ source.id := by
      intro hid
      rw [eq_of_key hsound.accountIds ha hmoves.source_mem hid] at htopped
      exact htopped.1 hsource.1
    have hbefore := h a ha (htopped.of_subset rfl rfl hsub)
    show (d.addLot l).lotsTotal a.id = _
    rw [lotsTotal_addLot, hbefore, hl.1, hl.2.2]
    rw [if_neg hne, sub_zero]
    by_cases hid : a.id = target.id
    · rw [if_pos hid, if_pos hid.symm]
    · rw [if_neg hid, if_neg (Ne.symm hid)]
  | @consumed _ _ _ amount _ _ source target t lots hmoves _ _ ht havailable hdrawn =>
    intro a' ha' htopped
    obtain ⟨a, ha, rfl⟩ := mem_move.mp ha'
    -- the credit of a consumption does not come from a top-up
    have hne : a.id ≠ target.id := by
      intro hid
      have hkind := htopped.2.2 t (mem_recorded _ t) (hmoves.to_eq.trans hid.symm)
      rw [ht.1] at hkind
      cases hkind
    have hbefore := htopped.of_subset rfl rfl hsub
    have hcovered : a.id = source.id → amount ≤ d.lotsTotal source.id := by
      intro hid
      obtain rfl := eq_of_key hsound.accountIds ha hmoves.source_mem hid
      exact havailable.trans (hlots a ha hbefore).2
    show (d.withLots lots).lotsTotal a.id = _
    rw [lotsTotal_drawn hdrawn a.id hcovered, h a ha hbefore]
    rw [if_neg hne, add_zero]
  | held | released =>
    intro a' ha' htopped
    obtain ⟨a, ha, rfl⟩ := mem_adjust.mp ha'
    rw [ite_self, add_zero]
    exact h a ha (htopped.of_subset rfl rfl hsub)
  | @captured _ _ _ x source target t lots hhold hheld hmoves hsource _ ht hdrawn =>
    intro a' ha' htopped
    obtain ⟨_, ha1, rfl⟩ := mem_adjust.mp ha'
    obtain ⟨a, ha, rfl⟩ := mem_adjust.mp ha1
    have hne : a.id ≠ target.id := by
      intro hid
      have hkind := htopped.2.2 t (mem_recorded _ t) (hmoves.to_eq.trans hid.symm)
      rw [ht.1] at hkind
      cases hkind
    have hbefore : ToppedUp a d := htopped.of_subset rfl rfl hsub
    have hcovered : a.id = source.id → x.amount ≤ d.lotsTotal source.id := by
      intro hid
      have hle := (hlots a ha hbefore).1
      rw [hreserved a ha, hid, hsource] at hle
      rw [hsource]
      exact (le_heldBy hsound hhold hheld).trans hle
    show (d.withLots lots).lotsTotal a.id = _
    rw [lotsTotal_drawn hdrawn a.id hcovered, h a ha hbefore]
    split <;> ring
  | cleared hlot hremaining haccount =>
    -- nothing was available, so the lot was not covered
    have hle := hcond _ hlot rfl hremaining _ haccount rfl
    omega
  | @expired _ _ _ lot source target t hlot hremaining hmoves hid htarget =>
    exact h.expired hsound hlot hmoves.target_mem hid htarget.1
      (hcond lot hlot rfl hremaining source hmoves.source_mem rfl) rfl hsub
  | @expiredUnrecorded _ _ _ lot source target hlot hremaining hsource htarget hid howner =>
    exact h.expired hsound hlot htarget hid howner.1 (hcond lot hlot rfl hremaining source hsource rfl) rfl hsub

/-! ## Every run -/

def SystemCredits (d : Book) : Prop :=
  ∀ t ∈ d.transfers, t.kind ≠ .topUp → ∃ a ∈ d.accounts, a.id = t.toAccount ∧ a.isSystem = true

theorem SystemCredits.persists (h : SystemCredits d) (hd : Persists d d') {t : Transfer}
    (ht : t ∈ d.transfers) (hkind : t.kind ≠ .topUp) : ∃ a ∈ d'.accounts, a.id = t.toAccount ∧ a.isSystem = true := by
  obtain ⟨a, ha, hid, hsystem⟩ := h t ht hkind
  obtain ⟨a', ha', hid', howner, -⟩ := hd.accounts a ha
  refine ⟨a', ha', hid'.trans hid, ?_⟩
  rw [Account.isSystem, howner]
  exact hsystem

theorem Change.systemCredits (hc : Change req p d d') (hsound : d.Sound) (h : SystemCredits d) :
    SystemCredits d' := by
  have hd := hc.persists hsound
  -- a transfer that was just recorded, to an account of the system
  have hnew : ∀ {target : Account} {t : Transfer}, target ∈ d.accounts → t.toAccount = target.id →
      target.isSystem = true → ∃ a ∈ d'.accounts, a.id = t.toAccount ∧ a.isSystem = true := by
    intro target t htarget hto hsystem
    obtain ⟨a', ha', hid, howner, -⟩ := hd.accounts target htarget
    refine ⟨a', ha', hid.trans hto.symm, ?_⟩
    rw [Account.isSystem, howner]
    exact hsystem
  have hold : ∀ t ∈ d.transfers, t.kind ≠ .topUp →
      ∃ a ∈ d'.accounts, a.id = t.toAccount ∧ a.isSystem = true := fun t ht => h.persists hd ht
  cases hc with
  | toppedUp _ _ _ ht => exact forall_concat hold fun hkind => absurd ht.1 hkind
  | consumed hmoves _ htarget | captured _ _ hmoves _ htarget | expired _ _ hmoves _ htarget =>
    refine forall_concat hold fun _ => hnew hmoves.target_mem hmoves.to_eq ?_
    rw [Account.isSystem, htarget.1]
    decide
  | _ => exact hold

theorem toppedUp_of_not_system (hsound : d.Sound) (h : SystemCredits d) {a : Account}
    (ha : a ∈ d.accounts) (hsystem : a.isSystem = false) : ToppedUp a d := by
  have hne : ∀ owner : String, "system:".toList.isPrefixOf owner.toList = true → a.owner ≠ owner := by
    intro owner hprefix heq
    rw [Account.isSystem, heq, hprefix] at hsystem
    cases hsystem
  refine ⟨hne systemTopup (by decide), hne systemExpiry (by decide), fun t ht hto => ?_⟩
  by_contra hkind
  obtain ⟨_, hb, hid, hb'⟩ := h t ht hkind
  rw [eq_of_key hsound.accountIds hb ha (hid.trans hto), hsystem] at hb'
  cases hb'

section

abbrev coveredSystem := system (fun _ => True) Covered

variable {c : Config Request Point Book Write (Except Error Reply)}

/-- If sweeps only expire covered lots, the remainders of the lots of an account credited by top-ups alone, as all
    but the system's are, add up to its balance. -/
theorem backed_of_reachable (hc : coveredSystem.Reachable empty c) :
    (∀ a ∈ c.db.accounts, ToppedUp a c.db → c.db.lotsTotal a.id = a.balance) ∧
    (∀ a ∈ c.db.accounts, a.isSystem = false → ToppedUp a c.db) := by
  have hsound := ((system_safe _ _).reachable contract_inv_empty hc).inv.1
  have hinv : (Solvent c.db ∧ Reserved c.db) ∧ Backed c.db ∧ SystemCredits c.db := by
    refine (system_safe _ _).invariant (P := fun d => (Solvent d ∧ Reserved d) ∧ Backed d ∧ SystemCredits d)
      contract_inv_empty ?_ ?_ hc
    · exact ⟨⟨nofun, nofun⟩, nofun, nofun⟩
    · rintro req p n d d' - hinv ⟨⟨hsolvent, hreserved⟩, hbacked, hcredits⟩ hcond hchange
      exact ⟨⟨solvent hchange hinv.1 hreserved hsolvent, reserved hchange hinv.1 hreserved⟩,
        backed hchange hinv.1 hsolvent hreserved hcond hbacked,
        systemCredits hchange hinv.1 hcredits⟩
  exact ⟨hinv.2.1, fun a ha => toppedUp_of_not_system hsound hinv.2.2 ha⟩

theorem backed_of_reachable_run : ∃ c, coveredSystem.Reachable empty c ∧ c.db.lots.map Lot.remaining = [0, 7] ∧
    ∀ a ∈ c.db.accounts, ToppedUp a c.db → c.db.lotsTotal a.id = a.balance := by
  have hplay : (coveredSystem.play (inTurn [(.topUp "credits" "ana" 10 "pay-1" (some 60) 100, 6),
        (.topUp "credits" "ana" 7 "pay-2" none 101, 4), (.consume "credits" "ana" 4 "job-1" 102, 5),
        (.sweep "credits" 200, 5)])
      { next := 0, db := empty, calls := [] }).map (fun c => c.db.lots.map Lot.remaining) =
      some [0, 7] := by decide
  obtain ⟨c, hc, hlots⟩ := System.play_reachable _ _ _ _ hplay
  exact ⟨c, hc, hlots, (backed_of_reachable hc).1⟩

/-- Part of a lot is held when it dies: the lot is emptied, the held credits stay. -/
theorem credits_outlive_lot : ∃ c, (unitSystem "credits").Reachable empty c ∧
    ∃ a ∈ c.db.accounts, ToppedUp a c.db ∧ c.db.lotsTotal a.id = 0 ∧ a.balance = 4 := by
  have hplay : ((unitSystem "credits").play (inTurn [(.topUp "credits" "ana" 10 "pay-1" (some 60) 100, 6),
        (.hold "credits" "ana" 4 "job-1" 1000 101, 3), (.sweep "credits" 200, 5)])
      { next := 0, db := empty, calls := [] }).map (fun c => decide
        (∃ a ∈ c.db.accounts, ToppedUp a c.db ∧ c.db.lotsTotal a.id = 0 ∧ a.balance = 4)) =
      some true := by decide
  obtain ⟨c, hc, hfails⟩ := System.play_reachable _ _ _ _ hplay
  exact ⟨c, hc, of_decide_eq_true hfails⟩

end

end Rustlavel.Ledger
