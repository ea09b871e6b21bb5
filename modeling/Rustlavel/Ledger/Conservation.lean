/-
  Credits are neither made nor lost.
-/

import Rustlavel.Ledger.Simulation

namespace Rustlavel.Ledger

open Transact List Book Rows Change

variable {d d' : Book} {req : Request} {p : Point} {unit : String} {h : Hold} {status : HoldStatus}

/-! ## Accounts after a write -/

namespace Book

theorem mem_adjust {accountId : String} {b η : Int} {a' : Account} :
    a' ∈ (d.adjust accountId b η).accounts ↔ ∃ a ∈ d.accounts, a' = { a with
      balance := a.balance + (if a.id = accountId then b else 0)
      held := a.held + (if a.id = accountId then η else 0) } := by
  rw [adjust_accounts, Rows.modify, mem_map]
  refine exists_congr fun a => and_congr_right fun _ => ?_
  split
  · exact eq_comm
  · rw [add_zero, add_zero]
    exact eq_comm

theorem mem_move {source target : String} {amount : Int} {a' : Account} :
    a' ∈ (d.move source target amount).accounts ↔ ∃ a ∈ d.accounts, a' = { a with
      balance := a.balance - (if a.id = source then amount else 0) + (if a.id = target then amount else 0) } := by
  constructor
  · intro ha'
    obtain ⟨_, ha1, rfl⟩ := mem_adjust.mp ha'
    obtain ⟨a, ha, rfl⟩ := mem_adjust.mp ha1
    refine ⟨a, ha, ?_⟩
    by_cases hid : a.id = source <;> simp [hid, sub_eq_add_neg]
  · rintro ⟨a, ha, rfl⟩
    refine mem_adjust.mpr ⟨_, mem_adjust.mpr ⟨a, ha, rfl⟩, ?_⟩
    by_cases hid : a.id = source <;> simp [hid, sub_eq_add_neg]

def heldBy (accountId : String) (d : Book) : Int :=
  total (fun h => h.accountId = accountId ∧ h.status = .held) Hold.amount d.holds

theorem heldBy_setHold (hsound : d.Sound) (hh : h ∈ d.holds) (hheld : h.status = .held)
    (hstatus : status ≠ .held) (accountId : String) : (d.setHold h.id status).heldBy accountId =
      d.heldBy accountId - if h.accountId = accountId then h.amount else 0 := by
  unfold heldBy
  rw [setHold_holds, total_modify hsound.holdIds hh]
  by_cases hid : h.accountId = accountId <;> simp [hid, hheld, hstatus, sub_eq_add_neg]

theorem heldBy_addHold (d : Book) (hheld : h.status = .held) (accountId : String) :
    (d.addHold h).heldBy accountId = d.heldBy accountId + if h.accountId = accountId then h.amount else 0 := by
  unfold heldBy
  rw [addHold_holds, total_concat]
  by_cases hid : h.accountId = accountId
  · rw [if_pos hid, if_pos (decide_eq_true ⟨hid, hheld⟩)]
  · rw [if_neg hid, if_neg fun hcond => hid (of_decide_eq_true hcond).1]

theorem le_heldBy (hsound : d.Sound) (hh : h ∈ d.holds) (hheld : h.status = .held) :
    h.amount ≤ d.heldBy h.accountId :=
  le_total (fun x hx _ => le_of_lt (hsound.holds x hx).2) hh (by simp [hheld])

def unitTotal (unit : String) (d : Book) : Int := total (fun a => a.unit = unit) Account.balance d.accounts

theorem unitTotal_adjust (hsound : d.Sound) {a : Account} (ha : a ∈ d.accounts) (b η : Int) (unit : String) :
    (d.adjust a.id b η).unitTotal unit = d.unitTotal unit + if a.unit = unit then b else 0 := by
  unfold unitTotal
  rw [adjust_accounts, total_modify hsound.accountIds ha]
  by_cases hu : a.unit = unit <;> simp [hu]

theorem unitTotal_debit_credit (hsound : d.Sound) {source target : Account} (hs : source ∈ d.accounts)
    (ht : target ∈ d.accounts) (hunits : source.unit = target.unit) (amount η : Int) (unit : String) :
    ((d.adjust source.id (-amount) η).adjust target.id amount 0).unitTotal unit = d.unitTotal unit := by
  obtain ⟨_, htarget, hid, -, hunit⟩ := ((Persists.refl d).adjust source.id (-amount) η).accounts target ht
  rw [← hid, unitTotal_adjust (hsound.adjust source.id (-amount) η) htarget,
    unitTotal_adjust hsound hs, hunit, hunits]
  by_cases hu : target.unit = unit <;> simp [hu]

end Book

/-! ## Solvency -/

/-- No account but `system:topup` has less than is reserved on it. -/
def Solvent (d : Book) : Prop := ∀ a ∈ d.accounts, a.owner ≠ systemTopup → 0 ≤ a.held ∧ a.held ≤ a.balance

def Reserved (d : Book) : Prop := ∀ a ∈ d.accounts, a.held = d.heldBy a.id

theorem Solvent.move (h : Solvent d) (hsound : d.Sound) {source : Account} (hs : source ∈ d.accounts)
    {amount : Int} (hpos : 0 ≤ amount)
    (hcovered : source.owner = systemTopup ∨ amount ≤ source.available) (target : String) :
    Solvent (d.move source.id target amount) := by
  intro a' ha' howner
  obtain ⟨a, ha, rfl⟩ := mem_move.mp ha'
  have hsolvent := h a ha howner
  by_cases hid : a.id = source.id
  · obtain rfl := eq_of_key hsound.accountIds ha hs hid
    rcases hcovered with hsystem | hcovered
    · exact absurd hsystem howner
    · unfold Account.available at hcovered
      refine ⟨hsolvent.1, ?_⟩
      dsimp only
      split <;> omega
  · refine ⟨hsolvent.1, ?_⟩
    dsimp only
    rw [if_neg hid]
    split <;> omega

theorem Change.solvent (hc : Change req p d d') (hsound : d.Sound) (hreserved : Reserved d)
    (h : Solvent d) : Solvent d' := by
  -- a hold is one of those that make up what is reserved
  have hcovered : ∀ {x : Hold}, x ∈ d.holds → x.status = .held → ∀ {a}, a ∈ d.accounts → a.id = x.accountId →
      x.amount ≤ a.held := by
    intro x hhold hheld a ha hid
    rw [hreserved a ha, hid]
    exact le_heldBy hsound hhold hheld
  cases hc with
  | unchanged | cleared => exact h
  | ensured _ _ _ hbalance hheld =>
    refine forall_concat h fun _ => ?_
    rw [hbalance, hheld]
    exact ⟨le_refl 0, le_refl 0⟩
  | toppedUp hmoves hsource _ ht =>
    exact h.move hsound hmoves.source_mem (ht.2.2 ▸ le_of_lt hmoves.pos) (.inl hsource.1) _
  | consumed hmoves _ _ ht havailable =>
    exact h.move hsound hmoves.source_mem (ht.2.2 ▸ le_of_lt hmoves.pos) (.inr havailable) _
  | @held unit owner reference amount ttl now _ account x haccount _ hpos havailable =>
    intro a' ha' howner
    obtain ⟨a, ha, rfl⟩ := mem_adjust.mp ha'
    have hsolvent := h a ha howner
    dsimp only
    rw [ite_self, add_zero]
    by_cases hid : a.id = account.id
    · obtain rfl := eq_of_key hsound.accountIds ha haccount hid
      unfold Account.available at havailable
      omega
    · rw [if_neg hid, add_zero]
      exact hsolvent
  | @captured unit now _ x source target t lots hhold hheld hmoves hsource =>
    intro a' ha' howner
    obtain ⟨_, ha1, rfl⟩ := mem_adjust.mp ha'
    obtain ⟨a, ha, rfl⟩ := mem_adjust.mp ha1
    have hsolvent := h a ha howner
    have hpos := (hsound.holds x hhold).2
    dsimp only
    rw [ite_self, add_zero, hsource]
    by_cases hid : a.id = x.accountId
    · have hle := hcovered hhold hheld ha hid
      split <;> omega
    · rw [if_neg hid]
      split <;> omega
  | @released _ _ _ x account _ hhold hheld haccount hid =>
    intro a' ha' howner
    obtain ⟨a, ha, rfl⟩ := mem_adjust.mp ha'
    have hsolvent := h a ha howner
    have hpos := (hsound.holds x hhold).2
    dsimp only
    rw [ite_self, add_zero, hid]
    by_cases hid : a.id = x.accountId
    · have hle := hcovered hhold hheld ha hid
      omega
    · rw [if_neg hid]
      omega
  | expired _ _ hmoves _ _ ht =>
    exact h.move hsound hmoves.source_mem (ht.2.2 ▸ le_of_lt hmoves.pos) (.inr (min_le_right _ _)) _
  | expiredUnrecorded _ hremaining hsource =>
    exact h.move hsound hsource (by omega) (.inr (min_le_right _ _)) _

theorem Reserved.move (h : Reserved d) (source target : String) (amount : Int) :
    Reserved (d.move source target amount) := by
  intro a' ha'
  obtain ⟨a, ha, rfl⟩ := mem_move.mp ha'
  exact h a ha

theorem Change.reserved (hc : Change req p d d') (hsound : d.Sound) (h : Reserved d) : Reserved d' := by
  cases hc with
  | unchanged | cleared => exact h
  | @ensured _ _ _ a hnew _ _ _ hheld =>
    refine forall_concat h ?_
    -- no hold can name an account that was not there
    rw [hheld]
    refine (total_eq_zero fun x hx hcond => ?_).symm
    obtain ⟨b, hb, hbid⟩ := exists_account (hsound.holds x hx).1
    have hfree := of_decide_eq_true (all_eq_true.mp hnew b hb)
    exact absurd (hbid.trans (of_decide_eq_true hcond).1) hfree.1
  | toppedUp | consumed | expired | expiredUnrecorded => exact h.move _ _ _
  | @held unit owner reference amount ttl now _ account x _ _ _ _ hx =>
    intro a' ha'
    obtain ⟨a, ha, rfl⟩ := mem_adjust.mp ha'
    show a.held + _ = (d.addHold x).heldBy a.id
    rw [heldBy_addHold d hx.2.2, h a ha, hx.1, hx.2.1]
    by_cases hid : a.id = account.id
    · rw [if_pos hid, if_pos hid.symm]
    · rw [if_neg hid, if_neg (Ne.symm hid)]
  | @captured unit now _ x source target t lots hhold hheld hmoves hsource =>
    intro a' ha'
    obtain ⟨_, ha1, rfl⟩ := mem_adjust.mp ha'
    obtain ⟨a, ha, rfl⟩ := mem_adjust.mp ha1
    show a.held + _ + _ = (d.setHold x.id .captured).heldBy a.id
    rw [heldBy_setHold hsound hhold hheld (by decide), h a ha, hsource]
    by_cases hid : a.id = x.accountId <;> simp [hid, eq_comm, sub_eq_add_neg]
  | @released _ _ _ x account _ hhold hheld _ haccount =>
    intro a' ha'
    obtain ⟨a, ha, rfl⟩ := mem_adjust.mp ha'
    show a.held + _ = (d.setHold x.id .released).heldBy a.id
    rw [heldBy_setHold hsound hhold hheld (by decide), h a ha, haccount]
    by_cases hid : a.id = x.accountId <;> simp [hid, eq_comm, sub_eq_add_neg]

/-! ## The sum of a unit -/

def HoldOfUnit (unit holdId : String) (d : Book) : Prop :=
  ∀ h ∈ d.holds, h.id = holdId → ∀ a ∈ d.accounts, a.id = h.accountId → a.unit = unit

def OwnUnit : Request → Point → Book → Prop
  | .capture unit holdId _, .main, d => HoldOfUnit unit holdId d
  | .release unit holdId, .main, d => HoldOfUnit unit holdId d
  | .sweep unit _, .releaseStale holdId, d => HoldOfUnit unit holdId d
  | .sweep unit _, .expireLot _ accountId, d => ∀ a ∈ d.accounts, a.id = accountId → a.unit = unit
  | _, _, _ => True

instance (unit holdId : String) (d : Book) : Decidable (HoldOfUnit unit holdId d) := by
  unfold HoldOfUnit
  infer_instance

instance (req : Request) (p : Point) (d : Book) : Decidable (OwnUnit req p d) := by
  unfold OwnUnit
  split <;> infer_instance

theorem Change.unitTotal (hc : Change req p d d') (hsound : d.Sound) (hown : OwnUnit req p d)
    (unit : String) : d'.unitTotal unit = d.unitTotal unit := by
  cases hc with
  | unchanged | cleared => rfl
  | ensured _ _ _ hbalance =>
    unfold unitTotal
    rw [addAccount_accounts, total_concat, hbalance, ite_self, add_zero]
  | toppedUp hmoves hsource htarget | consumed hmoves hsource htarget =>
    exact unitTotal_debit_credit hsound hmoves.source_mem hmoves.target_mem
      (hsource.2.trans htarget.2.symm) _ _ _
  | held haccount =>
    refine (unitTotal_adjust hsound haccount _ _ _).trans ?_
    rw [ite_self, add_zero]
  | captured hhold _ hmoves hsource htarget =>
    have hunit := hown _ hhold rfl _ hmoves.source_mem hsource
    exact unitTotal_debit_credit (hsound.setHold _ _) hmoves.source_mem hmoves.target_mem
      (hunit.trans htarget.2.symm) _ _ _
  | released _ _ _ haccount =>
    refine (unitTotal_adjust (hsound.setHold _ _) haccount _ _ _).trans ?_
    rw [ite_self, add_zero]
    rfl
  | expired _ _ hmoves _ htarget =>
    exact unitTotal_debit_credit (hsound.clearLot _) hmoves.source_mem hmoves.target_mem
      ((hown _ hmoves.source_mem rfl).trans htarget.2.symm) _ _ _
  | expiredUnrecorded _ _ hsource htarget _ howner =>
    exact unitTotal_debit_credit (hsound.clearLot _) hsource htarget
      ((hown _ hsource rfl).trans howner.2.symm) _ _ _

theorem ownUnit_of_one_unit (hreq : req.unit = unit)
    (hunits : ∀ a ∈ d.accounts, a.unit = unit) : OwnUnit req p d := by
  have hholds : ∀ holdId, HoldOfUnit unit holdId d := fun _ _ _ _ a ha _ => hunits a ha
  subst hreq
  cases req with
  | capture _ holdId | release _ holdId => cases p <;> first | exact hholds holdId | trivial
  | sweep =>
    cases p with
    | releaseStale holdId => exact hholds holdId
    | expireLot => exact fun a ha _ => hunits a ha
    | _ => trivial
  | _ => cases p <;> trivial

theorem Change.one_unit (hc : Change req p d d') (hreq : req.unit = unit)
    (h : ∀ a ∈ d.accounts, a.unit = unit) : ∀ a ∈ d'.accounts, a.unit = unit := by
  have hadjust : ∀ {e : Book} {i : String} {b η : Int}, (∀ a ∈ e.accounts, a.unit = unit) →
      ∀ a ∈ (e.adjust i b η).accounts, a.unit = unit :=
    fun he => forall_modify he fun a ha _ => he a ha
  cases hc with
  | unchanged | cleared => exact h
  | ensured _ _ hunit => exact forall_concat h (hunit.trans hreq)
  | toppedUp | consumed | captured | expired | expiredUnrecorded => exact hadjust (hadjust h)
  | held | released => exact hadjust h

/-! ## Settling a hold -/

/-- A step that settles a hold debits its account by the hold's amount if it is
    captured, and by nothing if it is released. -/
structure Settles (d d' : Book) : Prop where
  captured : ∀ h ∈ d.holds, h.status = .held → { h with status := .captured } ∈ d'.holds →
    ∀ a ∈ d.accounts, a.id = h.accountId → { a with
        balance := a.balance - h.amount + (if a.owner = systemConsumption then h.amount else 0)
        held := a.held - h.amount } ∈ d'.accounts
  released : ∀ h ∈ d.holds, h.status = .held → { h with status := .released } ∈ d'.holds →
    ∀ a ∈ d.accounts, a.id = h.accountId → { a with held := a.held - h.amount } ∈ d'.accounts

theorem not_mem_settled (hsound : d.Sound) (hh : h ∈ d.holds) (hheld : h.status = .held)
    (hstatus : status ≠ .held) : { h with status := status } ∉ d.holds := by
  intro hmem
  have heq := eq_of_key hsound.holdIds hmem hh rfl
  exact hstatus ((congrArg Hold.status heq).trans hheld)

theorem Settles.of_holds (hsound : d.Sound) (hholds : d'.holds = d.holds) : Settles d d' where
  captured h hh hheld hmem := absurd (hholds ▸ hmem) (not_mem_settled hsound hh hheld (by decide))
  released h hh hheld hmem := absurd (hholds ▸ hmem) (not_mem_settled hsound hh hheld (by decide))

theorem eq_of_mem_setHold (hsound : d.Sound) {h x : Hold} (hh : h ∈ d.holds) (hheld : h.status = .held)
    (hx : x ∈ d.holds) {status status' : HoldStatus} (hstatus : status ≠ .held)
    (hmem : { h with status := status } ∈ (d.setHold x.id status').holds) :
    h = x ∧ status = status' := by
  rcases mem_modify.mp hmem with ⟨hold, -⟩ | ⟨r, hr, hid, heq⟩
  · exact absurd hold (not_mem_settled hsound hh hheld hstatus)
  · obtain ⟨hrid, -, -, hrstatus, -⟩ := Hold.mk.inj heq
    exact ⟨eq_of_key hsound.holdIds hh hx (hrid.trans hid), hrstatus⟩

theorem Change.settles (hc : Change req p d d') (hsound : d.Sound)
    (hreq : req.unit = unit) (hunits : ∀ a ∈ d.accounts, a.unit = unit) : Settles d d' := by
  cases hc with
  | @held _ _ _ _ _ _ _ account x _ _ _ _ _ hnew =>
    -- a new hold has an id of its own
    have hne : ∀ {h : Hold} {status : HoldStatus}, h ∈ d.holds → h.status = .held → status ≠ .held →
        { h with status := status } ∉ d.holds ++ [x] := by
      intro h status hh hheld hstatus hmem
      rcases mem_append.mp hmem with hmem | hmem
      · exact not_mem_settled hsound hh hheld hstatus hmem
      · have hfree := of_decide_eq_true (all_eq_true.mp hnew h hh)
        rw [← mem_singleton.mp hmem] at hfree
        exact hfree.1 rfl
    exact ⟨fun h hh hheld hmem => absurd hmem (hne hh hheld (by decide)),
      fun h hh hheld hmem => absurd hmem (hne hh hheld (by decide))⟩
  | @captured _ now _ x source target t lots hhold _ hmoves hsource htarget =>
    refine ⟨fun h hh hheld hmem a ha hid => ?_, fun h hh hheld hmem => ?_⟩
    · obtain ⟨rfl, -⟩ := eq_of_mem_setHold hsound hh hheld hhold (by decide) hmem
      obtain rfl := eq_of_key hsound.accountIds ha hmoves.source_mem (hid.trans hsource.symm)
      -- the credit goes to the same account exactly if that is the consumption account
      have htarget' : a.id = target.id ↔ a.owner = systemConsumption := by
        refine ⟨fun h => ?_, fun h => ?_⟩
        · rw [eq_of_key hsound.accountIds ha hmoves.target_mem h]
          exact htarget.1
        · have hkey : (a.owner, a.unit) = (target.owner, target.unit) := by
            rw [h, htarget.1, hunits a ha, hunits target hmoves.target_mem]
          rw [eq_of_key hsound.owners ha hmoves.target_mem hkey]
      refine mem_adjust.mpr ⟨_, mem_adjust.mpr ⟨a, ha, rfl⟩, ?_⟩
      by_cases howner : a.owner = systemConsumption
      · simp [howner, htarget'.mpr howner, sub_eq_add_neg]
      · simp [howner, mt htarget'.mp howner, sub_eq_add_neg]
    · exact absurd (eq_of_mem_setHold hsound hh hheld hhold (by decide) hmem).2 (by decide)
  | @released _ _ _ x account _ hhold _ haccount hid' =>
    refine ⟨fun h hh hheld hmem => ?_, fun h hh hheld hmem a ha hid => ?_⟩
    · exact absurd (eq_of_mem_setHold hsound hh hheld hhold (by decide) hmem).2 (by decide)
    · obtain ⟨rfl, -⟩ := eq_of_mem_setHold hsound hh hheld hhold (by decide) hmem
      obtain rfl := eq_of_key hsound.accountIds ha haccount (hid.trans hid'.symm)
      refine mem_adjust.mpr ⟨a, ha, ?_⟩
      simp [sub_eq_add_neg]
  | _ => exact .of_holds hsound rfl

/-! ## Every run -/

structure Conserves (unit : String) (d : Book) : Prop where
  zero : d.unitTotal unit = 0
  solvent : ∀ a ∈ d.accounts, a.isSystem = false → 0 ≤ a.held ∧ a.held ≤ a.balance
  reserved : ∀ a ∈ d.accounts, a.held = d.heldBy a.id

abbrev unitSystem (unit : String) := system (fun req => req.unit = unit) fun _ _ _ => True

section

variable {allowed : Request → Prop} {cond : Request → Point → Book → Prop}
  {c : Config Request Point Book Write (Except Error Reply)}

theorem solvent_of_reachable (hc : (system allowed cond).Reachable empty c) : Solvent c.db ∧ Reserved c.db := by
  refine (system_safe _ _).invariant (P := fun d => Solvent d ∧ Reserved d) contract_inv_empty ?_ ?_ hc
  · exact ⟨nofun, nofun⟩
  · rintro req p n d d' - hinv ⟨hsolvent, hreserved⟩ - hchange
    exact ⟨solvent hchange hinv.1 hreserved hsolvent, reserved hchange hinv.1 hreserved⟩

theorem unitTotal_of_reachable (hallowed : ∀ req, allowed req → req.unit = unit)
    (hc : (system allowed cond).Reachable empty c) :
    (∀ a ∈ c.db.accounts, a.unit = unit) ∧ c.db.unitTotal unit = 0 := by
  refine (system_safe _ _).invariant (P := fun d => (∀ a ∈ d.accounts, a.unit = unit) ∧ d.unitTotal unit = 0)
    contract_inv_empty ?_ ?_ hc
  · exact ⟨nofun, rfl⟩
  · rintro req p n d d' hreq hinv ⟨hunits, hzero⟩ - hchange
    have hown : OwnUnit req p d := ownUnit_of_one_unit (hallowed req hreq) hunits
    exact ⟨one_unit hchange (hallowed req hreq) hunits,
      (unitTotal hchange hinv.1 hown unit).trans hzero⟩

theorem Solvent.of_not_system (h : Solvent d) {a : Account} (ha : a ∈ d.accounts)
    (hsystem : a.isSystem = false) : 0 ≤ a.held ∧ a.held ≤ a.balance := by
  refine h a ha fun howner => ?_
  -- `system:topup` is a system account
  rw [Account.isSystem, howner] at hsystem
  exact absurd hsystem (by decide)

/-- In every state that calls can reach, balances add up to zero, no owner has less than is reserved, and the open
    holds say what is; a hold is settled once, as `Settles` says. -/
theorem conserves_of_reachable (unit : String) (hc : (unitSystem unit).Reachable empty c) : Conserves unit c.db ∧
    (∀ c', (unitSystem unit).Step c c' → Settles c.db c'.db) ∧
    (∀ c', (unitSystem unit).Run c c' → ∀ h ∈ c.db.holds, h.status ≠ .held → h ∈ c'.db.holds) := by
  have hok := (system_safe _ _).reachable contract_inv_empty hc
  obtain ⟨hsolvent, hreserved⟩ := solvent_of_reachable hc
  obtain ⟨hunits, hzero⟩ := unitTotal_of_reachable (fun _ hreq => hreq) hc
  refine ⟨⟨hzero, fun a ha => hsolvent.of_not_system ha, hreserved⟩, fun c' hstep => ?_,
    fun c' hrun h hh hstatus => ?_⟩
  · rcases ((system_safe _ _).step hok hstep).2 with heq | ⟨req, p, hreq, -, hchange⟩
    · exact .of_holds hok.inv.1 (congrArg holds heq)
    · exact settles hchange hok.inv.1 hreq hunits
  · obtain ⟨_, hmem, hkeep⟩ := ((system_safe _ _).rely hok hrun).holds h hh
    rw [hkeep hstatus] at hmem
    exact hmem

theorem conserves_of_reachable_run : ∃ c, (unitSystem "credits").Reachable empty c ∧
    c.db.holds.map Hold.status = [.captured, .released] ∧ Conserves "credits" c.db := by
  have hplay : ((unitSystem "credits").play (inTurn [(.topUp "credits" "ana" 10 "pay-1" none 100, 6),
        (.hold "credits" "ana" 4 "job-1" 60 101, 3), (.hold "credits" "ana" 5 "job-2" 60 102, 3),
        (.capture "credits" "hold_6" 103, 3), (.release "credits" "hold_7", 1)])
      { next := 0, db := empty, calls := [] }).map (fun c => c.db.holds.map Hold.status) =
      some [.captured, .released] := by decide
  obtain ⟨c, hc, hholds⟩ := (unitSystem "credits").play_reachable _ _ _ hplay
  exact ⟨c, hc, hholds, (conserves_of_reachable "credits" hc).1⟩

/-- However calls interleave, nothing recorded is taken back. -/
theorem book_persists (hc : (system allowed cond).Reachable empty c) :
    ∀ c', (system allowed cond).Run c c' → c'.db.Sound ∧ Persists c.db c'.db := by
  intro c' hrun
  have hok := (system_safe _ _).reachable contract_inv_empty hc
  exact ⟨((system_safe _ _).run hok hrun).inv.1, (system_safe _ _).rely hok hrun⟩

theorem book_persists_topUp : ∃ c, (unitSystem "u").Reachable empty c ∧ c.db.lots.length = 1 ∧ c.db.Sound := by
  obtain ⟨c, hc, h⟩ := (unitSystem "u").play_reachable (inTurn [(.topUp "u" "ana" 9 "pay" (some 60) 0, 6)]) empty
    (·.db.lots.length) (v := 1) (by decide)
  exact ⟨c, hc, h, (book_persists hc c .refl).1⟩

end

end Rustlavel.Ledger
