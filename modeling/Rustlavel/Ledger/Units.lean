/-
  Two units are two books.
-/

import Rustlavel.Ledger.Conservation

namespace Rustlavel.Ledger

open Transact Rows Book List

variable {d d' : Book} {req : Request} {p : Point} {unit : String}

/-! ## Rows of other units -/

def AccountOf (unit accountId : String) (d : Book) : Prop := ∀ a ∈ d.accounts, a.id = accountId → a.unit = unit

def OfOther (unit accountId : String) (d : Book) : Prop := ∃ a ∈ d.accounts, a.id = accountId ∧ a.unit ≠ unit

variable {accountId : String} {a : Account}

theorem AccountOf.not_other (h : AccountOf unit accountId d) : ¬ OfOther unit accountId d := by
  rintro ⟨a, ha, hid, hne⟩
  exact hne (h a ha hid)

theorem accountOf_mem (hsound : d.Sound) (ha : a ∈ d.accounts) (hunit : a.unit = unit) : AccountOf unit a.id d := by
  intro x hx hid
  rw [eq_of_key hsound.accountIds hx ha hid]
  exact hunit

theorem AccountOf.adjust (h : AccountOf unit accountId d) (i : String) (b η : Int) :
    AccountOf unit accountId (d.adjust i b η) := by
  intro a' ha' hid
  obtain ⟨a, ha, rfl⟩ := mem_adjust.mp ha'
  exact h a ha hid

structure Untouched (unit : String) (d d' : Book) : Prop where
  accounts : ∀ a, a.unit ≠ unit → (a ∈ d'.accounts ↔ a ∈ d.accounts)
  holds : ∀ h, OfOther unit h.accountId d → (h ∈ d'.holds ↔ h ∈ d.holds)
  lots : ∀ l, OfOther unit l.accountId d → (l ∈ d'.lots ↔ l ∈ d.lots)

theorem mem_adjust_other (h : AccountOf unit accountId d) (b η : Int) (a : Account)
    (hne : a.unit ≠ unit) : a ∈ (d.adjust accountId b η).accounts ↔ a ∈ d.accounts := by
  rw [adjust_accounts, mem_modify]
  constructor
  · rintro (⟨ha, -⟩ | ⟨x, hx, hid, rfl⟩)
    · exact ha
    · exact absurd (h x hx hid) hne
  · intro ha
    exact .inl ⟨ha, fun hid => hne (h a ha hid)⟩

theorem mem_move_other {source target : String} (hs : AccountOf unit source d)
    (ht : AccountOf unit target d) (amount : Int) (a : Account) (hne : a.unit ≠ unit) :
    a ∈ (d.move source target amount).accounts ↔ a ∈ d.accounts :=
  (mem_adjust_other (ht.adjust _ _ _) _ _ a hne).trans (mem_adjust_other hs _ _ a hne)

theorem mem_setHold_other (hsound : d.Sound) {x : Hold} (hx : x ∈ d.holds)
    (hunit : AccountOf unit x.accountId d) (status : HoldStatus) (h : Hold)
    (hother : OfOther unit h.accountId d) : h ∈ (d.setHold x.id status).holds ↔ h ∈ d.holds := by
  rw [setHold_holds, mem_modify]
  constructor
  · rintro (⟨hh, -⟩ | ⟨r, hr, hid, rfl⟩)
    · exact hh
    · rw [eq_of_key hsound.holdIds hr hx hid] at hother
      exact absurd hother hunit.not_other
  · intro hh
    refine .inl ⟨hh, fun hid => hunit.not_other ?_⟩
    rw [← eq_of_key hsound.holdIds hh hx hid]
    exact hother

theorem mem_clearLot_other (hsound : d.Sound) {x : Lot} (hx : x ∈ d.lots)
    (hunit : AccountOf unit x.accountId d) (l : Lot) (hother : OfOther unit l.accountId d) :
    l ∈ (d.clearLot x.id).lots ↔ l ∈ d.lots := by
  rw [clearLot_lots, mem_modify]
  constructor
  · rintro (⟨hl, -⟩ | ⟨r, hr, hid, rfl⟩)
    · exact hl
    · rw [eq_of_key hsound.lotIds hr hx hid] at hother
      exact absurd hother hunit.not_other
  · intro hl
    refine .inl ⟨hl, fun hid => hunit.not_other ?_⟩
    rw [← eq_of_key hsound.lotIds hl hx hid]
    exact hother

theorem mem_drawn_other {amount : Int} {lots : List Lot}
    (hunit : AccountOf unit accountId d) (hdrawn : Drawn accountId amount d.lots lots) (l : Lot)
    (hother : OfOther unit l.accountId d) : l ∈ lots ↔ l ∈ d.lots := by
  obtain ⟨take, rfl, -, hothers, -⟩ := hdrawn
  have hkept : ∀ x ∈ d.lots, OfOther unit x.accountId d → { x with remaining := x.remaining - take x } = x := by
    intro x hx hx'
    have hne : x.accountId ≠ accountId := fun heq => hunit.not_other (heq ▸ hx')
    rw [hothers x hx hne, sub_zero]
  constructor
  · intro hl
    obtain ⟨x, hx, rfl⟩ := mem_map.mp hl
    rw [hkept x hx hother]
    exact hx
  · intro hl
    exact mem_map.mpr ⟨l, hl, hkept l hl hother⟩

theorem mem_concat_other {R : Type} {rows : List R} {x r : R} (hne : x ≠ r) : x ∈ rows ++ [r] ↔ x ∈ rows := by
  rw [mem_append, mem_singleton]
  exact or_iff_left hne

theorem Change.untouched (hc : Change req p d d') (hsound : d.Sound) (hown : OwnUnit req p d) :
    Untouched req.unit d d' := by
  have hholds : ∀ h : Hold, OfOther req.unit h.accountId d → (h ∈ d.holds ↔ h ∈ d.holds) := fun _ _ => Iff.rfl
  have hlots : ∀ l : Lot, OfOther req.unit l.accountId d → (l ∈ d.lots ↔ l ∈ d.lots) := fun _ _ => Iff.rfl
  cases hc with
  | unchanged => exact ⟨fun _ _ => Iff.rfl, hholds, hlots⟩
  | ensured _ _ hunit =>
    exact ⟨fun x hx => mem_concat_other fun heq => hx (heq ▸ hunit), hholds, hlots⟩
  | toppedUp hmoves hsource htarget _ hl =>
    have hs := accountOf_mem hsound hmoves.source_mem hsource.2
    have ht := accountOf_mem hsound hmoves.target_mem htarget.2
    refine ⟨mem_move_other hs ht _, hholds, fun x hx => mem_concat_other fun heq => ?_⟩
    rw [heq, hl.1] at hx
    exact ht.not_other hx
  | consumed hmoves hsource htarget _ _ hdrawn =>
    have hs := accountOf_mem hsound hmoves.source_mem hsource.2
    have ht := accountOf_mem hsound hmoves.target_mem htarget.2
    exact ⟨mem_move_other hs ht _, hholds, mem_drawn_other hs hdrawn⟩
  | held haccount howner _ _ hh =>
    have ha := accountOf_mem hsound haccount howner.2
    refine ⟨mem_adjust_other ha _ _, fun x hx => mem_concat_other fun heq => ?_, hlots⟩
    rw [heq, hh.1] at hx
    exact ha.not_other hx
  | @captured unit _ _ x source target t lots hhold _ hmoves hsource htarget _ hdrawn =>
    -- the hold is of the unit by the condition, and so is the account it names
    have hx : AccountOf unit x.accountId d := fun a ha hid => hown x hhold rfl a ha hid
    have ht := accountOf_mem hsound hmoves.target_mem htarget.2
    rw [← hsource] at hx
    refine ⟨fun a ha => ?_, fun h hh => ?_, mem_drawn_other hx hdrawn⟩
    · exact (mem_adjust_other (ht.adjust _ _ _) _ _ a ha).trans (mem_adjust_other hx _ _ a ha)
    · exact mem_setHold_other hsound hhold (hsource ▸ hx) _ h hh
  | @released _ _ _ x account hreq hhold _ _ hid =>
    have hx : AccountOf req.unit x.accountId d := by
      cases hreq with
      | release | sweep => exact fun a ha hid => hown x hhold rfl a ha hid
    refine ⟨mem_adjust_other (hid ▸ hx) _ _, fun h hh => mem_setHold_other hsound hhold hx _ h hh, hlots⟩
  | @cleared unit _ _ lot account hlot _ _ hid =>
    have hx : AccountOf unit lot.accountId d := hid ▸ hown
    exact ⟨fun _ _ => Iff.rfl, hholds, mem_clearLot_other hsound hlot hx⟩
  | @expired unit _ _ lot source target t hlot _ hmoves hid htarget =>
    have hs : AccountOf unit source.id d := hown
    have ht := accountOf_mem hsound hmoves.target_mem htarget.2
    exact ⟨mem_move_other hs ht _, hholds, mem_clearLot_other hsound hlot (hid ▸ hs)⟩
  | @expiredUnrecorded unit _ _ lot source target hlot _ _ htarget hid howner =>
    have hs : AccountOf unit source.id d := hown
    have ht := accountOf_mem hsound htarget howner.2
    exact ⟨mem_move_other hs ht _, hholds, mem_clearLot_other hsound hlot (hid ▸ hs)⟩

/-! ## Transfers -/

def WithinUnits (d : Book) : Prop := ∀ t ∈ d.transfers, ∀ a ∈ d.accounts, ∀ b ∈ d.accounts,
    a.id = t.fromAccount → b.id = t.toAccount → a.unit = b.unit

instance (d : Book) : Decidable (WithinUnits d) := by
  unfold WithinUnits
  infer_instance

theorem Change.transfers (hc : Change req p d d') (hown : OwnUnit req p d) :
    d'.transfers = d.transfers ∨ ∃ source target t, Moves d source target t ∧
      source.unit = target.unit ∧ d'.transfers = d.transfers ++ [t] := by
  cases hc with
  | unchanged | ensured | held | released | cleared | expiredUnrecorded => exact .inl rfl
  | toppedUp hmoves hsource htarget | consumed hmoves hsource htarget =>
    exact .inr ⟨_, _, _, hmoves, hsource.2.trans htarget.2.symm, rfl⟩
  | captured hhold _ hmoves hsource htarget =>
    have hunit := hown _ hhold rfl _ hmoves.source_mem hsource
    exact .inr ⟨_, _, _, hmoves, hunit.trans htarget.2.symm, rfl⟩
  | expired _ _ hmoves _ htarget =>
    exact .inr ⟨_, _, _, hmoves, (hown _ hmoves.source_mem rfl).trans htarget.2.symm, rfl⟩

theorem Change.unit_of_account (hc : Change req p d d') (hsound : d.Sound)
    (ha : a ∈ d.accounts) {a' : Account} (ha' : a' ∈ d'.accounts) (hid : a'.id = a.id) : a'.unit = a.unit := by
  obtain ⟨_, hx, hxid, -, hunit⟩ := (hc.persists hsound).accounts a ha
  rw [eq_of_key (hc.sound hsound).accountIds ha' hx (hid.trans hxid.symm)]
  exact hunit

theorem Change.withinUnits (hc : Change req p d d') (hsound : d.Sound) (hown : OwnUnit req p d)
    (h : WithinUnits d) : WithinUnits d' := by
  intro t ht a' ha' b' hb' hfrom hto
  -- both accounts of the transfer were there before the step, in the same unit
  have hknown : ∃ a ∈ d.accounts, ∃ b ∈ d.accounts, a.id = t.fromAccount ∧ b.id = t.toAccount ∧ a.unit = b.unit := by
    have hold : t ∈ d.transfers → ∃ a ∈ d.accounts, ∃ b ∈ d.accounts,
        a.id = t.fromAccount ∧ b.id = t.toAccount ∧ a.unit = b.unit := by
      intro ht
      obtain ⟨hfrom, hto⟩ := hsound.transfers t ht
      obtain ⟨a, ha, haid⟩ := exists_account hfrom
      obtain ⟨b, hb, hbid⟩ := exists_account hto
      exact ⟨a, ha, b, hb, haid, hbid, h t ht a ha b hb haid hbid⟩
    rcases hc.transfers hown with heq | ⟨source, target, t1, hmoves, hunits, heq⟩
    · exact hold (heq ▸ ht)
    · rw [heq] at ht
      rcases mem_append.mp ht with ht | ht
      · exact hold ht
      · rw [mem_singleton.mp ht]
        exact ⟨source, hmoves.source_mem, target, hmoves.target_mem, hmoves.from_eq.symm, hmoves.to_eq.symm, hunits⟩
  obtain ⟨_, ha, _, hb, haid, hbid, hunits⟩ := hknown
  rw [hc.unit_of_account hsound ha ha' (hfrom.trans haid.symm),
    hc.unit_of_account hsound hb hb' (hto.trans hbid.symm)]
  exact hunits

/-! ## Every run -/

section

abbrev ownUnitSystem := system (fun _ => True) OwnUnit

variable {c : Config Request Point Book Write (Except Error Reply)}

/-- If steps stay in their own unit, the balances of every unit add up to zero, transfers are within one unit, and
    the rows of all others are left as they are. -/
theorem units_of_reachable (hc : ownUnitSystem.Reachable empty c) :
    (∀ unit, c.db.unitTotal unit = 0) ∧ WithinUnits c.db ∧
    (∀ c' i req p, ownUnitSystem.Advance i req p c c' → Untouched req.unit c.db c'.db) := by
  have hok := (system_safe _ _).reachable contract_inv_empty hc
  have hinv : (∀ unit, c.db.unitTotal unit = 0) ∧ WithinUnits c.db := by
    refine (system_safe _ _).invariant (P := fun d => (∀ unit, d.unitTotal unit = 0) ∧ WithinUnits d)
      contract_inv_empty ?_ ?_ hc
    · exact ⟨fun _ => rfl, nofun⟩
    · rintro req p n d d' - hinv ⟨hzero, hwithin⟩ hown hchange
      refine ⟨fun unit => ?_, Change.withinUnits hchange hinv.1 hown hwithin⟩
      rw [Change.unitTotal hchange hinv.1 hown unit]
      exact hzero unit
  refine ⟨hinv.1, hinv.2, fun c' i req p hadvance => ?_⟩
  obtain ⟨-, -, hown, hchange⟩ := hok.advance hadvance
  exact Change.untouched hchange hok.inv.1 hown

theorem units_of_reachable_run : ∃ c, ownUnitSystem.Reachable empty c ∧
    c.db.transfers.map Transfer.kind = [.topUp, .topUp, .capture, .expire, .consume] ∧
    c.db.unitTotal "credits" = 0 ∧ c.db.unitTotal "IDR" = 0 ∧ WithinUnits c.db := by
  have hplay : (ownUnitSystem.play (inTurn [(.topUp "credits" "ana" 10 "pay-1" (some 60) 100, 6),
        (.topUp "IDR" "ana" 500 "pay-2" none 101, 6), (.hold "credits" "ana" 3 "job-1" 60 102, 3),
        (.capture "credits" "hold_12" 103, 3), (.sweep "credits" 200, 5),
        (.consume "IDR" "ana" 20 "fee-1" 201, 5)])
      { next := 0, db := empty, calls := [] }).map (fun c => c.db.transfers.map Transfer.kind) =
      some [.topUp, .topUp, .capture, .expire, .consume] := by decide
  obtain ⟨c, hc, hkinds⟩ := System.play_reachable _ _ _ _ hplay
  obtain ⟨hzero, hwithin, -⟩ := units_of_reachable hc
  exact ⟨c, hc, hkinds, hzero "credits", hzero "IDR", hwithin⟩

/-- A sweep of one unit expires a lot of another. -/
theorem mixed_units : ∃ c, (system (fun _ => True) fun _ _ _ => True).Reachable empty c ∧
    c.db.unitTotal "credits" = -10 ∧ c.db.unitTotal "IDR" = 10 ∧ ¬ WithinUnits c.db := by
  have hplay : ((system (fun _ => True) fun _ _ _ => True).play
      (inTurn [(.topUp "credits" "ana" 10 "pay-1" (some 60) 100, 6), (.sweep "IDR" 200, 5)])
      { next := 0, db := empty, calls := [] }).map (fun c => decide
        (c.db.unitTotal "credits" = -10 ∧ c.db.unitTotal "IDR" = 10 ∧ ¬ WithinUnits c.db)) =
      some true := by decide
  obtain ⟨c, hc, hfails⟩ := System.play_reachable _ _ _ _ hplay
  exact ⟨c, hc, of_decide_eq_true hfails⟩

end

end Rustlavel.Ledger
