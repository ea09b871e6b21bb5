/-
  What one transaction of the ledger can do to its tables.
-/

import Rustlavel.Ledger.Operations

namespace Rustlavel.Ledger

open List Rows Book

/-! ## Compound writes -/

namespace Book

def move (d : Book) (source target : String) (amount : Int) : Book :=
  (d.adjust source (-amount) 0).adjust target amount 0

@[simps] def withLots (d : Book) (lots : List Lot) : Book := { d with lots := lots }

def balance (accountId : String) (d : Book) : Int := ((d.accountById accountId).map Account.balance).getD 0

end Book

@[simps] def Transfer.entry (t : Transfer) (accountId : String) (signed balanceAfter : Int) : Entry :=
  { transferId := t.id, accountId := accountId, amount := signed, balanceAfter := balanceAfter
    kind := t.kind, reference := t.reference, createdAt := t.createdAt }

@[simps!] def Book.recorded (d : Book) (t : Transfer) : Book := ((d.addTransfer t).addEntry
    (t.entry t.fromAccount (-t.amount) (d.balance t.fromAccount))).addEntry
    (t.entry t.toAccount t.amount (d.balance t.toAccount))

/-- An account's lots after `amount` was drawn: no more than is left of any, nothing of others', and in all the
    amount or everything. -/
def Drawn (accountId : String) (amount : Int) (lots lots' : List Lot) : Prop := ∃ take : Lot → Int,
    lots' = lots.map (fun l => { l with remaining := l.remaining - take l }) ∧
    (∀ l ∈ lots, 0 ≤ take l ∧ take l ≤ l.remaining) ∧
    (∀ l ∈ lots, l.accountId ≠ accountId → take l = 0) ∧
    total (fun l => l.accountId = accountId) take lots =
      min amount (total (fun l => l.accountId = accountId) Lot.remaining lots)

/-! ## Changes -/

structure Moves (d : Book) (source target : Account) (t : Transfer) : Prop where
  source_mem : source ∈ d.accounts
  target_mem : target ∈ d.accounts
  from_eq : t.fromAccount = source.id
  to_eq : t.toAccount = target.id
  pos : 0 < t.amount
  new : d.accepts (.newTransfer t) = true

inductive Releases : Request → Point → String → Prop where
  | release (unit holdId : String) : Releases (.release unit holdId) .main holdId
  | sweep (unit : String) (now : Nat) (holdId : String) : Releases (.sweep unit now) (.releaseStale holdId) holdId

inductive Change : Request → Point → Book → Book → Prop where
  | unchanged (req : Request) (p : Point) (d : Book) : Change req p d d
  | ensured {req : Request} {owner : String} {d : Book} {a : Account}
      (hnew : d.accepts (.newAccount a) = true) (howner : a.owner = owner) (hunit : a.unit = req.unit)
      (hbalance : a.balance = 0) (hheld : a.held = 0) :
      Change req (.ensureAccount owner) d (d.addAccount a)
  | toppedUp {unit owner reference : String} {amount : Int} {expiresIn : Option Nat} {now : Nat}
      {d : Book} {source target : Account} {t : Transfer} {l : Lot}
      (hmoves : Moves d source target t)
      (hsource : source.owner = systemTopup ∧ source.unit = unit)
      (htarget : target.owner = owner ∧ target.unit = unit)
      (ht : t.kind = .topUp ∧ t.reference = reference ∧ t.amount = amount)
      (hl : l.accountId = target.id ∧ l.initial = amount ∧ l.remaining = amount)
      (hlot : d.accepts (.newLot l) = true) :
      Change (.topUp unit owner amount reference expiresIn now) .main d
        (((d.move source.id target.id amount).recorded t).addLot l)
  | consumed {unit owner reference : String} {amount : Int} {now : Nat}
      {d : Book} {source target : Account} {t : Transfer} {lots : List Lot}
      (hmoves : Moves d source target t)
      (hsource : source.owner = owner ∧ source.unit = unit)
      (htarget : target.owner = systemConsumption ∧ target.unit = unit)
      (ht : t.kind = .consume ∧ t.reference = reference ∧ t.amount = amount)
      (havailable : amount ≤ source.available)
      (hdrawn : Drawn source.id amount d.lots lots) :
      Change (.consume unit owner amount reference now) .main d
        (((d.move source.id target.id amount).withLots lots).recorded t)
  | held {unit owner reference : String} {amount : Int} {ttl now : Nat} {d : Book} {account : Account} {h : Hold}
      (haccount : account ∈ d.accounts) (howner : account.owner = owner ∧ account.unit = unit)
      (hpos : 0 < amount) (havailable : amount ≤ account.available)
      (hh : h.accountId = account.id ∧ h.amount = amount ∧ h.status = .held)
      (hnew : d.accepts (.newHold h) = true) :
      Change (.hold unit owner amount reference ttl now) .main d ((d.adjust account.id 0 amount).addHold h)
  | captured {unit : String} {now : Nat} {d : Book} {h : Hold} {source target : Account} {t : Transfer}
      {lots : List Lot}
      (hhold : h ∈ d.holds) (hheld : h.status = .held)
      (hmoves : Moves d source target t) (hsource : source.id = h.accountId)
      (htarget : target.owner = systemConsumption ∧ target.unit = unit)
      (ht : t.kind = .capture ∧ t.reference = "capture:" ++ h.reference ∧ t.amount = h.amount)
      (hdrawn : Drawn source.id h.amount d.lots lots) :
      Change (.capture unit h.id now) .main d
        (((((d.setHold h.id .captured).adjust source.id (-h.amount) (-h.amount)).adjust
          target.id h.amount 0).withLots lots).recorded t)
  | released {req : Request} {p : Point} {d : Book} {h : Hold} {account : Account}
      (hreq : Releases req p h.id) (hhold : h ∈ d.holds) (hheld : h.status = .held)
      (haccount : account ∈ d.accounts) (hid : account.id = h.accountId) :
      Change req p d ((d.setHold h.id .released).adjust account.id 0 (-h.amount))
  | cleared {unit : String} {now : Nat} {d : Book} {lot : Lot} {account : Account}
      (hlot : lot ∈ d.lots) (hremaining : 0 < lot.remaining)
      (haccount : account ∈ d.accounts) (hid : account.id = lot.accountId)
      (hnone : account.available ≤ 0) :
      Change (.sweep unit now) (.expireLot lot.id account.id) d (d.clearLot lot.id)
  | expired {unit : String} {now : Nat} {d : Book} {lot : Lot} {source target : Account} {t : Transfer}
      (hlot : lot ∈ d.lots) (hremaining : 0 < lot.remaining)
      (hmoves : Moves d source target t) (hid : source.id = lot.accountId)
      (htarget : target.owner = systemExpiry ∧ target.unit = unit)
      (ht : t.kind = .expire ∧ t.reference = "expire:" ++ lot.id ∧ t.amount = min lot.remaining source.available) :
      Change (.sweep unit now) (.expireLot lot.id source.id) d
        (((d.clearLot lot.id).move source.id target.id (min lot.remaining source.available)).recorded t)
  | expiredUnrecorded {unit : String} {now : Nat} {d : Book} {lot : Lot} {source target : Account}
      (hlot : lot ∈ d.lots) (hremaining : 0 < lot.remaining)
      (hsource : source ∈ d.accounts) (htarget : target ∈ d.accounts) (hid : source.id = lot.accountId)
      (howner : target.owner = systemExpiry ∧ target.unit = unit)
      (havailable : 0 < source.available)
      (htaken : ∃ t ∈ d.transfers, t.reference = "expire:" ++ lot.id) :
      Change (.sweep unit now) (.expireLot lot.id source.id) d
        ((d.clearLot lot.id).move source.id target.id (min lot.remaining source.available))

/-! ## What the rows keep -/

variable {accountId : String} {lots : List Lot}

namespace Book

def accountIds (d : Book) : List String := d.accounts.map Account.id

/-- The unique indexes hold, every row names an account that is there, and no hold or lot has a nonsensical amount. -/
structure Sound (d : Book) : Prop where
  accountIds : d.accountIds.Nodup
  owners : (d.accounts.map fun a => (a.owner, a.unit)).Nodup
  references : (d.transfers.map Transfer.reference).Nodup
  transfers : ∀ t ∈ d.transfers, t.fromAccount ∈ d.accountIds ∧ t.toAccount ∈ d.accountIds
  entries : ∀ e ∈ d.entries, e.accountId ∈ d.accountIds
  holdIds : (d.holds.map Hold.id).Nodup
  holds : ∀ h ∈ d.holds, h.accountId ∈ d.accountIds ∧ 0 < h.amount
  lotIds : (d.lots.map Lot.id).Nodup
  lots : ∀ l ∈ d.lots, l.accountId ∈ d.accountIds ∧ 0 ≤ l.remaining

/-- Every transfer's id was drawn before `n`. -/
def Fresh (n : Nat) (d : Book) : Prop := ∀ t ∈ d.transfers, ∃ m < n, t.id = id "tr" m

theorem sound_empty : Sound empty := by
  constructor <;> simp [empty, accountIds]

@[simp] theorem accountIds_adjust (d : Book) (accountId : String) (b h : Int) :
    (d.adjust accountId b h).accountIds = d.accountIds :=
  map_modify fun _ => rfl

@[simp] theorem accountIds_move (d : Book) (source target : String) (amount : Int) :
    (d.move source target amount).accountIds = d.accountIds := by
  rw [move, accountIds_adjust, accountIds_adjust]

@[simp] theorem accountIds_setHold (d : Book) (holdId : String) (status : HoldStatus) :
    (d.setHold holdId status).accountIds = d.accountIds := rfl

@[simp] theorem accountIds_clearLot (d : Book) (lotId : String) : (d.clearLot lotId).accountIds = d.accountIds := rfl

@[simp] theorem accountIds_withLots (d : Book) (lots : List Lot) : (d.withLots lots).accountIds = d.accountIds := rfl

@[simp] theorem accountIds_recorded (d : Book) (t : Transfer) : (d.recorded t).accountIds = d.accountIds := rfl

theorem mem_accountIds {d : Book} {a : Account} (h : a ∈ d.accounts) : a.id ∈ d.accountIds := mem_map_of_mem h

namespace Sound

variable {d : Book}

theorem adjust (h : d.Sound) (accountId : String) (b η : Int) : (d.adjust accountId b η).Sound where
  accountIds := by simpa using h.accountIds
  owners := nodup_modify h.owners fun _ => rfl
  references := h.references
  transfers := by simpa using h.transfers
  entries := by simpa using h.entries
  holdIds := h.holdIds
  holds := by simpa using h.holds
  lotIds := h.lotIds
  lots := by simpa using h.lots

theorem move (h : d.Sound) (source target : String) (amount : Int) :
    (d.move source target amount).Sound := (h.adjust source _ _).adjust target _ _

theorem setHold (h : d.Sound) (holdId : String) (status : HoldStatus) : (d.setHold holdId status).Sound where
  __ := h
  holdIds := nodup_modify h.holdIds fun _ => rfl
  holds := forall_modify h.holds fun x hx _ => h.holds x hx

theorem clearLot (h : d.Sound) (lotId : String) : (d.clearLot lotId).Sound where
  __ := h
  lotIds := nodup_modify h.lotIds fun _ => rfl
  lots := forall_modify h.lots fun x hx _ => ⟨(h.lots x hx).1, le_refl 0⟩

theorem withLots (h : d.Sound) {amount : Int}
    (hdrawn : Drawn accountId amount d.lots lots) : (d.withLots lots).Sound := by
  obtain ⟨_, rfl, htake, -, -⟩ := hdrawn
  refine { h with lotIds := ?_, lots := ?_ }
  · rw [withLots_lots, map_map]
    exact h.lotIds
  · intro l hl
    obtain ⟨l0, hl0, rfl⟩ := mem_map.mp hl
    exact ⟨(h.lots l0 hl0).1, sub_nonneg.mpr (htake l0 hl0).2⟩

theorem addAccount (h : d.Sound) {a : Account} (hnew : d.accepts (.newAccount a) = true) :
    (d.addAccount a).Sound := by
  simp only [accepts, all_eq_true, decide_eq_true_eq] at hnew
  -- the rows that name an account name one that was there before
  have hmem : ∀ {x}, x ∈ d.accountIds → x ∈ (d.addAccount a).accountIds := fun hx => by
    rw [Book.accountIds, addAccount_accounts, map_append]
    exact mem_append_left _ hx
  exact { h with
      accountIds := nodup_concat h.accountIds fun x hx => (hnew x hx).1
      owners := nodup_concat h.owners fun x hx heq => (hnew x hx).2 (Prod.mk.inj heq)
      transfers := fun t ht => ⟨hmem (h.transfers t ht).1, hmem (h.transfers t ht).2⟩
      entries := fun e he => hmem (h.entries e he)
      holds := fun x hx => ⟨hmem (h.holds x hx).1, (h.holds x hx).2⟩
      lots := fun l hl => ⟨hmem (h.lots l hl).1, (h.lots l hl).2⟩ }

theorem recorded (h : d.Sound) {t : Transfer} (hnew : d.accepts (.newTransfer t) = true)
    (hfrom : t.fromAccount ∈ d.accountIds) (hto : t.toAccount ∈ d.accountIds) : (d.recorded t).Sound := by
  simp only [accepts, all_eq_true, decide_eq_true_eq] at hnew
  refine { h with
      references := nodup_concat h.references fun x hx => (hnew x hx).2
      transfers := forall_concat h.transfers ⟨hfrom, hto⟩
      entries := fun e he => ?_ }
  simp only [recorded_entries, mem_append, mem_cons, not_mem_nil, or_false] at he
  rcases he with he | rfl | rfl
  · exact h.entries e he
  · exact hfrom
  · exact hto

theorem addHold (h : d.Sound) {x : Hold} (hnew : d.accepts (.newHold x) = true)
    (haccount : x.accountId ∈ d.accountIds) (hpos : 0 < x.amount) : (d.addHold x).Sound := by
  simp only [accepts, all_eq_true, decide_eq_true_eq] at hnew
  exact { h with
      holdIds := nodup_concat h.holdIds fun y hy => (hnew y hy).1
      holds := forall_concat h.holds ⟨haccount, hpos⟩ }

theorem addLot (h : d.Sound) {x : Lot} (hnew : d.accepts (.newLot x) = true)
    (haccount : x.accountId ∈ d.accountIds) (hpos : 0 ≤ x.remaining) : (d.addLot x).Sound := by
  simp only [accepts, all_eq_true, decide_eq_true_eq] at hnew
  exact { h with
      lotIds := nodup_concat h.lotIds hnew
      lots := forall_concat h.lots ⟨haccount, hpos⟩ }

end Sound

end Book

theorem Moves.recorded_sound {d d1 : Book} {source target : Account} {t : Transfer}
    (hmoves : Moves d source target t) (h : d1.Sound) (htransfers : d1.transfers = d.transfers)
    (hids : d1.accountIds = d.accountIds) : (d1.recorded t).Sound := by
  refine h.recorded ?_ ?_ ?_
  · show d1.transfers.all _ = true
    rw [htransfers]
    exact hmoves.new
  · rw [hids, hmoves.from_eq]
    exact mem_accountIds hmoves.source_mem
  · rw [hids, hmoves.to_eq]
    exact mem_accountIds hmoves.target_mem

theorem Change.sound {req : Request} {p : Point} {d d' : Book} (hc : Change req p d d') (h : d.Sound) : d'.Sound := by
  cases hc with
  | unchanged => exact h
  | ensured hnew => exact h.addAccount hnew
  | toppedUp hmoves _ _ ht hl hlot =>
    refine (hmoves.recorded_sound (h.move _ _ _) rfl (by simp)).addLot hlot ?_ ?_
    · rw [hl.1]
      simpa using mem_accountIds hmoves.target_mem
    · rw [hl.2.2, ← ht.2.2]
      exact le_of_lt hmoves.pos
  | consumed hmoves _ _ _ _ hdrawn =>
    exact hmoves.recorded_sound ((h.move _ _ _).withLots hdrawn) rfl (by simp)
  | held haccount _ hpos _ hh hnew =>
    refine (h.adjust _ _ _).addHold hnew ?_ ?_
    · rw [hh.1]
      simpa using mem_accountIds haccount
    · rw [hh.2.1]
      exact hpos
  | captured _ _ hmoves _ _ _ hdrawn =>
    exact hmoves.recorded_sound ((((h.setHold _ _).adjust _ _ _).adjust _ _ _).withLots hdrawn) rfl (by simp)
  | released => exact (h.setHold _ _).adjust _ _ _
  | cleared => exact h.clearLot _
  | expired _ _ hmoves => exact hmoves.recorded_sound ((h.clearLot _).move _ _ _) rfl (by simp)
  | expiredUnrecorded => exact (h.clearLot _).move _ _ _

/-! ## What becomes of a row -/

/-- An account keeps its owner and unit, a transfer and a settled hold do not change, and a lot only gets smaller. -/
structure Persists (d d' : Book) : Prop where
  accounts : ∀ a ∈ d.accounts, ∃ a' ∈ d'.accounts, a'.id = a.id ∧ a'.owner = a.owner ∧ a'.unit = a.unit
  transfers : ∀ t ∈ d.transfers, t ∈ d'.transfers
  holds : ∀ h ∈ d.holds, ∃ status, { h with status := status } ∈ d'.holds ∧ (h.status ≠ .held → status = h.status)
  lots : ∀ l ∈ d.lots, ∃ remaining ≤ l.remaining, { l with remaining := remaining } ∈ d'.lots

namespace Persists

variable {d d1 d2 : Book}

protected theorem refl (d : Book) : Persists d d where
  accounts a ha := ⟨a, ha, rfl, rfl, rfl⟩
  transfers _ ht := ht
  holds h hh := ⟨h.status, hh, fun _ => rfl⟩
  lots l hl := ⟨l.remaining, le_refl _, hl⟩

protected theorem trans (h1 : Persists d d1) (h2 : Persists d1 d2) : Persists d d2 where
  accounts a ha := by
    obtain ⟨a1, ha1, hid1, ho1, hu1⟩ := h1.accounts a ha
    obtain ⟨a2, ha2, hid2, ho2, hu2⟩ := h2.accounts a1 ha1
    exact ⟨a2, ha2, hid2.trans hid1, ho2.trans ho1, hu2.trans hu1⟩
  transfers t ht := h2.transfers t (h1.transfers t ht)
  holds h hh := by
    obtain ⟨s1, hs1, hkeep1⟩ := h1.holds h hh
    obtain ⟨s2, hs2, hkeep2⟩ := h2.holds _ hs1
    refine ⟨s2, hs2, fun hne => ?_⟩
    have heq := hkeep1 hne
    rw [hkeep2 (by rw [heq]; exact hne), heq]
  lots l hl := by
    obtain ⟨r1, hr1, hl1⟩ := h1.lots l hl
    obtain ⟨r2, hr2, hl2⟩ := h2.lots _ hl1
    exact ⟨r2, hr2.trans hr1, hl2⟩

theorem adjust (h : Persists d d1) (accountId : String) (b η : Int) : Persists d (d1.adjust accountId b η) := by
  refine h.trans { Persists.refl d1 with accounts := fun a ha => ?_ }
  by_cases hid : a.id = accountId
  · exact ⟨_, mem_modify.mpr (.inr ⟨a, ha, hid, rfl⟩), rfl, rfl, rfl⟩
  · exact ⟨a, mem_modify.mpr (.inl ⟨ha, hid⟩), rfl, rfl, rfl⟩

theorem move (h : Persists d d1) (source target : String) (amount : Int) :
    Persists d (d1.move source target amount) := (h.adjust source _ _).adjust target _ _

theorem setHold (hsound : d.Sound) {h : Hold} (hmem : h ∈ d.holds) (hheld : h.status = .held)
    (status : HoldStatus) : Persists d (d.setHold h.id status) := by
  refine { Persists.refl d with holds := fun x hx => ?_ }
  by_cases hid : x.id = h.id
  · obtain rfl := eq_of_key hsound.holdIds hx hmem hid
    exact ⟨status, mem_modify.mpr (.inr ⟨x, hx, rfl, rfl⟩), fun hne => absurd hheld hne⟩
  · exact ⟨x.status, mem_modify.mpr (.inl ⟨hx, hid⟩), fun _ => rfl⟩

theorem clearLot (hsound : d.Sound) (lotId : String) : Persists d (d.clearLot lotId) := by
  refine { Persists.refl d with lots := fun l hl => ?_ }
  by_cases hid : l.id = lotId
  · exact ⟨0, (hsound.lots l hl).2, mem_modify.mpr (.inr ⟨l, hl, hid, rfl⟩)⟩
  · exact ⟨l.remaining, le_refl _, mem_modify.mpr (.inl ⟨hl, hid⟩)⟩

theorem withLots (h : Persists d d1) {amount : Int}
    (hdrawn : Drawn accountId amount d1.lots lots) : Persists d (d1.withLots lots) := by
  obtain ⟨take, rfl, htake, -, -⟩ := hdrawn
  refine h.trans { Persists.refl d1 with lots := fun l hl => ?_ }
  exact ⟨l.remaining - take l, sub_le_self _ (htake l hl).1, mem_map.mpr ⟨l, hl, rfl⟩⟩

theorem addAccount (d : Book) (a : Account) : Persists d (d.addAccount a) := { Persists.refl d with
    accounts := fun x hx => ⟨x, mem_append_left _ hx, rfl, rfl, rfl⟩ }

theorem recorded (h : Persists d d1) (t : Transfer) : Persists d (d1.recorded t) :=
  h.trans { Persists.refl d1 with transfers := fun _ hx => mem_append_left _ hx }

theorem addHold (h : Persists d d1) (x : Hold) : Persists d (d1.addHold x) := h.trans { Persists.refl d1 with
    holds := fun y hy => ⟨y.status, mem_append_left _ hy, fun _ => rfl⟩ }

theorem addLot (h : Persists d d1) (x : Lot) : Persists d (d1.addLot x) := h.trans { Persists.refl d1 with
    lots := fun y hy => ⟨y.remaining, le_refl _, mem_append_left _ hy⟩ }

end Persists

theorem Change.persists {req : Request} {p : Point} {d d' : Book} (hc : Change req p d d')
    (h : d.Sound) : Persists d d' := by
  cases hc with
  | unchanged => exact .refl d
  | ensured => exact .addAccount d _
  | toppedUp => exact (((Persists.refl d).move _ _ _).recorded _).addLot _
  | consumed _ _ _ _ _ hdrawn => exact (((Persists.refl d).move _ _ _).withLots hdrawn).recorded _
  | held => exact ((Persists.refl d).adjust _ _ _).addHold _
  | captured hhold hheld _ _ _ _ hdrawn =>
    exact ((((Persists.setHold h hhold hheld _).adjust _ _ _).adjust _ _ _).withLots hdrawn).recorded _
  | released _ hhold hheld => exact (Persists.setHold h hhold hheld _).adjust _ _ _
  | cleared => exact .clearLot h _
  | expired => exact ((Persists.clearLot h _).move _ _ _).recorded _
  | expiredUnrecorded => exact (Persists.clearLot h _).move _ _ _

end Rustlavel.Ledger
