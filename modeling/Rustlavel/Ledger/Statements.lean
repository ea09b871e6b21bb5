/-
  What each function of the ledger that runs inside a transaction does, as one rule each: `f_ends` reduces
  `Tx.Ends` of `f` to its postcondition at the books `f` can leave.
-/

import Rustlavel.Ledger.Changes
import Rustlavel.Lib.RelyGuarantee

namespace Rustlavel.Ledger

open Transact.Tx List Rows

variable {n : Nat} {d : Book}

/-! ## Single statements -/

theorem accountIn_ends {unit owner : String} {Q : Account → Nat → Book → Prop}
    (h : ∀ a ∈ d.accounts, a.owner = owner ∧ a.unit = unit → Q a n d) : Ends (accountIn unit owner) n d Q := by
  refine .bind (.query ?_)
  split
  · rename_i a hfind
    exact .pure (h a (mem_of_find?_eq_some hfind) (by simpa using List.find?_some hfind))
  · exact .throw

variable {accountId : String} {b η amount : Int} {Q : Bool → Nat → Book → Prop} {ls lots : List Lot}
  {take : Lot → Int}

theorem updateAccount_ends {guard : Account → Bool}
    (htrue : ∀ a ∈ d.accounts, a.id = accountId → guard a → Q true n (d.adjust accountId b η))
    (hfalse : (∀ a ∈ d.accounts, a.id = accountId → ¬ guard a) → Q false n d) :
    Ends (updateAccount accountId guard b η) n d Q := by
  refine .tryUpdate (fun w hw => ?_) fun hw => ?_
  · split at hw
    · cases hw
      rename_i hany
      obtain ⟨a, ha, hguard⟩ := any_eq_true.mp hany
      obtain ⟨hid, hg⟩ := of_decide_eq_true hguard
      exact htrue a ha hid hg
    · cases hw
  · split at hw
    · cases hw
    · rename_i hany
      refine hfalse fun a ha hid hg => hany (any_eq_true.mpr ⟨a, ha, ?_⟩)
      exact decide_eq_true ⟨hid, hg⟩

theorem updateAccount_always (hid : accountId ∈ d.accountIds) (h : Q true n (d.adjust accountId b η)) :
    Ends (updateAccount accountId (fun _ => true) b η) n d Q := by
  obtain ⟨a, ha, haid⟩ := mem_map.mp hid
  exact updateAccount_ends (fun _ _ _ _ => h) fun hnone => absurd rfl (hnone a ha haid)

theorem insert_ends {row : Nat → Write} {Q : Nat × Bool → Nat → Book → Prop}
    (htrue : d.accepts (row n) = true → Q (n, true) (n + 1) ((row n).apply d))
    (hfalse : d.accepts (row n) = false → Q (n, false) (n + 1) d) : Ends (insert row) n d Q := by
  refine .tryInsert (fun w hw => ?_) fun hw => ?_
  · split at hw
    · cases hw
      exact htrue ‹_›
    · cases hw
  · split at hw
    · cases hw
    · exact hfalse (Bool.eq_false_iff.mpr ‹_›)

theorem updateHeld_ends {holdId : String} {status : HoldStatus}
    (htrue : ∀ h ∈ d.holds, h.id = holdId → h.status = .held → Q true n (d.setHold holdId status))
    (hfalse : Q false n d) : Ends (updateHeld holdId status) n d Q := by
  refine .tryUpdate (fun w hw => ?_) fun _ => hfalse
  split at hw
  · cases hw
    rename_i hany
    obtain ⟨h, hh, hguard⟩ := any_eq_true.mp hany
    obtain ⟨hid, hheld⟩ := of_decide_eq_true hguard
    exact htrue h hh hid hheld
  · cases hw

theorem holdById_setHold (hsound : d.Sound) {h : Hold} (hh : h ∈ d.holds) (status : HoldStatus) :
    (d.setHold h.id status).holdById h.id = some { h with status := status } := by
  have hmem : { h with status := status } ∈ (d.setHold h.id status).holds :=
    mem_modify.mpr (.inr ⟨h, hh, rfl, rfl⟩)
  unfold Book.holdById
  cases hfind : (d.setHold h.id status).holds.find? fun x => x.id = h.id with
  | none => exact absurd (List.find?_eq_none.mp hfind _ hmem) (by simp)
  | some x =>
    have hid : x.id = h.id := by simpa using List.find?_some hfind
    rw [eq_of_key (hsound.setHold h.id status).holdIds (mem_of_find?_eq_some hfind) hmem hid]

theorem balanceOf_ends {Q : Int → Nat → Book → Prop}
    (h : Q (d.balance accountId) n d) : Ends (balanceOf accountId) n d Q := by
  refine .bind (.query ?_)
  split
  · rename_i a hfind
    have hbalance : d.balance accountId = a.balance := by rw [Book.balance, hfind]; rfl
    rw [hbalance] at h
    exact .pure h
  · exact .throw

/-! ## Recording a transfer -/

theorem recordEntry_ends {t : Transfer} {signed : Int} {Q : Unit → Nat → Book → Prop}
    (h : Q () (n + 1) (d.addEntry (t.entry accountId signed (d.balance accountId)))) :
    Ends (recordEntry t accountId signed) n d Q :=
  .bind (balanceOf_ends (.bind (insert_ends (fun _ => .pure h) fun hrefused => by cases hrefused)))

theorem record_ends {kind : TransferKind} {reference fromAccount toAccount : String}
    {metadata : Metadata} {now : Nat} {Q : Option Transfer → Nat → Book → Prop}
    (hsome : ∀ t : Transfer, t.id = id "tr" n → t.kind = kind ∧ t.reference = reference ∧ t.amount = amount →
      t.fromAccount = fromAccount → t.toAccount = toAccount → d.accepts (.newTransfer t) = true →
      Q (some t) (n + 1 + 1 + 1) (d.recorded t))
    (hnone : (∃ t ∈ d.transfers, t.id = id "tr" n ∨ t.reference = reference) → Q none (n + 1) d) :
    Ends (record kind reference fromAccount toAccount amount metadata now) n d Q := by
  refine .bind (insert_ends (fun haccepts => ?_) fun hrefused => ?_)
  · exact .bind (recordEntry_ends (.bind (recordEntry_ends (.pure (hsome _ rfl ⟨rfl, rfl, rfl⟩ rfl rfl haccepts)))))
  · refine .pure (hnone ?_)
    obtain ⟨t, ht, htaken⟩ := all_eq_false.mp hrefused
    refine ⟨t, ht, ?_⟩
    by_contra hfree
    rw [not_or] at hfree
    exact htaken (decide_eq_true hfree)

/-! ## Drawing from lots -/

/-- What a loop over the lots `ls` draws from each lot of the book. -/
structure Takes (ls : List Lot) (amount : Int) (lots : List Lot) (take : Lot → Int) : Prop where
  bounds : ∀ l ∈ lots, 0 ≤ take l ∧ take l ≤ l.remaining
  others : ∀ l ∈ lots, l ∉ ls → take l = 0
  total : (ls.map take).sum = min amount (ls.map Lot.remaining).sum

def taken (take : Lot → Int) (lots : List Lot) : List Lot :=
  lots.map fun l => { l with remaining := l.remaining - take l }

theorem taken_zero (lots : List Lot) : taken (fun _ => 0) lots = lots := by
  simp [taken]

theorem Takes.cons {lot : Lot} {t : Int} (hnd : (lots.map Lot.id).Nodup) (hls : ∀ l ∈ lot :: ls, l ∈ lots)
    (hlsnd : ((lot :: ls).map Lot.id).Nodup) (ht : t = min lot.remaining amount) (hpos : 0 ≤ t)
    (hnonneg : ∀ l ∈ ls, 0 ≤ l.remaining)
    (h : Takes ls (amount - t) (modify Lot.id lot.id (fun l => { l with remaining := l.remaining - t }) lots) take) :
    ∃ take', Takes (lot :: ls) amount lots take' ∧ taken take' lots =
      taken take (modify Lot.id lot.id (fun l => { l with remaining := l.remaining - t }) lots) := by
  rw [map_cons, nodup_cons] at hlsnd
  have hlot := hls lot mem_cons_self
  -- the rest of the loop does not come back to the lot
  have hne : ∀ l ∈ ls, l.id ≠ lot.id := fun l hl hid => hlsnd.1 (hid ▸ mem_map_of_mem hl)
  have hdone : take { lot with remaining := lot.remaining - t } = 0 :=
    h.others _ (mem_modify.mpr (.inr ⟨lot, hlot, rfl, rfl⟩)) fun hmem => hne _ hmem rfl
  have hkept : ∀ l ∈ lots, l.id ≠ lot.id →
      l ∈ modify Lot.id lot.id (fun l => { l with remaining := l.remaining - t }) lots :=
    fun l hl hid => mem_modify.mpr (.inl ⟨hl, hid⟩)
  refine ⟨fun l => if l.id = lot.id then t else take l, ⟨fun l hl => ?_, fun l hl hnot => ?_, ?_⟩, ?_⟩
  · split
    · rename_i hid
      obtain rfl := eq_of_key hnd hl hlot hid
      exact ⟨hpos, ht ▸ min_le_left _ _⟩
    · rename_i hid
      exact h.bounds l (hkept l hl hid)
  · rw [mem_cons, not_or] at hnot
    have hid : l.id ≠ lot.id := fun hid => hnot.1 (eq_of_key hnd hl hlot hid)
    rw [if_neg hid]
    exact h.others l (hkept l hl hid) hnot.2
  · have htail : ls.map (fun l => if l.id = lot.id then t else take l) = ls.map take :=
      map_congr_left fun l hl => if_neg (hne l hl)
    have hsum : 0 ≤ (ls.map Lot.remaining).sum := by
      refine sum_nonneg fun x hx => ?_
      obtain ⟨l, hl, rfl⟩ := mem_map.mp hx
      exact hnonneg l hl
    rw [map_cons, map_cons, sum_cons, sum_cons, if_pos rfl, htail, h.total]
    omega
  · unfold taken Rows.modify
    rw [map_map]
    refine map_congr_left fun l hl => ?_
    by_cases hid : l.id = lot.id
    · obtain rfl := eq_of_key hnd hl hlot hid
      simp [hdone]
    · simp [hid]

theorem drawFrom_ends (hamount : 0 ≤ amount)
    (hnd : (d.lots.map Lot.id).Nodup) (hls : ∀ l ∈ ls, l ∈ d.lots ∧ 0 < l.remaining)
    (hlsnd : (ls.map Lot.id).Nodup) (hlots : ∀ l ∈ d.lots, 0 ≤ l.remaining) :
    Ends (drawFrom ls amount) n d fun _ n' d' =>
      n' = n ∧ ∃ take, Takes ls amount d.lots take ∧ d' = d.withLots (taken take d.lots) := by
  induction ls generalizing amount d with
  | nil =>
    refine .pure ⟨rfl, fun _ => 0, ⟨fun l hl => ⟨le_refl 0, hlots l hl⟩, fun _ _ _ => rfl, ?_⟩, ?_⟩
    · exact (min_eq_right hamount).symm
    · rw [taken_zero]
      rfl
  | cons lot ls ih =>
    unfold drawFrom
    have hpositive : 0 < lot.remaining := (hls lot mem_cons_self).2
    have hrest : ∀ l ∈ ls, 0 ≤ l.remaining := fun l hl => le_of_lt (hls l (mem_cons_of_mem _ hl)).2
    split
    · -- nothing left to draw
      obtain rfl : amount = 0 := by omega
      refine .pure ⟨rfl, fun _ => 0, ⟨fun l hl => ⟨le_refl 0, hlots l hl⟩, fun _ _ _ => rfl, ?_⟩, ?_⟩
      · have hsum : 0 ≤ ((lot :: ls).map Lot.remaining).sum := by
          refine sum_nonneg fun x hx => ?_
          obtain ⟨l, hl, rfl⟩ := mem_map.mp hx
          exact le_of_lt (hls l hl).2
        rw [min_eq_left hsum]
        simp
      · rw [taken_zero]
        rfl
    · have hlot := (hls lot mem_cons_self).1
      refine .bind (.tryUpdate (fun w hw => ?_) fun hw => ?_)
      · split at hw
        · cases hw
          have hlsnd' := hlsnd
          rw [map_cons, nodup_cons] at hlsnd'
          have hleft : 0 ≤ amount - min lot.remaining amount := by omega
          refine (ih (d := d.drawLot lot.id (min lot.remaining amount)) hleft
            (nodup_modify hnd fun _ => rfl) (fun l hl => ?_) hlsnd'.2 ?_).mono ?_
          · have hmem := hls l (mem_cons_of_mem _ hl)
            refine ⟨mem_modify.mpr (.inl ⟨hmem.1, fun hid => hlsnd'.1 ?_⟩), hmem.2⟩
            rw [← hid]
            exact mem_map_of_mem hl
          · refine forall_modify hlots fun l hl hid => ?_
            obtain rfl := eq_of_key hnd hl hlot hid
            show 0 ≤ l.remaining - min l.remaining amount
            omega
          · rintro _ n' d' ⟨rfl, take, htake, rfl⟩
            obtain ⟨take', htake', heq⟩ := Takes.cons hnd (fun l hl => (hls l hl).1) hlsnd rfl (by omega) hrest htake
            exact ⟨rfl, take', htake', by rw [heq]; rfl⟩
        · cases hw
      · -- the row that was read is still there, so the update finds it
        split at hw
        · cases hw
        · rename_i hany
          exact absurd (any_eq_true.mpr ⟨lot, hlot, decide_eq_true ⟨rfl, min_le_left _ _⟩⟩) hany

theorem Takes.drawn (h : Takes ls amount lots take)
    (hperm : ls.Perm (lots.filter fun l => l.accountId = accountId ∧ 0 < l.remaining)) :
    Drawn accountId amount lots (taken take lots) := by
  have hmem : ∀ l, l ∈ ls ↔ l ∈ lots ∧ l.accountId = accountId ∧ 0 < l.remaining := fun l => by
    rw [hperm.mem_iff, mem_filter, decide_eq_true_eq]
  -- a column that is zero on empty lots adds up to the same over the two lists
  have hsum : ∀ g : Lot → Int, (∀ l ∈ lots, ¬ 0 < l.remaining → g l = 0) →
      (ls.map g).sum = Rows.total (fun l => l.accountId = accountId) g lots := by
    intro g hg
    rw [(hperm.map g).sum_eq]
    show Rows.total _ g lots = _
    clear hperm hmem h
    induction lots with
    | nil => rfl
    | cons l lots ih =>
      rw [total_cons, total_cons, ih fun x hx => hg x (mem_cons_of_mem _ hx)]
      congr 1
      have hzero := hg l mem_cons_self
      by_cases hrem : 0 < l.remaining
      · simp [hrem]
      · simp [hrem, hzero hrem]
  refine ⟨take, rfl, h.bounds, fun l hl hne => h.others l hl fun hin => hne ((hmem l).mp hin).2.1, ?_⟩
  rw [← hsum take ?_, ← hsum Lot.remaining ?_, h.total]
  · intro l hl hrem
    have hbounds := h.bounds l hl
    omega
  · intro l hl hrem
    have hbounds := h.bounds l hl
    omega

theorem drawLots_ends {Q : Unit → Nat → Book → Prop} (hsound : d.Sound) (hamount : 0 ≤ amount)
    (h : ∀ lots, Drawn accountId amount d.lots lots → Q () n (d.withLots lots)) :
    Ends (drawLots accountId amount) n d Q := by
  refine .bind (.query ?_)
  have hperm := perm_insertionSort (fun a b : Lot => a.before b)
    (d.lots.filter fun l => l.accountId = accountId ∧ 0 < l.remaining)
  have hmem : ∀ l ∈ (d.lots.filter fun l => l.accountId = accountId ∧ 0 < l.remaining).insertionSort
      (fun a b : Lot => a.before b), l ∈ d.lots ∧ 0 < l.remaining := by
    intro l hl
    obtain ⟨hl, hcond⟩ := mem_filter.mp (hperm.mem_iff.mp hl)
    exact ⟨hl, (of_decide_eq_true hcond).2⟩
  have hlsnd := ((hperm.map Lot.id).nodup_iff).mpr (List.Nodup.sublist (filter_sublist.map Lot.id) hsound.lotIds)
  refine (drawFrom_ends hamount hsound.lotIds hmem hlsnd fun l hl => (hsound.lots l hl).2).mono ?_
  rintro _ n' d' ⟨rfl, take, htake, rfl⟩
  exact h _ (htake.drawn hperm)

end Rustlavel.Ledger
