/-
  The lots under READ COMMITTED, with the statements of all calls interleaved.
-/

import Rustlavel.Ledger.Operations
import Rustlavel.Lib.ReadCommitted

namespace Rustlavel.Ledger

open Transact Transact.ReadCommitted List Rows Write

/-! ## Locks -/

inductive Key where
  | account (id : String)
  | owner (owner unit : String)
  | transfer (id : String)
  | reference (reference : String)
  | hold (id : String)
  | holdReference (reference : String)
  | lot (id : String)
  deriving DecidableEq

def Write.keys : Write → List Key
  | account id _ _ => [.account id]
  | hold id _ => [.hold id]
  | drawLot id _ => [.lot id]
  | clearLot id _ => [.lot id]
  | newAccount a => [.account a.id, .owner a.owner a.unit]
  | newTransfer t => [.transfer t.id, .reference t.reference]
  | newEntry _ => []
  | newHold h => [.hold h.id, .holdReference h.reference]
  | newLot l => [.lot l.id]

instance : Locks Write Key where
  keys := keys

def statementSystem (cond : Request → Point → Write → Book → Prop) :
    ReadCommitted.System Request Point Book Write (Except Error Reply) where
  program := fun req => (program req).run
  allowed := fun _ => True
  cond := cond

variable {cond : Request → Point → Write → Book → Prop}

instance : DecidablePred (statementSystem cond).allowed := fun _ => .isTrue trivial

instance [h : ∀ req p w d, Decidable (cond req p w d)] (req : Request) (p : Point) (w : Write)
    (d : Book) : Decidable ((statementSystem cond).cond req p w d) := h req p w d

/-! ## What was drawn and expired -/

variable (lotId : String) {ws : List Write}

def Write.takes : Write → Int
  | drawLot id take => if id = lotId then take else 0
  | _ => 0

def Write.debit : Write → Int
  | account _ balance _ => max (-balance) 0
  | _ => 0

def takes (ws : List Write) : Int := (ws.map (Write.takes lotId)).sum

def debited (ws : List Write) : Int := (ws.map debit).sum

def expires : Point → List Write → Int
  | .expireLot id _, ws => if id = lotId then debited ws else 0
  | _, _ => 0

def drawn (history : List (Request × Point × List Write)) : Int := (history.map fun (_, _, ws) => takes lotId ws).sum

def expired (history : List (Request × Point × List Write)) : Int :=
  (history.map fun (_, p, ws) => expires lotId p ws).sum

def ReadIsCurrent : Request → Point → Write → Book → Prop
  | _, _, .clearLot lotId seen, d => ∀ l ∈ d.lots, l.id = lotId → l.remaining = seen
  | _, _, _, _ => True

instance (req : Request) (p : Point) (w : Write) (d : Book) : Decidable (ReadIsCurrent req p w d) := by
  unfold ReadIsCurrent
  split <;> infer_instance

@[simp] theorem takes_nil : takes lotId [] = 0 := rfl

@[simp] theorem takes_cons (w : Write) (ws : List Write) :
    takes lotId (w :: ws) = w.takes lotId + takes lotId ws := by
  simp [takes]

@[simp] theorem takes_append (ws ws' : List Write) : takes lotId (ws ++ ws') = takes lotId ws + takes lotId ws' := by
  simp [takes]

@[simp] theorem debited_nil : debited [] = 0 := rfl

@[simp] theorem debited_cons (w : Write) (ws : List Write) : debited (w :: ws) = w.debit + debited ws := by
  simp [debited]

@[simp] theorem debited_append (ws ws' : List Write) : debited (ws ++ ws') = debited ws + debited ws' := by
  simp [debited]

theorem drawn_concat (history : List (Request × Point × List Write)) (req : Request) (p : Point) (ws : List Write) :
    drawn lotId (history ++ [(req, p, ws)]) = drawn lotId history + takes lotId ws := by
  simp [drawn]

theorem expired_concat (history : List (Request × Point × List Write)) (req : Request) (p : Point) (ws : List Write) :
    expired lotId (history ++ [(req, p, ws)]) = expired lotId history + expires lotId p ws := by
  simp [expired]

/-! ## Writes to the lots -/

def Write.keepsLots : Write → Prop
  | drawLot .. | clearLot .. | newLot _ => False
  | _ => True

def Write.onlyDraws : Write → Prop
  | clearLot .. | newLot _ => False
  | _ => True

namespace Write

variable {w : Write}

theorem keepsLots.onlyDraws (h : w.keepsLots) : w.onlyDraws := by
  cases w <;> trivial

theorem keepsLots.takes (h : w.keepsLots) (lotId : String) : w.takes lotId = 0 := by
  cases w <;> first | rfl | cases h

theorem keepsLots.lots (h : w.keepsLots) (d : Book) : (w.apply d).lots = d.lots := by
  cases w <;> first | rfl | cases h

theorem lot_mem_keys_of_takes {lotId : String} (h : w.takes lotId ≠ 0) : Key.lot lotId ∈ w.keys := by
  cases w with
  | drawLot id =>
    have hid : id = lotId := by
      by_contra hne
      exact h (if_neg hne)
    rw [hid]
    exact mem_singleton_self _
  | _ => exact absurd rfl h

theorem onlyDraws.lots (h : w.onlyDraws) (d : Book) :
    (w.apply d).lots = d.lots.map fun l => { l with remaining := l.remaining - w.takes l.id } := by
  cases w with
  | drawLot id =>
    refine map_congr_left fun l _ => ?_
    by_cases hid : l.id = id
    · simp [takes, hid]
    · simp [takes, hid, Ne.symm hid]
  | clearLot | newLot => cases h
  | _ => simp [apply, takes]

end Write

def Locked (ws : List Write) : Prop := ∃ w ∈ ws, Key.lot lotId ∈ w.keys

theorem locked_of_takes {lotId : String} (h : takes lotId ws ≠ 0) : Locked lotId ws := by
  by_contra hfree
  refine h (sum_eq_zero fun x hx => ?_)
  obtain ⟨w, hw, rfl⟩ := mem_map.mp hx
  by_contra hne
  exact hfree ⟨w, hw, Write.lot_mem_keys_of_takes hne⟩

theorem not_locked_of_apart {lotId : String} {ws ws' : List Write} (h : Apart ws' ws)
    (hlocked : Locked lotId ws') : ¬ Locked lotId ws := by
  rintro ⟨w, hw, hkey⟩
  obtain ⟨w', hw', hkey'⟩ := hlocked
  exact h w' hw' w hw _ hkey' hkey

theorem view_lots_of_onlyDraws (h : ∀ w ∈ ws, w.onlyDraws) (d : Book) :
    (view d ws).lots = d.lots.map fun l => { l with remaining := l.remaining - takes l.id ws } := by
  induction ws generalizing d with
  | nil => simp
  | cons w ws ih =>
    rw [view_cons, ih (fun x hx => h x (mem_cons_of_mem _ hx))]
    show List.map _ (w.apply d).lots = _
    rw [(h w mem_cons_self).lots, map_map]
    refine map_congr_left fun l _ => ?_
    simp [sub_sub]

theorem view_lots_of_keepsLots (h : ∀ w ∈ ws, w.keepsLots) (d : Book) : (view d ws).lots = d.lots := by
  induction ws generalizing d with
  | nil => rfl
  | cons w ws ih =>
    rw [view_cons, ih fun x hx => h x (mem_cons_of_mem _ hx)]
    exact (h w mem_cons_self).lots d

/-! ## What a transaction may do to the lots -/

structure LotsOk (d : Book) : Prop where
  ids : (d.lots.map Lot.id).Nodup
  nonneg : ∀ l ∈ d.lots, 0 ≤ l.remaining

structure Draws (ws : List Write) (d : Book) : Prop where
  onlyDraws : ∀ w ∈ ws, w.onlyDraws
  within : ∀ lotId, takes lotId ws ≠ 0 → ∃ l ∈ d.lots, l.id = lotId ∧ takes lotId ws ≤ l.remaining

/-- A transaction that adds a lot, as `top_up` does. -/
def Adds (ws : List Write) (d : Book) : Prop :=
  ∃ ws0 x, ws = ws0 ++ [.newLot x] ∧ (∀ w ∈ ws0, w.keepsLots) ∧ (∀ l ∈ d.lots, l.id ≠ x.id) ∧
    x.remaining = x.initial ∧ 0 ≤ x.initial

/-- A transaction that empties a lot and debits up to `bound` for it. -/
def Expires (seen bound : Int) (ws : List Write) (d : Book) : Prop :=
  ∃ rest, ws = .clearLot lotId seen :: rest ∧ (∀ w ∈ rest, w.keepsLots) ∧ debited rest ≤ bound ∧
    ∃ l ∈ d.lots, l.id = lotId ∧ l.remaining = seen

def Commits : Point → List Write → Book → Prop
  | .expireLot lotId _, ws, d => ∃ seen, Expires lotId seen seen ws d
  | _, ws, d => Draws ws d ∨ Adds ws d

/-- A lot that was there is charged what was drawn and expired, and one that was not is full. -/
structure Charged (p : Point) (ws : List Write) (d : Book) : Prop where
  ok : LotsOk (view d ws)
  rows : ∀ l' ∈ (view d ws).lots, (∃ l ∈ d.lots, l.id = l'.id ∧ l.initial = l'.initial ∧
      l'.remaining + takes l.id ws + expires l.id p ws ≤ l.remaining ∧ (¬ Locked l.id ws → l' = l)) ∨
    (∀ l ∈ d.lots, l.id ≠ l'.id) ∧ Locked l'.id ws ∧ l'.remaining ≤ l'.initial
  persist : ∀ l ∈ d.lots, ∃ l' ∈ (view d ws).lots, l'.id = l.id ∧ (¬ Locked l.id ws → l' = l)
  others : ∀ lotId, (∀ l ∈ d.lots, l.id ≠ lotId) → takes lotId ws = 0 ∧ expires lotId p ws = 0

variable {ws : List Write} {d d' : Book} {p : Point}

theorem Draws.charged (h : Draws ws d) (hd : LotsOk d) (hp : ∀ lotId, expires lotId p ws = 0) : Charged p ws d := by
  have hlots := view_lots_of_onlyDraws h.onlyDraws d
  -- ids are unique, so the row the draw was checked against is this one
  have hwithin : ∀ l ∈ d.lots, takes l.id ws ≤ l.remaining := by
    intro l hl
    by_cases htakes : takes l.id ws = 0
    · rw [htakes]
      exact hd.nonneg l hl
    · obtain ⟨_, hl0, hid, hle⟩ := h.within l.id htakes
      obtain rfl := eq_of_key hd.ids hl hl0 hid.symm
      exact hle
  have hfree : ∀ l ∈ d.lots, ¬ Locked l.id ws → { l with remaining := l.remaining - takes l.id ws } = l := by
    intro l _ hfree
    have htakes : takes l.id ws = 0 := by
      by_contra hne
      exact hfree (locked_of_takes hne)
    rw [htakes, sub_zero]
  refine ⟨⟨?_, ?_⟩, ?_, ?_, ?_⟩
  · rw [hlots, map_map]
    exact hd.ids
  · intro l' hl'
    rw [hlots] at hl'
    obtain ⟨l, hl, rfl⟩ := mem_map.mp hl'
    exact sub_nonneg.mpr (hwithin l hl)
  · intro l' hl'
    rw [hlots] at hl'
    obtain ⟨l, hl, rfl⟩ := mem_map.mp hl'
    refine .inl ⟨l, hl, rfl, rfl, ?_, hfree l hl⟩
    rw [hp]
    show l.remaining - takes l.id ws + takes l.id ws + 0 ≤ l.remaining
    omega
  · intro l hl
    refine ⟨{ l with remaining := l.remaining - takes l.id ws }, ?_, rfl, hfree l hl⟩
    rw [hlots]
    exact mem_map.mpr ⟨l, hl, rfl⟩
  · intro lotId hnone
    refine ⟨?_, hp lotId⟩
    by_contra hne
    obtain ⟨l, hl, hid, -⟩ := h.within lotId hne
    exact hnone l hl hid

theorem takes_eq_zero (h : ∀ w ∈ ws, w.keepsLots) (lotId : String) : takes lotId ws = 0 := by
  refine sum_eq_zero fun x hx => ?_
  obtain ⟨w, hw, rfl⟩ := mem_map.mp hx
  exact (h w hw).takes lotId

theorem Adds.charged (h : Adds ws d) (hd : LotsOk d) (hp : ∀ lotId, expires lotId p ws = 0) : Charged p ws d := by
  obtain ⟨ws0, x, rfl, hkeeps, hnew, hfull, hnonneg⟩ := h
  have hlots : (view d (ws0 ++ [Write.newLot x])).lots = d.lots ++ [x] := by
    rw [view_concat]
    show (view d ws0).lots ++ [x] = _
    rw [view_lots_of_keepsLots hkeeps]
  have htakes : ∀ lotId, takes lotId (ws0 ++ [Write.newLot x]) = 0 := by
    intro lotId
    rw [takes_append, takes_eq_zero hkeeps]
    rfl
  refine ⟨⟨?_, ?_⟩, ?_, ?_, fun lotId _ => ⟨htakes lotId, hp lotId⟩⟩
  · rw [hlots]
    exact nodup_concat hd.ids hnew
  · rw [hlots]
    exact forall_concat hd.nonneg (hfull ▸ hnonneg)
  · rw [hlots]
    refine forall_concat (fun l hl => .inl ⟨l, hl, rfl, rfl, ?_, fun _ => rfl⟩) (.inr ⟨hnew, ?_, ?_⟩)
    · rw [htakes, hp]
      omega
    · exact ⟨_, mem_append_right _ (mem_singleton_self _), mem_singleton_self _⟩
    · exact hfull.le
  · intro l hl
    rw [hlots]
    exact ⟨l, mem_append_left _ hl, rfl, fun _ => rfl⟩

theorem Expires.charged {lotId accountId : String} {seen : Int} (h : Expires lotId seen seen ws d)
    (hd : LotsOk d) : Charged (.expireLot lotId accountId) ws d := by
  obtain ⟨rest, rfl, hkeeps, _, lot, hlot, rfl, rfl⟩ := h
  have hlots : (view d (Write.clearLot lot.id lot.remaining :: rest)).lots =
      modify Lot.id lot.id (fun l => { l with remaining := 0 }) d.lots := by
    rw [view_cons, view_lots_of_keepsLots hkeeps]
    rfl
  have htakes : ∀ lotId, takes lotId (Write.clearLot lot.id lot.remaining :: rest) = 0 := by
    intro lotId
    rw [takes_cons, takes_eq_zero hkeeps]
    rfl
  have hlocked : Locked lot.id (Write.clearLot lot.id lot.remaining :: rest) :=
    ⟨_, mem_cons_self, mem_singleton_self _⟩
  have hdebited' : debited (Write.clearLot lot.id lot.remaining :: rest) ≤ lot.remaining := by
    show 0 + debited rest ≤ lot.remaining
    omega
  refine ⟨⟨?_, ?_⟩, ?_, ?_, ?_⟩
  · rw [hlots]
    exact nodup_modify hd.ids fun _ => rfl
  · rw [hlots]
    exact forall_modify hd.nonneg fun _ _ _ => le_refl 0
  · intro l' hl'
    rw [hlots] at hl'
    rcases mem_modify.mp hl' with ⟨hl, hne⟩ | ⟨l, hl, hid, rfl⟩
    · refine .inl ⟨l', hl, rfl, rfl, ?_, fun _ => rfl⟩
      rw [htakes, expires, if_neg (Ne.symm hne)]
      omega
    · obtain rfl := eq_of_key hd.ids hl hlot hid
      refine .inl ⟨l, hl, rfl, rfl, ?_, fun hfree => absurd hlocked hfree⟩
      rw [htakes, expires, if_pos rfl]
      show 0 + 0 + debited _ ≤ l.remaining
      omega
  · intro l hl
    rw [hlots]
    by_cases hid : l.id = lot.id
    · refine ⟨_, mem_modify.mpr (.inr ⟨l, hl, hid, rfl⟩), rfl, fun hfree => ?_⟩
      exact absurd hlocked (hid ▸ hfree)
    · exact ⟨l, mem_modify.mpr (.inl ⟨hl, hid⟩), rfl, fun _ => rfl⟩
  · intro lotId hnone
    exact ⟨htakes lotId, if_neg fun hid => hnone lot hlot hid⟩

theorem Commits.charged (h : Commits p ws d) (hd : LotsOk d) : Charged p ws d := by
  cases p with
  | expireLot =>
    obtain ⟨_, h⟩ := h
    exact h.charged hd
  | _ => exact h.elim (·.charged hd fun _ => rfl) (·.charged hd fun _ => rfl)

/-! ## The promises of the transactions -/

/-- No lot has been charged more than it had, and a lot that is not there has not been charged. -/
structure WithinLots (history : List (Request × Point × List Write)) (d : Book) : Prop where
  ok : LotsOk d
  charged : ∀ l ∈ d.lots, drawn l.id history + expired l.id history + l.remaining ≤ l.initial
  others : ∀ lotId, (∀ l ∈ d.lots, l.id ≠ lotId) → drawn lotId history + expired lotId history = 0

structure LotsKept (ws : List Write) (d d' : Book) : Prop where
  persist : ∀ l ∈ d.lots, ∃ l' ∈ d'.lots, l'.id = l.id
  locked : ∀ l, Locked l.id ws → (l ∈ d'.lots ↔ l ∈ d.lots)

theorem WithinLots.commit {history : List (Request × Point × List Write)} {req : Request}
    (h : WithinLots history d) (hcommits : Commits p ws d) : WithinLots (history ++ [(req, p, ws)]) (view d ws) := by
  have hcharged := hcommits.charged h.ok
  refine ⟨hcharged.ok, fun l' hl' => ?_, fun lotId hnone => ?_⟩
  · rw [drawn_concat, expired_concat]
    rcases hcharged.rows l' hl' with ⟨l, hl, hid, hinitial, hle, -⟩ | ⟨hnew, -, hfull⟩
    · have hl := h.charged l hl
      rw [hid] at hle hl
      omega
    · obtain ⟨htakes, hexpires⟩ := hcharged.others l'.id hnew
      have hzero := h.others l'.id hnew
      omega
  · have hnone' : ∀ l ∈ d.lots, l.id ≠ lotId := by
      intro l hl hid
      obtain ⟨l', hl', hid', -⟩ := hcharged.persist l hl
      exact hnone l' hl' (hid'.trans hid)
    obtain ⟨_, _⟩ := hcharged.others lotId hnone'
    have hzero := h.others lotId hnone'
    rw [drawn_concat, expired_concat]
    omega

theorem LotsKept.commit {ws' : List Write} (hd : LotsOk d) (hcommits : Commits p ws d)
    (hapart : Apart ws' ws) : LotsKept ws' d (view d ws) := by
  have hcharged := hcommits.charged hd
  refine ⟨fun l hl => ?_, fun l hlocked => ⟨fun hl' => ?_, fun hl => ?_⟩⟩
  · obtain ⟨l', hl', hid, -⟩ := hcharged.persist l hl
    exact ⟨l', hl', hid⟩
  · have hfree := not_locked_of_apart hapart hlocked
    rcases hcharged.rows l hl' with ⟨l0, hl0, hid, -, -, hsame⟩ | ⟨-, hlocked', -⟩
    · rwa [hsame (hid ▸ hfree)]
    · exact absurd hlocked' hfree
  · obtain ⟨_, _, -, hsame⟩ := hcharged.persist l hl
    rwa [← hsame (not_locked_of_apart hapart hlocked)]

theorem LotsKept.trans {d1 d2 d3 : Book} (h : LotsKept ws d1 d2) (h' : LotsKept ws d2 d3) : LotsKept ws d1 d3 := by
  refine ⟨fun l hl => ?_, fun l hlocked => (h'.locked l hlocked).trans (h.locked l hlocked)⟩
  obtain ⟨l2, hl2, hid2⟩ := h.persist l hl
  obtain ⟨l3, hl3, hid3⟩ := h'.persist l2 hl2
  exact ⟨l3, hl3, hid3.trans hid2⟩

def lotContract : ReadCommitted.Contract Request Point Book Write where
  inv := WithinLots
  good := LotsOk
  rely := LotsKept
  commits := fun _ => Commits
  good_of_inv := WithinLots.ok
  rely_refl := fun _ _ => ⟨fun l hl => ⟨l, hl, rfl⟩, fun _ _ => Iff.rfl⟩
  rely_trans := LotsKept.trans
  inv_commit := WithinLots.commit
  rely_commit := LotsKept.commit

end Rustlavel.Ledger
