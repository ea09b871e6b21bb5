/-
  The operations of the ledger take no steps but `Change`s.
-/

import Rustlavel.Ledger.Statements

namespace Rustlavel.Ledger

open Transact Transact.Tx List Rows Book
open Transact.Prog (SafeOk)

def contract : Contract Request Point Book where
  inv n d := d.Sound ∧ d.Fresh n
  step := Change
  rely := Persists
  inv_mono := fun hle ⟨hsound, hfresh⟩ => ⟨hsound, fun t ht =>
    let ⟨m, hm, hid⟩ := hfresh t ht
    ⟨m, lt_of_lt_of_le hm hle, hid⟩⟩
  step_refl := .unchanged
  rely_refl := .refl
  rely_trans := .trans
  rely_of_step := fun hinv hstep => hstep.persists hinv.1

variable {n : Nat} {d : Book} {unit owner reference : String} {amount : Int} {now : Nat}

/-! ## Ids -/

variable {t : Transfer} {d' : Book} {accountId holdId : String} {expiresIn : Option Nat}

theorem Book.Fresh.concat (hfresh : d.Fresh n) (hid : t.id = id "tr" n) {n' : Nat}
    (hn : n < n') (htransfers : d'.transfers = d.transfers ++ [t]) : d'.Fresh n' := by
  unfold Fresh
  rw [htransfers]
  refine forall_concat (fun x hx => ?_) ⟨n, hn, hid⟩
  obtain ⟨m, hm, hx⟩ := hfresh x hx
  exact ⟨m, hm.trans hn, hx⟩

theorem Book.Fresh.id_ne (hfresh : d.Fresh n) (ht : t ∈ d.transfers) : t.id ≠ id "tr" n := by
  obtain ⟨_, hm, hid⟩ := hfresh t ht
  rw [hid]
  intro heq
  exact absurd (id_inj heq) (Nat.ne_of_lt hm)

/-! ## Transactions -/

def Found (reference : String) (t : Transfer) (d : Book) : Prop := t ∈ d.transfers ∧ t.reference = reference

def Attempted (reference : String) : Attempt Transfer → Book → Prop
  | .done t, d => Found reference t d
  | _, _ => True

theorem Found.persists (h : Found reference t d) (hd : Persists d d') :
    Found reference t d' := ⟨hd.transfers t h.1, h.2⟩

theorem Attempted.persists {a : Attempt Transfer} (h : Attempted reference a d)
    (hd : Persists d d') : Attempted reference a d' := by
  cases a with
  | done => exact Found.persists h hd
  | short | raced => trivial

theorem mem_recorded (d : Book) (t : Transfer) : t ∈ (d.recorded t).transfers :=
  mem_append_right _ (mem_singleton_self t)

theorem topUpIn_ends (hsound : d.Sound) (hfresh : d.Fresh n) (hpos : 0 < amount) :
    Ends (topUpIn unit owner amount reference expiresIn now) n d
      (contract.Outcome (.topUp unit owner amount reference expiresIn now) .main d (Attempted reference)) := by
  refine .bind (accountIn_ends fun target htarget howner => ?_)
  refine .bind (accountIn_ends fun source hsource hsystem => ?_)
  refine .bind (updateAccount_always (mem_accountIds hsource) ?_)
  refine .bind (updateAccount_always (by simpa using mem_accountIds htarget) ?_)
  refine .bind (record_ends (fun t hid ht hfrom hto hnew => ?_) fun _ => .pure trivial)
  refine .bind (insert_ends (fun hlot => ?_) fun _ => .throw)
  have hmoves : Moves d source target t := ⟨hsource, htarget, hfrom, hto, ht.2.2 ▸ hpos, hnew⟩
  have hchange : Change (.topUp unit owner amount reference expiresIn now) .main d _ :=
    .toppedUp hmoves hsystem howner ht ⟨rfl, rfl, rfl⟩ hlot
  exact .pure ⟨⟨hchange.sound hsound, hfresh.concat hid (by omega) rfl⟩, hchange, mem_recorded _ t, ht.2.1⟩

theorem consumeIn_ends (hsound : d.Sound) (hfresh : d.Fresh n) (hpos : 0 < amount) :
    Ends (consumeIn unit owner amount reference now) n d
      (contract.Outcome (.consume unit owner amount reference now) .main d (Attempted reference)) := by
  refine .bind (accountIn_ends fun source hsource howner => ?_)
  refine .bind (accountIn_ends fun target htarget hsystem => ?_)
  refine .bind (updateAccount_ends (fun a ha hid hguard => ?_) fun _ => .pure trivial)
  obtain rfl := eq_of_key hsound.accountIds ha hsource hid
  refine .bind (updateAccount_always (by simpa using mem_accountIds htarget) ?_)
  refine .bind (drawLots_ends (hsound.move _ _ _) (le_of_lt hpos) fun lots hdrawn => ?_)
  refine .bind (record_ends (fun t htid ht hfrom hto hnew => ?_) fun _ => .pure trivial)
  have hmoves : Moves d a target t := ⟨hsource, htarget, hfrom, hto, ht.2.2 ▸ hpos, hnew⟩
  have hchange : Change (.consume unit owner amount reference now) .main d _ :=
    .consumed hmoves howner hsystem ht (of_decide_eq_true hguard) hdrawn
  exact .pure ⟨⟨hchange.sound hsound, hfresh.concat htid (by omega) rfl⟩, hchange, mem_recorded _ t, ht.2.1⟩

theorem holdIn_ends {ttl : Nat} (hsound : d.Sound) (hfresh : d.Fresh n) (hpos : 0 < amount) :
    Ends (holdIn unit owner amount reference ttl now) n d
      (contract.Outcome (.hold unit owner amount reference ttl now) .main d fun _ _ => True) := by
  refine .bind (accountIn_ends fun account haccount howner => ?_)
  refine .bind (updateAccount_ends (fun a ha hid hguard => ?_) fun _ => .pure trivial)
  obtain rfl := eq_of_key hsound.accountIds ha haccount hid
  refine .bind (insert_ends (fun hnew => ?_) fun _ => .pure trivial)
  have hchange : Change (.hold unit owner amount reference ttl now) .main d _ :=
    .held haccount howner hpos (of_decide_eq_true hguard) ⟨rfl, rfl, rfl⟩ hnew
  exact .pure ⟨contract.inv_mono (Nat.le_succ n) ⟨hchange.sound hsound, hfresh⟩, hchange, trivial⟩

theorem Book.exists_account (h : accountId ∈ d.accountIds) : ∃ a ∈ d.accounts, a.id = accountId := mem_map.mp h

theorem captureIn_ends (hsound : d.Sound) (hfresh : d.Fresh n) : Ends (captureIn unit holdId now) n d
      (contract.Outcome (.capture unit holdId now) .main d fun a d' => ∀ t, a = some t → t ∈ d'.transfers) := by
  refine .bind (updateHeld_ends (fun h hh hid hheld => ?_) (.pure fun t ht => by cases ht))
  subst hid
  obtain ⟨haccount, hpos⟩ := hsound.holds h hh
  obtain ⟨source, hsource, hsid⟩ := exists_account haccount
  refine .bind (.query ?_)
  rw [holdById_setHold hsound hh]
  refine .bind (accountIn_ends fun target htarget hsystem => ?_)
  refine .bind (updateAccount_always (by simpa using haccount) ?_)
  refine .bind (updateAccount_always (by simpa using mem_accountIds htarget) ?_)
  refine .bind (drawLots_ends (((hsound.setHold _ _).adjust _ _ _).adjust _ _ _) (le_of_lt hpos)
    fun lots hdrawn => ?_)
  refine .bind (record_ends (fun t htid ht hfrom hto hnew => ?_) fun _ => .throw)
  have hmoves : Moves d source target t := ⟨hsource, htarget, hfrom.trans hsid.symm, hto, ht.2.2 ▸ hpos, hnew⟩
  rw [← hsid] at hdrawn
  have hchange : Change (.capture unit h.id now) .main d _ := .captured hh hheld hmoves hsid hsystem ht hdrawn
  rw [hsid] at hchange
  exact .pure ⟨⟨hchange.sound hsound, hfresh.concat htid (by omega) rfl⟩, hchange,
    fun t' ht' => by cases ht'; exact mem_recorded _ t⟩

theorem releaseIn_ends {req : Request} {p : Point} {Q : Bool → Nat → Book → Prop}
    (hsound : d.Sound) (hreq : Releases req p holdId)
    (htrue : ∀ d', Change req p d d' → d'.transfers = d.transfers → Q true n d') (hfalse : Q false n d) :
    Ends (releaseIn holdId) n d Q := by
  refine .bind (updateHeld_ends (fun h hh hid hheld => ?_) (.pure hfalse))
  subst hid
  obtain ⟨_, haccount, haid⟩ := exists_account (hsound.holds h hh).1
  refine .bind (.query ?_)
  rw [holdById_setHold hsound hh]
  refine .bind (updateAccount_always (by simpa using (hsound.holds h hh).1) (.pure ?_))
  have hchange := Change.released hreq hh hheld haccount haid
  rw [haid] at hchange
  exact htrue _ hchange rfl

theorem releaseOnce_ends (hsound : d.Sound) (hfresh : d.Fresh n) : Ends (releaseOnce holdId) n d
      (contract.Outcome (.release unit holdId) .main d fun _ _ => True) := by
  refine .bind (releaseIn_ends hsound (.release unit holdId) (fun d' hchange htransfers => ?_) (.pure trivial))
  refine .pure ⟨⟨hchange.sound hsound, ?_⟩, hchange, trivial⟩
  unfold Fresh
  rw [htransfers]
  exact hfresh

theorem expireLotIn_ends {lotId : String} (hsound : d.Sound) (hfresh : d.Fresh n)
    (hlots : ∀ l ∈ d.lots, l.id = lotId → l.accountId = accountId) : Ends (expireLotIn unit lotId accountId now) n d
      (contract.Outcome (.sweep unit now) (.expireLot lotId accountId) d fun _ _ => True) := by
  refine .bind (.query ?_)
  split
  · exact .pure trivial
  rename_i lot hfind
  have hlot := mem_of_find?_eq_some hfind
  obtain ⟨rfl, hremaining⟩ : lot.id = lotId ∧ 0 < lot.remaining := by simpa using List.find?_some hfind
  refine .bind (.query ?_)
  split
  · exact .throw
  rename_i source hfind'
  have hsource := mem_of_find?_eq_some hfind'
  obtain rfl : source.id = accountId := by simpa using List.find?_some hfind'
  have hid := (hlots lot hlot rfl).symm
  refine .bind (.tryUpdate (fun w hw => ?_) fun hw => ?_)
  · split at hw
    · cases hw
      unfold moveExpired
      split
      · rename_i hamount
        have heq : max (min lot.remaining source.available) 0 = min lot.remaining source.available :=
          max_eq_left (by omega)
        rw [heq] at hamount ⊢
        refine .bind (.bind (accountIn_ends fun target htarget howner => ?_))
        refine .bind (updateAccount_ends (fun _ _ _ _ => ?_) fun hnone => ?_)
        · refine .bind (updateAccount_always (by simpa using mem_accountIds htarget) ?_)
          refine .bind (record_ends (fun t htid ht hfrom hto hnew => ?_) fun htaken => ?_)
          · have hmoves : Moves d source target t := ⟨hsource, htarget, hfrom, hto, ht.2.2 ▸ hamount, hnew⟩
            have hchange : Change (.sweep unit now) (.expireLot lot.id source.id) d _ :=
              .expired hlot hremaining hmoves hid howner ht
            exact .pure (.pure ⟨⟨hchange.sound hsound, hfresh.concat htid (by omega) rfl⟩, hchange, trivial⟩)
          · obtain ⟨t, ht, htid | href⟩ := htaken
            · exact absurd htid (hfresh.id_ne ht)
            · have hchange : Change (.sweep unit now) (.expireLot lot.id source.id) d _ :=
                .expiredUnrecorded hlot hremaining hsource htarget hid howner (by omega) ⟨t, ht, href⟩
              exact .pure (.pure ⟨contract.inv_mono (Nat.le_succ n) ⟨hchange.sound hsound, hfresh⟩, hchange, trivial⟩)
        · -- the account was read in the same transaction, so it still has the amount
          exact absurd (decide_eq_true (min_le_right _ _)) (hnone source hsource rfl)
      · have hchange : Change (.sweep unit now) (.expireLot lot.id source.id) d _ :=
          .cleared hlot hremaining hsource hid (by omega)
        exact .bind (.pure (.pure ⟨⟨hchange.sound hsound, hfresh⟩, hchange, trivial⟩))
    · cases hw
  · split at hw
    · cases hw
    · rename_i hany
      exact absurd (any_eq_true.mpr ⟨lot, hlot, decide_eq_true rfl⟩) hany

/-! ## Operations -/

section

variable {cond : Request → Point → Book → Prop} {req : Request} {α : Type} {holdId : String}

theorem positive_safe : SafeOk contract cond req (fun _ _ => 0 < amount) (positive amount) d := by
  unfold positive
  split
  · exact .throw
  · exact .pure fun _ _ _ _ => by omega

theorem read_safe {f : Book → α} {post : α → Book → Prop} (h : ∀ d', Persists d d' → d'.Sound → post (f d') d')
    (hstable : ∀ a d' d'', post a d' → Persists d' d'' → post a d'') : SafeOk contract cond req post (read f) d :=
  .statement (fun _ d' hrely hinv _ => .query ⟨hinv, .unchanged .., h d' hrely hinv.1⟩)
    fun a d' _ d'' ha hrely _ => hstable a d' d'' ha hrely

theorem read_any (f : Book → α) (d : Book) : SafeOk contract cond req (fun _ _ => True) (read f) d :=
  read_safe (fun _ _ _ => trivial) fun _ _ _ _ _ => trivial

theorem insertAccount_safe (owner : String) (d : Book) : SafeOk contract cond req (fun _ _ => True)
      (Prog.statement (.ensureAccount owner) (insert fun n => .newAccount
        { id := id "acc" n, owner := owner, unit := req.unit, balance := 0, held := 0 })) d := by
  refine .statement (fun n d' _ hinv _ => insert_ends (fun hnew => ?_) fun _ => ?_) fun _ _ _ _ _ _ _ => trivial
  · have hchange : Change req (.ensureAccount owner) d' _ := .ensured hnew rfl rfl rfl rfl
    exact ⟨contract.inv_mono (Nat.le_succ n) ⟨hchange.sound hinv.1, hinv.2⟩, hchange, trivial⟩
  · exact ⟨contract.inv_mono (Nat.le_succ n) hinv, .unchanged .., trivial⟩

theorem ensureAttempts_safe (attempts : Nat) (last : Option Error) (owner : String) (d : Book) :
    SafeOk contract cond req (fun _ _ => True) (ensureAttempts req.unit owner attempts last) d := by
  induction attempts generalizing last d with
  | zero => exact .throw
  | succ attempts ih =>
    refine .bind (read_any _ d) fun found d1 _ => ?_
    cases found with
    | some => exact .pure fun _ _ _ _ => trivial
    | none =>
      refine .bind (insertAccount_safe owner d1) fun inserted d2 _ => ?_
      obtain ⟨_, _ | _⟩ := inserted
      · exact ih (some .duplicateKey) d2
      · exact .pure fun _ _ _ _ => trivial

theorem ensureAccount_safe (owner : String) (d : Book) :
    SafeOk contract cond req (fun _ _ => True) (ensureAccount req.unit owner) d :=
  ensureAttempts_safe 5 none owner d

theorem findTransfer_safe (reference : String) (d : Book) :
    SafeOk contract cond req (fun found d => ∀ t, found = some t → Found reference t d)
      (read (transfer reference)) d := by
  refine read_safe (fun d' _ _ t ht => ?_) fun found d' d'' h hd t ht => (h t ht).persists hd
  exact ⟨mem_of_find?_eq_some ht, by simpa using List.find?_some ht⟩

theorem found_or_safe {k : Option Transfer → Op Transfer} (hsome : ∀ t, k (some t) = pure t)
    (hnone : ∀ d', SafeOk contract cond req (Found reference) (k none) d') (d : Book) :
    SafeOk contract cond req (Found reference) (read (transfer reference) >>= k) d := by
  refine .bind (findTransfer_safe reference d) fun found d1 hfound => ?_
  cases found with
  | some t => exact hsome t ▸ .pure fun _ _ hrely _ => (hfound t rfl).persists hrely
  | none => exact hnone d1

theorem topUp_safe (d : Book) :
    SafeOk contract cond (.topUp unit owner amount reference expiresIn now) (Found reference)
      (topUp unit owner amount reference expiresIn now) d := by
  refine .bind positive_safe fun _ d1 hpos => found_or_safe (fun _ => rfl) (fun d2 => ?_) d1
  refine .bind (ensureAccount_safe owner d2) fun _ d3 _ => ?_
  refine .bind (ensureAccount_safe systemTopup d3) fun _ d4 _ => ?_
  refine .bind (.transaction (fun n d' _ hinv _ => topUpIn_ends hinv.1 hinv.2 hpos)
    fun _ _ _ _ h hd _ => h.persists hd) fun attempt d5 hattempt => ?_
  cases attempt with
  | done => exact .pure fun _ _ hrely _ => Found.persists hattempt hrely
  -- a lost race is answered with the winner's transfer
  | short | raced => exact found_or_safe (fun _ => rfl) (fun _ => .throw) d5

theorem consume_safe (d : Book) : SafeOk contract cond (.consume unit owner amount reference now) (Found reference)
      (consume unit owner amount reference now) d := by
  refine .bind positive_safe fun _ d1 hpos => found_or_safe (fun _ => rfl) (fun d2 => ?_) d1
  refine .bind (ensureAccount_safe owner d2) fun _ d3 _ => ?_
  refine .bind (ensureAccount_safe systemConsumption d3) fun _ d4 _ => ?_
  refine .bind (.transaction (fun n d' _ hinv _ => consumeIn_ends hinv.1 hinv.2 hpos)
    fun _ _ _ _ h hd _ => h.persists hd) fun attempt d5 hattempt => ?_
  cases attempt with
  | done => exact .pure fun _ _ hrely _ => Found.persists hattempt hrely
  | short => exact .throw
  | raced => exact found_or_safe (fun _ => rfl) (fun _ => .throw) d5

theorem hold_safe {ttl : Nat} (d : Book) :
    SafeOk contract cond (.hold unit owner amount reference ttl now) (fun _ _ => True)
      (hold unit owner amount reference ttl now) d := by
  refine .bind positive_safe fun _ d1 hpos => ?_
  refine .bind (read_any _ d1) fun found d2 _ => ?_
  cases found with
  | some => exact .pure fun _ _ _ _ => trivial
  | none =>
    refine .bind (ensureAccount_safe owner d2) fun _ d3 _ => ?_
    refine .bind (.transaction (fun n d' _ hinv _ => holdIn_ends hinv.1 hinv.2 hpos)
      fun _ _ _ _ _ _ _ => trivial) fun attempt d4 _ => ?_
    cases attempt with
    | done => exact .pure fun _ _ _ _ => trivial
    | short => exact .throw
    | raced =>
      refine .bind (read_any _ d4) fun found d5 _ => ?_
      cases found with
      | some => exact .pure fun _ _ _ _ => trivial
      | none => exact .throw

theorem holdNotHeld_safe {post : α → Book → Prop} (holdId : String) (d : Book) :
    SafeOk contract cond req post (holdNotHeld holdId) d := by
  refine .bind (read_any _ d) fun found d1 _ => ?_
  cases found with
  | some | none => exact .throw

theorem capture_safe (d : Book) :
    SafeOk contract cond (.capture unit holdId now) (fun t d => t ∈ d.transfers) (capture unit holdId now) d := by
  refine .bind (ensureAccount_safe systemConsumption d) fun _ d1 _ => ?_
  refine .bind (.transaction (fun n d' _ hinv _ => captureIn_ends hinv.1 hinv.2)
    fun _ _ _ _ h hd _ t ht => hd.transfers t (h t ht)) fun captured d2 hcaptured => ?_
  cases captured with
  | some t => exact .pure fun _ _ hrely _ => hrely.transfers t (hcaptured t rfl)
  | none => exact holdNotHeld_safe holdId d2

theorem release_safe (d : Book) :
    SafeOk contract cond (.release unit holdId) (fun _ _ => True) (release holdId) d := by
  refine .bind (.transaction (fun n d' _ hinv _ => releaseOnce_ends hinv.1 hinv.2)
    fun _ _ _ _ _ _ _ => trivial) fun released d1 _ => ?_
  cases released with
  | true => exact .pure fun _ _ _ _ => trivial
  | false => exact holdNotHeld_safe holdId d1

theorem sweepHolds_safe (holds : List Hold) (swept : Sweep) (d : Book) :
    SafeOk contract cond (.sweep unit now) (fun _ _ => True) (sweepHolds holds swept) d := by
  induction holds generalizing swept d with
  | nil => exact .pure fun _ _ _ _ => trivial
  | cons h holds ih =>
    refine .bind (.statement (fun n d' _ hinv _ => ?_) fun _ _ _ _ _ _ _ => trivial) fun released d1 _ => ih _ d1
    refine releaseIn_ends hinv.1 (.sweep unit now h.id) (fun d'' hchange htransfers => ?_)
      ⟨hinv, .unchanged .., trivial⟩
    refine ⟨⟨hchange.sound hinv.1, ?_⟩, hchange, trivial⟩
    unfold Fresh
    rw [htransfers]
    exact hinv.2

def Known (lots : List Lot) (d : Book) : Prop := ∀ l ∈ lots, ∃ l' ∈ d.lots, l'.id = l.id ∧ l'.accountId = l.accountId

theorem Known.persists {lots : List Lot} {d' : Book} (h : Known lots d) (hd : Persists d d') : Known lots d' := by
  intro l hl
  obtain ⟨l1, hl1, hid, haccount⟩ := h l hl
  obtain ⟨_, -, hl2⟩ := hd.lots l1 hl1
  exact ⟨_, hl2, hid, haccount⟩

theorem sweepLots_safe (lots : List Lot) (swept : Sweep) (d : Book) (hknown : Known lots d) :
    SafeOk contract cond (.sweep unit now) (fun _ _ => True) (sweepLots unit now lots swept) d := by
  induction lots generalizing swept d with
  | nil => exact .pure fun _ _ _ _ => trivial
  | cons l lots ih =>
    have hrest : Known lots d := fun x hx => hknown x (mem_cons_of_mem _ hx)
    have htx : SafeOk contract cond (.sweep unit now) (fun _ d' => Known lots d')
        (Prog.transaction (.expireLot l.id l.accountId) (expireLotIn unit l.id l.accountId now)) d := by
      refine .transaction (fun n d' hrely hinv _ => ?_) fun _ _ _ _ h hd _ => h.persists hd
      have hlots : ∀ x ∈ d'.lots, x.id = l.id → x.accountId = l.accountId := by
        intro x hx hid
        obtain ⟨_, hl', hid', haccount⟩ := hknown.persists hrely l mem_cons_self
        rw [eq_of_key hinv.1.lotIds hx hl' (hid.trans hid'.symm), haccount]
      refine (expireLotIn_ends hinv.1 hinv.2 hlots).mono fun v n' d'' hv => ?_
      cases v with
      | commit =>
        have hpersists := Change.persists hv.2.1 hinv.1
        exact ⟨hv.1, hv.2.1, hrest.persists (hrely.trans hpersists)⟩
      | rollback => exact hrest.persists hrely
    refine .bind htx fun moved d1 hknown1 => ?_
    cases moved with
    | none | some => exact ih _ d1 hknown1

theorem sweep_safe (d : Book) : SafeOk contract cond (.sweep unit now) (fun _ _ => True) (sweep unit now) d := by
  refine .bind (ensureAccount_safe systemExpiry d) fun _ d1 _ => ?_
  refine .bind (read_any _ d1) fun holds d2 _ => ?_
  refine .bind (sweepHolds_safe holds _ d2) fun swept d3 _ => ?_
  refine .bind (read_safe (fun d' _ _ l hl => ?_) fun _ _ _ h hd => h.persists hd)
    fun lots d4 hknown => sweepLots_safe lots swept d4 hknown
  exact ⟨l, (mem_filter.mp hl).1, rfl, rfl⟩

end

/-! ## All calls -/

def Request.transferReference : Request → Option String
  | .topUp _ _ _ reference _ _ => some reference
  | .consume _ _ _ reference _ => some reference
  | _ => none

/-- A transfer that a call answered with is in the book, under the reference the call was made with. -/
def Promise (req : Request) (r : Except Error Reply) (d : Book) : Prop :=
  ∀ t, r = .ok (.transfer t) → t ∈ d.transfers ∧
    ∀ reference, req.transferReference = some reference → t.reference = reference

theorem system_safe (allowed : Request → Prop) (cond : Request → Point → Book → Prop) :
    (system allowed cond).Safe contract Promise := by
  intro req _ n d _
  -- a reply without a transfer has nothing to promise
  have hother : ∀ (reply : Reply) (d' : Book), (∀ t, reply ≠ .transfer t) →
      SafeOk contract cond req (fun reply d => Promise req (.ok reply) d) (pure reply : Op Reply) d' := by
    intro reply d' hne
    exact .pure fun _ _ _ _ t ht => absurd (Except.ok.inj ht) (hne t)
  have hsafe : SafeOk contract cond req (fun reply d => Promise req (.ok reply) d) (program req) d := by
    cases req with
    | topUp =>
      refine .bind (topUp_safe d) fun t d' ht => .pure fun _ _ hrely _ t' ht' => ?_
      cases ht'
      exact ⟨hrely.transfers t ht.1, fun r hr => ht.2.trans (Option.some.inj hr)⟩
    | consume =>
      refine .bind (consume_safe d) fun t d' ht => .pure fun _ _ hrely _ t' ht' => ?_
      cases ht'
      exact ⟨hrely.transfers t ht.1, fun r hr => ht.2.trans (Option.some.inj hr)⟩
    | hold =>
      exact .bind (hold_safe d) fun h d' _ => hother _ d' fun _ => Reply.noConfusion
    | capture =>
      refine .bind (capture_safe d) fun t d' ht => .pure fun _ _ hrely _ t' ht' => ?_
      cases ht'
      exact ⟨hrely.transfers t ht, fun r hr => by cases hr⟩
    | release =>
      exact .bind (release_safe d) fun _ d' _ => hother _ d' fun _ => Reply.noConfusion
    | sweep =>
      exact .bind (sweep_safe d) fun _ d' _ => hother _ d' fun _ => Reply.noConfusion
  exact hsafe.weaken fun r d' hr t ht => hr _ ht t rfl

theorem contract_inv_empty : contract.inv 0 empty := ⟨sound_empty, nofun⟩

end Rustlavel.Ledger
