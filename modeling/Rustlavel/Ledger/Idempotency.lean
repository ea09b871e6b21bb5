/-
  `top_up` and `consume` are idempotent on their reference.
-/

import Rustlavel.Ledger.Simulation

namespace Rustlavel.Ledger

open Transact List Rows Book

/-! ## Who recorded a transfer -/

def Book.Owns (d : Book) (unit owner accountId : String) : Prop :=
  ∃ a ∈ d.accounts, a.id = accountId ∧ a.owner = owner ∧ a.unit = unit

def Records (d : Book) : Request → Transfer → Prop
  | .topUp unit owner amount reference _ _, t =>
    t.kind = .topUp ∧ t.reference = reference ∧ t.amount = amount ∧ d.Owns unit owner t.toAccount
  | .consume unit owner amount reference _, t =>
    t.kind = .consume ∧ t.reference = reference ∧ t.amount = amount ∧ d.Owns unit owner t.fromAccount
  | .capture _ holdId _, t =>
    t.kind = .capture ∧ ∃ h ∈ d.holds, h.id = holdId ∧ t.reference = "capture:" ++ h.reference ∧
      t.amount = h.amount ∧ t.fromAccount = h.accountId
  | .sweep _ _, t =>
    t.kind = .expire ∧ ∃ l ∈ d.lots, t.reference = "expire:" ++ l.id ∧ t.fromAccount = l.accountId
  | _, _ => False

variable {d d' : Book} {req : Request} {p : Point} {t : Transfer} {reference : String}

theorem Book.Owns.persists {unit owner accountId : String} (h : d.Owns unit owner accountId)
    (hd : Persists d d') : d'.Owns unit owner accountId := by
  obtain ⟨a, ha, rfl, rfl, rfl⟩ := h
  exact hd.accounts a ha

theorem Records.persists (h : Records d req t) (hd : Persists d d') : Records d' req t := by
  cases req with
  | topUp | consume =>
    obtain ⟨hkind, href, hamount, howns⟩ := h
    exact ⟨hkind, href, hamount, howns.persists hd⟩
  | capture =>
    obtain ⟨hkind, x, hx, hid, href, hamount, hfrom⟩ := h
    obtain ⟨_, hx', -⟩ := hd.holds x hx
    exact ⟨hkind, _, hx', hid, href, hamount, hfrom⟩
  | sweep =>
    obtain ⟨hkind, l, hl, href, hfrom⟩ := h
    obtain ⟨_, -, hl'⟩ := hd.lots l hl
    exact ⟨hkind, _, hl', href, hfrom⟩
  | hold | release => exact h

theorem Change.records (hc : Change req p d d') (hsound : d.Sound) (ht : t ∈ d'.transfers) :
    t ∈ d.transfers ∨ Records d' req t := by
  have hd := hc.persists hsound
  -- the transfer that was there, or the one just written
  have hconcat : ∀ {x : Transfer}, t ∈ d.transfers ++ [x] → (t = x → Records d' req t) →
      t ∈ d.transfers ∨ Records d' req t := by
    intro x hx hnew
    exact (mem_append.mp hx).imp_right fun h => hnew (mem_singleton.mp h)
  cases hc with
  | toppedUp hmoves _ htarget ht' =>
    refine hconcat ht ?_
    rintro rfl
    have howns : d.Owns _ _ t.toAccount := ⟨_, hmoves.target_mem, hmoves.to_eq.symm, htarget.1, htarget.2⟩
    exact ⟨ht'.1, ht'.2.1, ht'.2.2, howns.persists hd⟩
  | consumed hmoves hsource _ ht' =>
    refine hconcat ht ?_
    rintro rfl
    have howns : d.Owns _ _ t.fromAccount := ⟨_, hmoves.source_mem, hmoves.from_eq.symm, hsource.1, hsource.2⟩
    exact ⟨ht'.1, ht'.2.1, ht'.2.2, howns.persists hd⟩
  | captured hhold _ hmoves hsource _ ht' =>
    refine hconcat ht ?_
    rintro rfl
    obtain ⟨_, hh, -⟩ := hd.holds _ hhold
    exact ⟨ht'.1, _, hh, rfl, ht'.2.1, ht'.2.2, hmoves.from_eq.trans hsource⟩
  | expired hlot _ hmoves hid _ ht' =>
    refine hconcat ht ?_
    rintro rfl
    obtain ⟨_, -, hl⟩ := hd.lots _ hlot
    exact ⟨ht'.1, _, hl, ht'.2.1, hmoves.from_eq.trans hid⟩
  | _ => exact .inl ht

def AllRecorded (made : List Request) (d : Book) : Prop :=
  ∀ t ∈ d.transfers, ∃ (j : Nat) (req : Request), made[j]? = some req ∧ Records d req t

theorem allRecorded_of_change {made : List Request} {j : Nat} (hmade : made[j]? = some req)
    (hsound : d.Sound) (h : AllRecorded made d) (hc : Change req p d d') : AllRecorded made d' := by
  intro t ht
  rcases hc.records hsound ht with ht | hrecords
  · obtain ⟨i, req', hreq', hrecords⟩ := h t ht
    exact ⟨i, req', hreq', hrecords.persists (hc.persists hsound)⟩
  · exact ⟨j, req, hmade, hrecords⟩

/-! ## Written once -/

def Book.entriesOf (d : Book) (t : Transfer) : List Entry := d.entries.filter fun e => e.transferId = t.id

structure Book.Written (d : Book) : Prop where
  ids : (d.transfers.map Transfer.id).Nodup
  entries : ∀ e ∈ d.entries, ∃ t ∈ d.transfers, t.id = e.transferId
  pair : ∀ t ∈ d.transfers, (d.entriesOf t).map (fun e => (e.accountId, e.amount)) =
    [(t.fromAccount, -t.amount), (t.toAccount, t.amount)]

theorem Book.Written.recorded (h : d.Written) (hnew : d.accepts (.newTransfer t) = true) {d1 : Book}
    (htransfers : d1.transfers = d.transfers) (hentries : d1.entries = d.entries) : (d1.recorded t).Written := by
  simp only [accepts, all_eq_true, decide_eq_true_eq] at hnew
  have htr : (d1.recorded t).transfers = d.transfers ++ [t] := by
    rw [recorded_transfers, htransfers]
  have hen : (d1.recorded t).entries = d.entries ++
      [t.entry t.fromAccount (-t.amount) (d1.balance t.fromAccount),
        t.entry t.toAccount t.amount (d1.balance t.toAccount)] := by
    rw [recorded_entries, hentries]
  refine ⟨?_, ?_, ?_⟩
  · rw [htr]
    exact nodup_concat h.ids fun x hx => (hnew x hx).1
  · rw [hen, htr]
    intro e he
    rcases mem_append.mp he with he | he
    · obtain ⟨x, hx, hid⟩ := h.entries e he
      exact ⟨x, mem_append_left _ hx, hid⟩
    · refine ⟨t, mem_append_right _ (mem_singleton_self t), ?_⟩
      simp only [mem_cons, not_mem_nil, or_false] at he
      rcases he with rfl | rfl <;> rfl
  · rw [htr]
    refine forall_concat (fun x hx => ?_) ?_
    · -- the new entries are not of an old transfer
      rw [← h.pair x hx, entriesOf, entriesOf, hen, filter_append]
      simp [Ne.symm (hnew x hx).1]
    · -- and the old ones are not of the new transfer
      have hold : d.entries.filter (fun e => e.transferId = t.id) = [] := by
        refine filter_eq_nil_iff.mpr fun e he hid => ?_
        obtain ⟨x, hx, hxid⟩ := h.entries e he
        exact (hnew x hx).1 (hxid.trans (of_decide_eq_true hid))
      rw [entriesOf, hen, filter_append, hold]
      simp

theorem Book.Written.addLot (h : d.Written) (l : Lot) : (d.addLot l).Written :=
  ⟨h.ids, h.entries, h.pair⟩

theorem Change.written (hc : Change req p d d') (h : d.Written) : d'.Written := by
  cases hc with
  | toppedUp hmoves =>
    refine Book.Written.addLot ?_ _
    exact h.recorded hmoves.new rfl rfl
  | consumed hmoves | captured _ _ hmoves | expired _ _ hmoves => exact h.recorded hmoves.new rfl rfl
  | _ => exact ⟨h.ids, h.entries, h.pair⟩

/-! ## Repeated calls -/

inductive Repeats : Request → Request → Prop where
  | topUp (unit owner : String) (amount : Int) (reference : String) (expiresIn : Option Nat)
      (now now' : Nat) :
      Repeats (.topUp unit owner amount reference expiresIn now)
        (.topUp unit owner amount reference expiresIn now')
  | consume (unit owner : String) (amount : Int) (reference : String) (now now' : Nat) :
      Repeats (.consume unit owner amount reference now) (.consume unit owner amount reference now')

theorem Repeats.first {req req' : Request} (h : Repeats req req')
    (hreq : req.transferReference = some reference) : (∃ e, (program req).run = .ret (.error e)) ∨
    ∃ k, (program req').run = (read (transfer reference)).run.bind k ∧
      ∀ t, k (.ok (some t)) = .ret (.ok (.transfer t)) := by
  cases h with
  | topUp unit owner amount =>
    cases hreq
    by_cases hle : amount ≤ 0
    · refine .inl ⟨.msg s!"an amount must be above zero; {amount} is not", ?_⟩
      simp only [program, Ledger.topUp, positive, if_pos hle]
      rfl
    · refine .inr ⟨?_, ?_, fun t => ?_⟩
      rotate_left
      · simp only [program, Ledger.topUp, positive, if_neg hle]
        rfl
      · rfl
  | consume unit owner amount =>
    cases hreq
    by_cases hle : amount ≤ 0
    · refine .inl ⟨.msg s!"an amount must be above zero; {amount} is not", ?_⟩
      simp only [program, Ledger.consume, positive, if_pos hle]
      rfl
    · refine .inr ⟨?_, ?_, fun t => ?_⟩
      rotate_left
      · simp only [program, Ledger.consume, positive, if_neg hle]
        rfl
      · rfl

theorem Book.Sound.transfer_eq (hsound : d.Sound) (ht : t ∈ d.transfers) : d.transfer t.reference = some t := by
  cases hfind : d.transfer t.reference with
  | none => exact absurd (decide_eq_true rfl) (List.find?_eq_none.mp hfind t ht)
  | some t' =>
    have href : t'.reference = t.reference := by simpa using List.find?_some hfind
    rw [eq_of_key hsound.references (mem_of_find?_eq_some hfind) ht href]

section

variable {allowed : Request → Prop} {cond : Request → Point → Book → Prop}
  {c c' : Config Request Point Book Write (Except Error Reply)} {i j : Nat}

theorem advance_read {α : Type} {f : Book → α} {k : Except Error α → Prog Point Book Write (Except Error Reply)}
    (hcall : c.calls[j]? = some (req, (read f).run.bind k))
    {req' : Request} (h : (system allowed cond).Advance j req' p c c') :
    c'.db = c.db ∧ c'.calls[j]? = some (req, k (.ok (f c.db))) := by
  cases h with
  | mk hstep _ hrun =>
    obtain ⟨hlt, -⟩ := List.getElem?_eq_some_iff.mp hcall
    rw [hstep] at hcall
    cases hcall
    cases hrun
    exact ⟨rfl, List.getElem?_set_self hlt⟩

theorem answered_of_run {c0 : Config Request Point Book Write (Except Error Reply)}
    (hok : c0.Ok (system allowed cond) contract Promise) (hrun : (system allowed cond).Run c0 c)
    (ht : t ∈ c0.db.transfers) (href : t.reference = reference)
    (hfirst : ∃ k, (program req).run = (read (transfer reference)).run.bind k ∧
      ∀ t, k (.ok (some t)) = .ret (.ok (.transfer t)))
    (hj : c0.calls.length ≤ j) {q : Prog Point Book Write (Except Error Reply)}
    (hcall : c.calls[j]? = some (req, q)) : (q = (program req).run ∨ q = .ret (.ok (.transfer t))) ∧
    ∀ p c', (system allowed cond).Advance j req p c c' →
      c'.db = c.db ∧ c'.calls[j]? = some (req, .ret (.ok (.transfer t))) := by
  obtain ⟨_, hprogram, hk⟩ := hfirst
  -- what the first step of the call does, wherever it is taken
  have hadvance : ∀ {c c' p}, (system allowed cond).Run c0 c →
      c.calls[j]? = some (req, (program req).run) → (system allowed cond).Advance j req p c c' →
      c'.db = c.db ∧ c'.calls[j]? = some (req, .ret (.ok (.transfer t))) := by
    intro c c' p hrun hcall hstep
    have hsafe := system_safe allowed cond
    have hmem := (hsafe.rely hok hrun).transfers t ht
    rw [hprogram] at hcall
    obtain ⟨hdb, hcall'⟩ := advance_read hcall hstep
    rw [← href, (hsafe.run hok hrun).inv.1.transfer_eq hmem, hk] at hcall'
    exact ⟨hdb, hcall'⟩
  have hstate : q = (program req).run ∨ q = .ret (.ok (.transfer t)) := by
    induction hrun generalizing q with
    | refl => exact absurd (List.getElem?_eq_some_iff.mp hcall).1 (Nat.not_lt.mpr hj)
    | @tail c c' hrun hstep ih =>
      cases hstep with
      | call req' =>
        rw [List.getElem?_append] at hcall
        split at hcall
        · exact ih hcall
        · obtain ⟨rfl, rfl⟩ : req = req' ∧ q = (system allowed cond).program req' := by
            simpa using mem_of_getElem? hcall
          exact .inl rfl
      | @advance _ i req' p h =>
        by_cases hij : i = j
        · subst hij
          obtain ⟨_, _, hq0, hq1⟩ := h.getElem?_self
          rw [hq1] at hcall
          cases hcall
          rcases ih hq0 with rfl | rfl
          · rw [(hadvance hrun hq0 h).2] at hq1
            cases hq1
            exact .inr rfl
          · exact absurd hq0 h.ne_ret
        · rw [h.getElem?_of_ne hij] at hcall
          exact ih hcall
  refine ⟨hstate, fun p c' hstep => ?_⟩
  rcases hstate with rfl | rfl
  · exact hadvance hrun hcall hstep
  · exact absurd hcall hstep.ne_ret

/-- A call of `top_up` or `consume` answers with the one transfer under its reference, written once with two
    entries, asked for by a call with that reference; made again it answers the same and moves nothing. -/
theorem keyed_of_reachable (hc : (system allowed cond).Reachable empty c) {reference : String}
    (hreq : req.transferReference = some reference) (hreturned : c.calls[i]? = some (req, .ret (.ok (.transfer t)))) :
    (c.db.transfers.filter fun x => x.reference = reference) = [t] ∧
    (c.db.entriesOf t).map (fun e => (e.accountId, e.amount)) =
      [(t.fromAccount, -t.amount), (t.toAccount, t.amount)] ∧
    (Records c.db req t ∨ ∃ j ≠ i, ∃ req', c.requests[j]? = some req' ∧ Records c.db req' t) ∧
    ∀ c₁ j req' q, (system allowed cond).Run c c₁ → c.calls.length ≤ j → Repeats req req' →
      c₁.calls[j]? = some (req', q) →
      (q = (program req').run ∨ q = .ret (.ok (.transfer t))) ∧
      ∀ p c₂, (system allowed cond).Advance j req' p c₁ c₂ →
        c₂.db = c₁.db ∧ c₂.calls[j]? = some (req', .ret (.ok (.transfer t))) := by
  have hsafe := system_safe allowed cond
  have hok := hsafe.reachable contract_inv_empty hc
  have hwritten : c.db.Written :=
    hsafe.invariant contract_inv_empty ⟨nodup_nil, nofun, nofun⟩ (fun _ _ _ _ _ _ _ h _ hstep => hstep.written h) hc
  have hrecorded : AllRecorded c.requests c.db := by
    refine hsafe.invariant_requests contract_inv_empty nofun
      (fun made req' d h t ht => ?_) (fun _ _ _ _ _ _ _ hmade hinv h hstep =>
        allRecorded_of_change hmade hinv.1 h hstep) hc
    obtain ⟨j, req0, hj, hrecords⟩ := h t ht
    exact ⟨j, req0, getElem?_concat hj _, hrecords⟩
  obtain ⟨ht, href⟩ := hok.returned (mem_of_getElem? hreturned) t rfl
  obtain rfl := href reference hreq
  refine ⟨filter_key hok.inv.1.references ht, hwritten.pair t ht, ?_, ?_⟩
  · obtain ⟨j, req', hj, hrecords⟩ := hrecorded t ht
    by_cases hji : j = i
    · subst hji
      rw [Config.requests, List.getElem?_map, hreturned] at hj
      cases hj
      exact .inl hrecords
    · exact .inr ⟨j, hji, req', hj, hrecords⟩
  · intro c₁ j req' q hrun hj hrepeats hcall
    rcases hrepeats.first hreq with ⟨e, hprogram⟩ | hfirst
    · -- a refused amount has not returned a transfer
      cases hc.of_program_ret hreturned hprogram
    · exact answered_of_run hok hrun ht rfl hfirst hj hcall

theorem keyed_of_reachable_run : ∃ c t, (system (fun _ => True) fun _ _ _ => True).Reachable empty c ∧
    c.calls[1]? = some (.topUp "credits" "ana" 10 "pay-1" none 105, .ret (.ok (.transfer t))) ∧
    t.createdAt = 100 ∧ (c.db.transfers.filter fun x => x.reference = "pay-1") = [t] := by
  obtain ⟨c, hc, hcall⟩ := (system (fun _ => True) fun _ _ _ => True).play_returned
    (inTurn [(.topUp "credits" "ana" 10 "pay-1" none 100, 6),
      (.topUp "credits" "ana" 10 "pay-1" none 105, 1)]) empty 1
    (.topUp "credits" "ana" 10 "pay-1" none 105) (.ok (.transfer
      { id := "tr_2", reference := "pay-1", kind := .topUp, fromAccount := "acc_1"
        toAccount := "acc_0", amount := 10, createdAt := 100, metadata := .null }))
    (by decide)
  exact ⟨c, _, hc, hcall, rfl, (keyed_of_reachable hc rfl hcall).1⟩

/-- A consumption under a reference that a top-up has used is answered with the top-up. -/
theorem reference_taken : ∃ c t, (system (fun _ => True) fun _ _ _ => True).Reachable empty c ∧
    c.calls[1]? = some (.consume "credits" "ben" 5 "order-7" 101, .ret (.ok (.transfer t))) ∧
    t.kind = .topUp ∧ t.amount = 10 := by
  obtain ⟨c, hc, hcall⟩ := (system (fun _ => True) fun _ _ _ => True).play_returned
    (inTurn [(.topUp "credits" "ana" 10 "order-7" none 100, 6),
      (.consume "credits" "ben" 5 "order-7" 101, 1)]) empty 1
    (.consume "credits" "ben" 5 "order-7" 101) (.ok (.transfer
      { id := "tr_2", reference := "order-7", kind := .topUp, fromAccount := "acc_1"
        toAccount := "acc_0", amount := 10, createdAt := 100, metadata := .null }))
    (by decide)
  exact ⟨c, _, hc, hcall, rfl, rfl⟩

end

end Rustlavel.Ledger
