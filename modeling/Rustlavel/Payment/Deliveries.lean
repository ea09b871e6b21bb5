/-
  What deliveries of one event add up to, however they interleave.
-/

import Rustlavel.Payment.Receiver

open Transact List

namespace Rustlavel.Payment

variable {H B : Type}

/-! ## At most once -/

def Stage.holding : Stage → Option String
  | .handling key | .withdrawing key _ => some key
  | .received | .answered _ => none

structure Sound (d : World) : Prop where
  recorded : ∀ {key}, key ∈ d.handled → d.recorded key
  once : d.handled.Nodup

def Holds (s : Stage) (d : World) : Prop := ∀ key ∈ s.holding, d.recorded key ∧ key ∉ d.handled

theorem Sound.empty : Sound {} := ⟨by simp, nodup_nil⟩

variable {r : Receiver H B} {x : Delivery H B} {s s' : Stage} {l : Point} {n n' : Nat} {d d' : World}

theorem Sound.move (h : Sound d) (hs : Holds s d) (hmove : Moves r x s l n d s' n' d') : Sound d' ∧ Holds s' d' := by
  cases hmove with
  | @recorded event _ _ _ hnew =>
    refine ⟨⟨fun hkey => ?_, h.once⟩, fun key hkey => ?_⟩
    · exact World.recorded_addWebhook.mpr (.inl (h.recorded hkey))
    · cases hkey
      -- had it been handled, it would have been recorded
      exact ⟨World.recorded_addWebhook.mpr (.inr rfl), fun hmem => hnew (h.recorded hmem)⟩
  | duplicate | recordFailed | withdrawFailed => exact ⟨h, nofun⟩
  | @handled key =>
    obtain ⟨hrecorded, hnot⟩ := hs key rfl
    refine ⟨⟨fun hkey => ?_, ?_⟩, nofun⟩
    · rcases mem_append.mp hkey with hmem | hmem
      · exact h.recorded hmem
      · rw [mem_singleton.mp hmem]
        exact hrecorded
    · exact nodup_append.mpr ⟨h.once, by simp, fun a ha b hb => by
        rw [mem_singleton.mp hb]
        rintro rfl
        exact hnot ha⟩
  | failed => exact ⟨h, hs⟩
  | @withdrawn key =>
    obtain ⟨-, hnot⟩ := hs key rfl
    refine ⟨⟨fun {k} hkey => World.recorded_removeWebhook.mpr ⟨h.recorded hkey, ?_⟩, h.once⟩, nofun⟩
    rintro rfl
    exact hnot hkey

theorem Holds.others {t : Stage} (hs : Holds s d) (ht : Holds t d)
    (hapart : ∀ key ∈ s.holding, key ∉ t.holding) (hmove : Moves r x s l n d s' n' d') :
    Holds t d' ∧ ∀ key ∈ s'.holding, key ∉ t.holding := by
  cases hmove with
  | @recorded event _ _ _ hnew =>
    refine ⟨fun key hkey => ?_, fun key hkey htkey => ?_⟩
    · exact ⟨World.recorded_addWebhook.mpr (.inl (ht key hkey).1), (ht key hkey).2⟩
    · cases hkey
      exact hnew (ht _ htkey).1
  | duplicate | recordFailed | withdrawFailed => exact ⟨ht, nofun⟩
  | @handled key =>
    refine ⟨fun k hk => ⟨(ht k hk).1, fun hmem => ?_⟩, nofun⟩
    rcases mem_append.mp hmem with hmem | hmem
    · exact (ht k hk).2 hmem
    · rw [mem_singleton.mp hmem] at hk
      exact hapart key rfl hk
  | failed => exact ⟨ht, hapart⟩
  | withdrawn =>
    refine ⟨fun k hk => ⟨World.recorded_removeWebhook.mpr ⟨(ht k hk).1, ?_⟩, (ht k hk).2⟩, nofun⟩
    rintro rfl
    exact hapart _ rfl hk

def atMostOnce (r : Receiver H B) (cond : Delivery H B → Point → World → Prop) : Outline (staging r cond) where
  inv _ := Sound
  Holds _ := Holds
  Apart _ s _ t := ∀ key ∈ s.holding, key ∉ t.holding
  symm h key hkey hkey' := h key hkey' hkey
  start _ _ := ⟨nofun, fun _ _ => nofun⟩
  move h hs _ hmove := h.move hs hmove
  others _ hs ht hapart _ hmove := hs.others ht hapart hmove

theorem nodup_handled_of_reachable {cond : Delivery H B → Point → World → Prop}
    {c : Config (Delivery H B) Point World Write Response} (hc : (system r cond).Reachable {} c) :
    c.db.handled.Nodup := by
  obtain ⟨_, ha, rfl⟩ := (staging r cond).of_reachable hc
  exact ((atMostOnce r cond).fits_of_reachable Sound.empty ha).inv.once

/-! ## Runs -/

def paid : WebhookEvent := { id := "ch_1", kind := .chargePaid, raw := "paid" }

def trusting : Receiver Unit Unit := { verifyWebhook := fun _ _ => .ok paid, gateway := "gateway" }

def succeeding : Delivery Unit Unit := { headers := (), body := () }

def failing : Delivery Unit Unit := { headers := (), body := (), handlerFails := some "down" }

/-! ## What is acknowledged has been handled -/

/-- No other delivery of the event is between its record and the end of its handler, or of its withdrawal. -/
def Settled (_ : Delivery H B) : Point → World → Prop
  | .record key, d => key ∉ d.running
  | _, _ => True

/-- A record stands for a handler that has succeeded, or for one that runs. -/
def Tracked (d : World) : Prop := ∀ key, d.recorded key → key ∈ d.handled ∨ key ∈ d.running

theorem Tracked.move (h : Tracked d) (hmove : Moves r x s l n d s' n' d') : Tracked d' := by
  cases hmove with
  | recorded =>
    intro key hkey
    rcases World.recorded_addWebhook.mp hkey with hkey | rfl
    · exact (h key hkey).imp_right (mem_append_left _)
    · exact .inr (mem_append_right _ (mem_singleton_self _))
  | @handled done =>
    intro key hkey
    by_cases hdone : key = done
    · exact .inl (mem_append_right _ (mem_singleton.mpr hdone))
    · exact (h key hkey).imp (mem_append_left _) fun hmem => mem_filter.mpr ⟨hmem, decide_eq_true hdone⟩
  | withdrawn =>
    -- the record is gone with the delivery
    intro key hkey
    obtain ⟨hkey, hne⟩ := World.recorded_removeWebhook.mp hkey
    exact (h key hkey).imp_right fun hmem => mem_filter.mpr ⟨hmem, decide_eq_true hne⟩
  | duplicate | recordFailed | failed | withdrawFailed => exact h

instance (x : Delivery H B) (l : Point) (d : World) : Decidable (Settled x l d) := by
  cases l <;> unfold Settled <;> infer_instance

def Acknowledged (r : Receiver H B) (x : Delivery H B) (s : Stage) (d : World) : Prop :=
  match s with
  | .received => True
  | .handling key | .withdrawing key _ => ∃ event, r.event x = some event ∧ key = event.dedupKey
  | .answered h => (Receiver.respond h).status = 200 → ∃ event, r.event x = some event ∧ event.dedupKey ∈ d.handled

theorem Moves.handled_subset (h : Moves r x s l n d s' n' d') : d.handled ⊆ d'.handled := by
  cases h with
  | handled => exact subset_append_left ..
  | recorded | duplicate | recordFailed | failed | withdrawn | withdrawFailed =>
    exact List.Subset.refl _

theorem Acknowledged.mono (h : Acknowledged r x s d) (hsubset : d.handled ⊆ d'.handled) : Acknowledged r x s d' := by
  cases s with
  | received => trivial
  | handling | withdrawing => exact h
  | answered =>
    intro hstatus
    obtain ⟨event, hevent, hmem⟩ := h hstatus
    exact ⟨event, hevent, hsubset hmem⟩

theorem Acknowledged.move (h : Acknowledged r x s d) (htracked : Tracked d) (hcond : Settled x l d)
    (hmove : Moves r x s l n d s' n' d') : Acknowledged r x s' d' := by
  cases hmove with
  | @recorded event _ _ hevent => exact ⟨event, hevent, rfl⟩
  | @duplicate event _ _ hevent hseen =>
    exact fun _ => ⟨event, hevent, (htracked _ hseen).resolve_right hcond⟩
  | handled =>
    obtain ⟨event, hevent, rfl⟩ := h
    exact fun _ => ⟨event, hevent, mem_append_right _ (mem_singleton_self _)⟩
  | failed => exact h
  | recordFailed | withdrawn | withdrawFailed => exact nofun

def acknowledged (r : Receiver H B) : Outline (staging r Settled) where
  inv _ := Tracked
  Holds := Acknowledged r
  Apart _ _ _ _ := True
  symm _ := trivial
  start _ _ := ⟨trivial, fun _ _ => trivial⟩
  move h hs hcond hmove := ⟨h.move hmove, hs.move h hcond hmove⟩
  others _ _ ht _ _ hmove := ⟨ht.mono hmove.handled_subset, trivial⟩

theorem answered_of_rest {response : Response} (h : rest r x s = .ret response) (hstatus : response.status = 200) :
    ∃ handled, s = .answered handled ∧ Receiver.respond handled = response := by
  cases s with
  | received =>
    -- a delivery returns at once only when its signature does not verify
    rw [rest, Receiver.handle, Receiver.deliver] at h
    cases hverify : r.verifyWebhook x.headers x.body with
    | error =>
      rw [hverify] at h
      cases h
      cases hstatus
    | ok =>
      rw [hverify] at h
      cases h
  | handling | withdrawing => cases h
  | answered handled =>
    cases h
    exact ⟨handled, rfl, rfl⟩

/-- If no delivery of an event is recorded while another one is in its handler or before its withdrawal, the handler
    succeeds at most once for an event, and once if it was answered 200. -/
theorem handled_exactly_once (r : Receiver H B) (c : Config (Delivery H B) Point World Write Response)
    (hc : (system r Settled).Reachable {} c) (event : WebhookEvent) : c.db.handled.count event.dedupKey ≤ 1 ∧
      ∀ (i : Nat) x response, c.calls[i]? = some (x, Prog.ret response) → r.event x = some event →
        response.status = 200 → c.db.handled.count event.dedupKey = 1 := by
  have honce := nodup_iff_count_le_one.mp (nodup_handled_of_reachable hc) event.dedupKey
  refine ⟨honce, fun i x response hcall hevent hstatus => ?_⟩
  have hmem : event.dedupKey ∈ c.db.handled := by
    obtain ⟨_, ha, rfl⟩ := (staging r Settled).of_reachable hc
    obtain ⟨_, hget, hrest⟩ := (staging r Settled).of_call hcall
    obtain ⟨_, rfl, rfl⟩ := answered_of_rest hrest hstatus
    obtain ⟨_, hevent', hmem⟩ := ((acknowledged r).fits_of_reachable
      (fun _ hkey => absurd hkey not_mem_nil) ha).holds hget hstatus
    rw [hevent] at hevent'
    cases hevent'
    exact hmem
  have := count_pos_iff.mpr hmem
  omega

theorem handled_exactly_once_of_retry : ∃ c, (system trusting Settled).Reachable {} c ∧
      c.calls[1]? = some (succeeding, Prog.ret { status := 200 }) ∧
      c.db.handled.count paid.dedupKey = 1 := by
  obtain ⟨c, hc, hcall⟩ := (system trusting Settled).play_returned
    [.call succeeding, .advance 0, .advance 0, .call succeeding, .advance 1] {} 1 succeeding
    { status := 200 } (by decide)
  exact ⟨c, hc, hcall, (handled_exactly_once trusting c hc paid).2 1 succeeding _ hcall rfl rfl⟩

/-- A duplicate is acknowledged while the handler is running; then that handler fails and the record is withdrawn. -/
theorem acknowledged_unhandled : ∃ c, (system trusting fun _ _ _ => True).Reachable {} c ∧
      c.calls.map (fun call => (call.1, call.2.result)) =
        [(failing, some { status := 500 }), (succeeding, some { status := 200 })] ∧
      c.db = {} := by
  obtain ⟨c, hc, hcalls⟩ := (system trusting fun _ _ _ => True).play_reachable
    [.call failing, .advance 0, .call succeeding, .advance 1, .advance 0, .advance 0] {}
    (fun c => (c.calls.map (fun call => (call.1, call.2.result)), c.db)) rfl
  exact ⟨c, hc, (Prod.mk.inj hcalls).1, (Prod.mk.inj hcalls).2⟩

end Rustlavel.Payment
