/-
  Several gateways' logs over the one table `payment_webhooks`.
-/

import Rustlavel.Lib.Reading
import Rustlavel.Payment.Receiver

namespace Rustlavel.Payment

open List

open Billing (EventKind)

/-! ## Calls -/

inductive LogCall where
  | record (gateway : String) (now : Int) (event : WebhookEvent)
  | withdraw (gateway : String) (event : WebhookEvent)
  | raw (gateway : String) (event : WebhookEvent)

namespace LogCall

def gateway : LogCall → String
  | record gateway _ _ | withdraw gateway _ | raw gateway _ => gateway

def event : LogCall → WebhookEvent
  | record _ _ event | withdraw _ event | raw _ event => event

/-- What an event is told apart by. -/
def identity (call : LogCall) : String × EventKind × String := (call.gateway, call.event.kind, call.event.id)

/-- What a call answers: whether the event was recorded, or the body kept for it. -/
def answer (d : World) : LogCall → Option Bool × Option String
  | record _ _ event => (some (decide (¬ d.recorded event.dedupKey)), none)
  | withdraw _ _ => (none, none)
  | raw _ event => (none, (d.webhooks.find? (·.dedupKey = event.dedupKey)).map (·.raw))

def table (d : World) : LogCall → World
  | record gateway now event =>
    if d.recorded event.dedupKey then d
    else d.addWebhook ⟨event.dedupKey, gateway, event.kind.asStr, event.id, event.raw, now⟩
  | withdraw _ event => d.removeWebhook event.dedupKey
  | raw _ _ => d

/-- The identities that are recorded and not withdrawn. -/
def live (ids : List (String × EventKind × String)) (call : LogCall) : List (String × EventKind × String) :=
  match call with
  | record .. => if call.identity ∈ ids then ids else ids ++ [call.identity]
  | withdraw .. => ids.filter (· ≠ call.identity)
  | raw .. => ids

end LogCall

/-! ## Keys -/

def kindNamed (name : String) : EventKind :=
  ([.chargePaid, .chargeExpired, .chargeFailed, .transferCompleted, .transferFailed].find?
    fun kind : EventKind => kind.asStr = name).getD (.other name)

/-- A kind whose name has no colon and is no other kind's. -/
def Named (kind : EventKind) : Prop := ':' ∉ kind.asStr.toList ∧ kindNamed kind.asStr = kind

theorem dedupKey_injective {e e' : WebhookEvent} (h : Named e.kind) (h' : Named e'.kind)
    (heq : e.dedupKey = e'.dedupKey) : e.kind = e'.kind ∧ e.id = e'.id := by
  have hchars : e.kind.asStr.toList ++ ':' :: e.id.toList = e'.kind.asStr.toList ++ ':' :: e'.id.toList := by
    simpa [WebhookEvent.dedupKey] using congrArg String.toList heq
  obtain ⟨hkind, hid⟩ := Reading.append_cons_injective h.1 h'.1 hchars
  refine ⟨?_, String.toList_inj.mp hid⟩
  rw [← h.2, ← h'.2, String.toList_inj.mp hkind]

/-! ## The table and the identities -/

/-- The kinds have names of their own, and no two gateways have a kind and id in common. -/
def Apart (calls : List LogCall) : Prop := (∀ call ∈ calls, Named call.event.kind) ∧
  ∀ a ∈ calls, ∀ b ∈ calls, a.event.kind = b.event.kind → a.event.id = b.event.id → a.gateway = b.gateway

variable {calls : List LogCall} {a b : LogCall} {ids : List (String × EventKind × String)}

theorem identity_of_dedupKey (h : Apart calls) (ha : a ∈ calls) (hb : b ∈ calls) :
    a.event.dedupKey = b.event.dedupKey ↔ a.identity = b.identity := by
  constructor
  · intro heq
    obtain ⟨hkind, hid⟩ := dedupKey_injective (h.1 a ha) (h.1 b hb) heq
    rw [LogCall.identity, LogCall.identity, hkind, hid, h.2 a ha b hb hkind hid]
  · intro heq
    obtain ⟨-, heq⟩ := Prod.mk.inj heq
    obtain ⟨hkind, hid⟩ := Prod.mk.inj heq
    rw [WebhookEvent.dedupKey, WebhookEvent.dedupKey, hkind, hid]

/-- The table has the keys of the live identities, as far as the calls go. -/
def KeysLive (calls : List LogCall) (d : World) (ids : List (String × EventKind × String)) : Prop :=
  ∀ call ∈ calls, d.recorded call.event.dedupKey ↔ call.identity ∈ ids

theorem KeysLive.step {d : World} (h : KeysLive calls d ids) (hapart : Apart calls)
    (ha : a ∈ calls) : KeysLive calls (a.table d) (a.live ids) := by
  intro b hb
  have hsame := identity_of_dedupKey hapart hb ha
  have hrecorded := h a ha
  cases a with
  | record gateway now event =>
    rw [LogCall.table, LogCall.live]
    by_cases hmem : d.recorded event.dedupKey
    · rw [if_pos hmem, if_pos (hrecorded.mp hmem)]
      exact h b hb
    · rw [if_neg hmem, if_neg (fun hin => hmem (hrecorded.mpr hin)), World.recorded_addWebhook, h b hb,
        mem_append, mem_singleton]
      exact or_congr_right hsame
  | withdraw =>
    rw [LogCall.table, LogCall.live, World.recorded_removeWebhook, h b hb, mem_filter, decide_eq_true_eq]
    exact and_congr_right fun _ => not_congr hsame
  | raw => exact h b hb

theorem KeysLive.run {d : World} {more : List LogCall} (h : KeysLive calls d ids)
    (hapart : Apart calls) (hmore : more ⊆ calls) :
    KeysLive calls (more.foldl LogCall.table d) (more.foldl LogCall.live ids) := by
  induction more generalizing d ids with
  | nil => exact h
  | cons call more ih =>
    obtain ⟨hcall, hmore⟩ := cons_subset.mp hmore
    exact ih (h.step hapart hcall) hmore

/-- An event is refused exactly if it is recorded and not withdrawn, and a withdrawal leaves every other one. -/
theorem log_identities (calls : List LogCall) (gateway : String) (now : Int) (event : WebhookEvent) (other : LogCall)
    (hapart : Apart (.record gateway now event :: other :: calls)) :
    let d := calls.foldl LogCall.table {}
    let ids := calls.foldl LogCall.live []
    (((LogCall.record gateway now event).answer d).1 = some false ↔ (gateway, event.kind, event.id) ∈ ids) ∧
      (other.identity ≠ (gateway, event.kind, event.id) →
        (((LogCall.withdraw gateway event).table d).recorded other.event.dedupKey ↔
          d.recorded other.event.dedupKey)) := by
  intro d ids
  have hstart : KeysLive (.record gateway now event :: other :: calls) {} [] := fun _ _ => by simp [World.recorded]
  have hholds := hstart.run hapart (subset_cons_of_subset _ (subset_cons_self other calls))
  constructor
  · have hiff := hholds _ mem_cons_self
    rw [LogCall.answer, Option.some.injEq, decide_eq_false_iff_not, not_not]
    exact hiff
  · intro hother
    rw [LogCall.table, World.recorded_removeWebhook]
    have hsame := identity_of_dedupKey hapart (mem_cons_of_mem _ mem_cons_self) mem_cons_self
    exact and_iff_left fun heq => hother (hsame.mp heq)

theorem log_identities_of_paid :
    let d := LogCall.table {} (.record "pix" 0 ⟨"7", .chargePaid, ""⟩)
    ((LogCall.record "pix" 1 ⟨"7", .chargePaid, ""⟩).answer d).1 = some false := by
  have hnamed : Named .chargePaid := ⟨by decide, by decide⟩
  refine ((log_identities [.record "pix" 0 ⟨"7", .chargePaid, ""⟩] "pix" 1 ⟨"7", .chargePaid, ""⟩
    (.raw "pix" ⟨"7", .chargePaid, ""⟩) ⟨?_, ?_⟩).1).mpr (by decide)
  · simpa [LogCall.event] using hnamed
  · simp [LogCall.gateway]

/-- A gateway's event is taken for one that another gateway has recorded. -/
theorem other_gateway_suppressed :
    let d := LogCall.table {} (.record "pix" 0 ⟨"7", .chargePaid, ""⟩)
    ((LogCall.record "card" 1 ⟨"7", .chargePaid, ""⟩).answer d).1 = some false ∧
      (LogCall.table d (.withdraw "card" ⟨"7", .chargePaid, ""⟩)).webhooks = [] := by
  decide

end Rustlavel.Payment
