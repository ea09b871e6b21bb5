/-
  The endpoint a payment gateway calls: verify the signature, record the event under its key, run the
  application's handler, and withdraw the record if the handler fails.
-/

import Rustlavel.Billing.Tables
import Rustlavel.Lib.Stages

open Transact

namespace Rustlavel.Payment

open Billing (EventKind)

/-! ## Events and the log -/

structure WebhookEvent where
  id : String
  kind : EventKind
  raw : String
  deriving DecidableEq

def WebhookEvent.dedupKey (event : WebhookEvent) : String := event.kind.asStr ++ ":" ++ event.id

structure Webhook where
  dedupKey : String
  gateway : String
  kind : String
  eventId : String
  raw : String
  receivedAt : Int
  deriving DecidableEq

/-- The log, and beside it what the handler has done: the events it has succeeded for, and those whose delivery is
    between its record and the end of its handler, or of its withdrawal. -/
structure World where
  webhooks : List Webhook := []
  handled : List String := []
  running : List String := []

inductive Write where
  | record (row : Webhook)
  | withdraw (dedupKey : String)
  | handle (dedupKey : String)

namespace World

variable (d : World)

def recorded (key : String) : Prop := key ∈ d.webhooks.map (·.dedupKey)

instance (key : String) : Decidable (d.recorded key) := inferInstanceAs (Decidable (_ ∈ _))

def addWebhook (row : Webhook) : World :=
  { d with webhooks := d.webhooks ++ [row], running := d.running ++ [row.dedupKey] }

def removeWebhook (key : String) : World :=
  { d with webhooks := d.webhooks.filter (·.dedupKey ≠ key), running := d.running.filter (· ≠ key) }

def addHandled (key : String) : World :=
  { d with handled := d.handled ++ [key], running := d.running.filter (· ≠ key) }

variable {d} {key key' : String} {row : Webhook}

@[simp] theorem recorded_addWebhook : (d.addWebhook row).recorded key ↔ d.recorded key ∨ key = row.dedupKey := by
  simp [recorded, addWebhook]

@[simp] theorem recorded_removeWebhook : (d.removeWebhook key').recorded key ↔ d.recorded key ∧ key ≠ key' := by
  simp only [recorded, removeWebhook, List.mem_map, List.mem_filter, decide_eq_true_eq]
  constructor
  · rintro ⟨row, ⟨hmem, hne⟩, rfl⟩
    exact ⟨⟨row, hmem, rfl⟩, hne⟩
  · rintro ⟨⟨row, hmem, rfl⟩, hne⟩
    exact ⟨row, ⟨hmem, hne⟩, rfl⟩

end World

instance : Store World Write where
  apply
    | .record row, d => d.addWebhook row
    | .withdraw key, d => d.removeWebhook key
    | .handle key, d => d.addHandled key

/-! ## The receiver -/

inductive Point where
  | record (dedupKey : String)
  | handle (dedupKey : String)
  | withdraw (dedupKey : String)

inductive Handled where
  | processed
  | duplicate
  | refused
  | handlerFailed (error : String)

structure Response where
  status : Nat
  message : Option String := none
  deriving DecidableEq

/-- A gateway's check of a signature, and the name its log files events under. -/
structure Receiver (H B : Type) where
  verifyWebhook : H → B → Except String WebhookEvent
  gateway : String

structure Delivery (H B : Type) where
  headers : H
  body : B
  now : Int := 0
  recordFails : Option String := none
  handlerFails : Option String := none
  withdrawFails : Option String := none
  deriving DecidableEq

abbrev Op (α : Type) : Type 1 := Prog Point World Write α

variable {H B : Type}

namespace Receiver

variable (r : Receiver H B) (x : Delivery H B)

def event : Option WebhookEvent := (r.verifyWebhook x.headers x.body).toOption

def row (event : WebhookEvent) : Webhook where
  dedupKey := event.dedupKey
  gateway := r.gateway
  kind := event.kind.asStr
  eventId := event.id
  raw := event.raw
  receivedAt := x.now

/-- Insert the event under its unique key; `false` when the key is taken. -/
def record (event : WebhookEvent) : Op (Except String Bool) := (Prog.statement (.record event.dedupKey) <|
    match x.recordFails with
    | some error => throw error
    | none => Tx.tryUpdate fun d =>
      if d.recorded event.dedupKey then none else some (.record (r.row x event))).run

def withdraw (key : String) : Op (Except String Bool) := (Prog.statement (.withdraw key) <|
    match x.withdrawFails with
    | some error => throw error
    | none => Tx.tryUpdate fun _ => some (.withdraw key)).run

def handler (key : String) : Op (Except String Bool) := (Prog.statement (.handle key) <|
    match x.handlerFails with
    | some error => throw error
    | none => Tx.tryUpdate fun _ => some (.handle key)).run

def undo (key error : String) : Op Handled := do
  let _ ← withdraw x key
  pure (.handlerFailed error)

def process (key : String) : Op Handled := do
  match ← handler x key with
  | .ok _ => pure .processed
  | .error error => undo x key error

def deliver : Op Handled :=
  match r.verifyWebhook x.headers x.body with
  | .error _ => pure .refused
  | .ok event => do
    match ← r.record x event with
    | .ok true => process x event.dedupKey
    | .ok false => pure .duplicate
    | .error error => pure (.handlerFailed s!"the webhook log failed: {error}")

def respond : Handled → Response
  | .processed | .duplicate => { status := 200 }
  | .refused => { status := 401, message := some "the signature did not verify" }
  | .handlerFailed _ => { status := 500 }

def handle : Op Response := do
  let handled ← r.deliver x
  pure (respond handled)

end Receiver

variable (r : Receiver H B) (cond : Delivery H B → Point → World → Prop)

def system : System (Delivery H B) Point World Write Response where
  program := r.handle
  allowed x := x.recordFails = none ∧ x.withdrawFails = none
  cond := cond

instance (r : Receiver H B) (cond : Delivery H B → Point → World → Prop) : DecidablePred (system r cond).allowed :=
  fun x => inferInstanceAs (Decidable (x.recordFails = none ∧ x.withdrawFails = none))

instance (r : Receiver H B) (cond : Delivery H B → Point → World → Prop)
    [∀ x l d, Decidable (cond x l d)] (x : Delivery H B) (l : Point) (d : World) :
    Decidable ((system r cond).cond x l d) := inferInstanceAs (Decidable (cond x l d))

/-! ## Stages of a delivery -/

inductive Stage where
  | received
  | handling (dedupKey : String)
  | withdrawing (dedupKey error : String)
  | answered (handled : Handled)

def rest (r : Receiver H B) (x : Delivery H B) : Stage → Op Response
  | .received => r.handle x
  | .handling key => Receiver.process x key >>= fun h => pure (Receiver.respond h)
  | .withdrawing key error => Receiver.undo x key error >>= fun h => pure (Receiver.respond h)
  | .answered h => pure (Receiver.respond h)

inductive Moves (r : Receiver H B) (x : Delivery H B) : Stage → Point → Nat → World → Stage → Nat → World → Prop where
  | recorded {event n d} (hevent : r.event x = some event) (hnew : ¬ d.recorded event.dedupKey) :
      Moves r x .received (.record event.dedupKey) n d (.handling event.dedupKey) n (d.addWebhook (r.row x event))
  | duplicate {event n d} (hevent : r.event x = some event) (hseen : d.recorded event.dedupKey) :
      Moves r x .received (.record event.dedupKey) n d (.answered .duplicate) n d
  | recordFailed {event n d} (error : String) (hfails : x.recordFails = some error) :
      Moves r x .received (.record event) n d (.answered (.handlerFailed s!"the webhook log failed: {error}")) n d
  | handled {key n d} : Moves r x (.handling key) (.handle key) n d (.answered .processed) n (d.addHandled key)
  | failed {key n d} (error : String) : Moves r x (.handling key) (.handle key) n d (.withdrawing key error) n d
  | withdrawn {key error n d} : Moves r x (.withdrawing key error) (.withdraw key) n d
      (.answered (.handlerFailed error)) n (d.removeWebhook key)
  | withdrawFailed {key error n d} (inner : String) (hfails : x.withdrawFails = some inner) :
      Moves r x (.withdrawing key error) (.withdraw key) n d (.answered (.handlerFailed error)) n d

abbrev Next (r : Receiver H B) (x : Delivery H B) (s : Stage) (l : Point) (n : Nat) (d : World)
    (q : Op Response) (n' : Nat) (d' : World) : Prop :=
  ∃ s', rest r x s' = q ∧ Moves r x s l n d s' n' d'

section

variable (r : Receiver H B) (x : Delivery H B)

theorem goes_received {event : WebhookEvent} (h : r.verifyWebhook x.headers x.body = .ok event) :
    (r.handle x).Goes (Next r x .received) := by
  have hevent : r.event x = some event := by rw [Receiver.event, h]; rfl
  rw [Receiver.handle, Receiver.deliver, h]
  show (Receiver.record r x event >>= _).Goes _
  rw [Receiver.record]
  cases hfails : x.recordFails with
  | some error =>
    exact Prog.Goes.throw fun n d =>
      ⟨.answered (.handlerFailed _), rfl, .recordFailed error hfails⟩
  | none =>
    refine Prog.Goes.tryUpdate (fun n d y hy => ?_) fun n d hy => ?_
    · split at hy <;> cases hy
      exact ⟨.handling event.dedupKey, rfl, .recorded hevent ‹_›⟩
    · split at hy <;> cases hy
      exact ⟨.answered .duplicate, rfl, .duplicate hevent ‹_›⟩

theorem goes_handling (key : String) : (rest r x (.handling key)).Goes (Next r x (.handling key)) := by
  show (Receiver.handler x key >>= _).Goes _
  rw [Receiver.handler]
  cases x.handlerFails with
  | some error =>
    exact Prog.Goes.throw fun n d => ⟨.withdrawing key error, rfl, .failed error⟩
  | none =>
    exact Prog.Goes.update fun n d => ⟨.answered .processed, rfl, .handled⟩

theorem goes_withdrawing (key error : String) :
    (rest r x (.withdrawing key error)).Goes (Next r x (.withdrawing key error)) := by
  show (Receiver.withdraw x key >>= _).Goes _
  rw [Receiver.withdraw]
  cases hfails : x.withdrawFails with
  | some inner =>
    exact Prog.Goes.throw fun n d =>
      ⟨.answered (.handlerFailed error), rfl, .withdrawFailed inner hfails⟩
  | none =>
    exact Prog.Goes.update fun n d => ⟨.answered (.handlerFailed error), rfl, .withdrawn⟩

end

def staging : Staging (system r cond) Stage where
  prog := rest r
  start _ := .received
  Moves := Moves r
  program_eq _ := rfl
  goes x s := by
    cases s with
    | received =>
      cases h : r.verifyWebhook x.headers x.body with
      | error =>
        show (r.handle x).Goes _
        rw [Receiver.handle, Receiver.deliver, h]
        trivial
      | ok => exact goes_received r x h
    | handling key => exact goes_handling r x key
    | withdrawing key error => exact goes_withdrawing r x key error
    | answered => trivial

end Rustlavel.Payment
