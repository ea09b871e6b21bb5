/-
  The operations of the database queue, and a worker that reserves one job, runs
  its handler and settles its fate.
-/

import Rustlavel.Queue.Tables

open Transact Prog

namespace Rustlavel.Queue

/-! ## Operations -/

inductive Point where
  | push
  | reserve
  | reclaim (queue : String) (now : Int)
  | handle (r : ReservedJob)
  | delete (r : ReservedJob)
  | release (r : ReservedJob)
  | fail (r : ReservedJob)

abbrev Op (α : Type) : Type 1 := ExceptT String (Prog Point World Write) α

def push (job : QueuedJob) (now : Int) : Op Nat := do
  let (id, _) ← statement .push (Tx.tryInsert fun id _ => some (.push (job.row id now)))
  pure id

variable (queue : String) (now : Int)

def reserveIn : ExceptT String (Tx World Write) (Verdict (Option ReservedJob)) := do
  match ← Tx.query fun d => d.ready queue now with
  | none => pure (.rollback none)
  | some row =>
    let _ ← Tx.tryUpdate fun _ => some (.reserve row.id (row.attempts + 1) now)
    pure (.commit (some row.reserved))

def reserve : Op (Option ReservedJob) := transaction .reserve (reserveIn queue now)

def reclaimIn : ExceptT String (Tx World Write) (Verdict Nat) := do
  let ids ← Tx.query fun d => d.expired queue now
  if ids = [] then
    pure (.rollback 0)
  else
    let _ ← Tx.tryUpdate fun _ => some (.reclaim ids now)
    pure (.commit ids.length)

def reclaimExpired : Op Nat := transaction (.reclaim queue now) (reclaimIn queue now)

variable (r : ReservedJob) (cond : Request → Point → World → Prop)

def delete : Op Unit := do
  let _ ← statement (.delete r) (Tx.tryUpdate fun _ => some (.delete r.id))
  pure ()

def release (delay : Nat) (now : Int) : Op Unit := do
  let _ ← statement (.release r) (Tx.tryUpdate fun _ => some (.release r.id (now + delay)))
  pure ()

def ReservedJob.failed (id : Nat) (error : String) (now : Int) : FailedJob where
  id := id
  jobId := r.id
  queue := r.job.queue
  name := r.job.name
  payload := r.job.payload
  chain := r.job.chain
  andThen := r.job.andThen
  attempts := r.attempts
  error := error
  failedAt := now

def failIn (error : String) (now : Int) : ExceptT String (Tx World Write) (Verdict Unit) := do
  let _ ← Tx.tryInsert fun id _ => some (.fail (r.failed id error now))
  let _ ← Tx.tryUpdate fun _ => some (.remove r.id)
  pure (.commit ())

def fail (error : String) (now : Int) : Op Unit := transaction (.fail r) (failIn r error now)

/-! ## The worker -/

inductive Outcome where
  | processed
  | released
  | failed

/-- One pass of a worker: its queue and its cap on retries, the times it reads, and
    how the handler ends if it gets to run one. -/
structure Pass where
  queue : String
  backoffCap : Nat
  poppedAt : Int
  reclaimedAt : Int
  poppedAgainAt : Int
  settledAt : Int
  handler : Except String Unit

def backoff (retryAfter attempts cap : Nat) : Nat :=
  let doublings := min (attempts - 1) 20
  let factor := 2 ^ doublings
  min (retryAfter * factor) cap

inductive Reply where
  | pushed (id : Nat)
  | idle
  | ran (outcome : Outcome)

namespace Pass

variable (w : Pass) (r : ReservedJob)

def runHandler : Op (Except String Unit) := do
  let _ ← statement (.handle r) (Tx.tryUpdate fun _ => some (.start r.id r.attempts))
  pure w.handler

def advance : Option QueuedJob → Op Reply
  | none => pure (.ran .processed)
  | some next => do
    let _ ← push next w.settledAt
    pure (.ran .processed)

def succeed : Op Reply := do
  delete r
  w.advance r.job.nextInChain

def bury (error : String) : Op Reply := do
  fail r error w.settledAt
  pure (.ran .failed)

def retry : Op Reply := do
  release r (backoff r.job.retryAfter r.attempts w.backoffCap) w.settledAt
  pure (.ran .released)

def process : Op Reply := do
  match ← w.runHandler r with
  | .ok () => w.succeed r
  | .error error => if r.isLastAttempt then w.bury r error else w.retry r

def popAgain : Op Reply := do
  match ← reserve w.queue w.poppedAgainAt with
  | some r => w.process r
  | none => pure .idle

def reclaimAndPop : Op Reply := do
  let released ← reclaimExpired w.queue w.reclaimedAt
  if 0 < released then w.popAgain else pure .idle

/-- Reserve and run at most one job: `pop`, then `process`. -/
def runOnce : Op Reply := do
  match ← reserve w.queue w.poppedAt with
  | some r => w.process r
  | none => w.reclaimAndPop

end Pass

inductive Request where
  | push (job : QueuedJob) (now : Int)
  | work (w : Pass)

def Request.program : Request → Prog Point World Write (Except String Reply)
  | .push job now => (do return .pushed (← Queue.push job now) : Op Reply).run
  | .work w => w.runOnce.run

def system : System Request Point World Write (Except String Reply) where
  program := Request.program
  allowed _ := True
  cond := cond

instance (cond : Request → Point → World → Prop) : DecidablePred (system cond).allowed := fun _ => .isTrue trivial

instance (cond : Request → Point → World → Prop) [∀ req l d, Decidable (cond req l d)] (req : Request)
    (l : Point) (d : World) : Decidable ((system cond).cond req l d) :=
  inferInstanceAs (Decidable (cond req l d))

/-! ## Stages of a pass -/

inductive Stage where
  | pushing
  | popping
  | reclaiming
  | poppingAgain
  | holding (r : ReservedJob)
  | deleting (r : ReservedJob)
  | advancing (next : QueuedJob)
  | releasing (r : ReservedJob)
  | failing (r : ReservedJob) (error : String)
  | buried (r : ReservedJob)
  | replied (reply : Reply)

def Pass.rest (w : Pass) : Stage → Op Reply
  | .pushing => pure .idle
  | .popping => w.runOnce
  | .reclaiming => w.reclaimAndPop
  | .poppingAgain => w.popAgain
  | .holding r => w.process r
  | .deleting r => w.succeed r
  | .advancing next => w.advance (some next)
  | .releasing r => w.retry r
  | .failing r error => w.bury r error
  | .buried _ => pure (.ran .failed)
  | .replied reply => pure reply

def Request.start : Request → Stage
  | .push .. => .pushing
  | .work _ => .popping

def rest (req : Request) (s : Stage) : Prog Point World Write (Except String Reply) :=
  match req, s with
  | .push job now, .pushing => (Request.push job now).program
  | .push .., .replied reply => pure (.ok reply)
  | .push .., _ => pure (.ok .idle)
  | .work w, s => (w.rest s).run

def Stage.deleted : Stage :=
  match r.job.nextInChain with
  | some next => .advancing next
  | none => .replied (.ran .processed)

def Stage.handled (w : Pass) (r : ReservedJob) : Stage :=
  match w.handler with
  | .ok () => .deleting r
  | .error error => if r.isLastAttempt then .failing r error else .releasing r

/-- What a pass does when `reserve` has found nothing. -/
inductive Stage.Idle : Stage → Stage → Prop where
  | first : Idle .popping .reclaiming
  | again : Idle .poppingAgain (.replied .idle)

def Pass.popsAt (w : Pass) : Stage → Option Int
  | .popping => some w.poppedAt
  | .poppingAgain => some w.poppedAgainAt
  | _ => none

inductive Moves : Request → Stage → Point → Nat → World → Stage → Nat → World → Prop where
  | pushed {job now n d} : Moves (.push job now) .pushing .push n d
      (.replied (.pushed n)) (n + 1) (d.push (job.row n now))
  | reserved {w s now row n d} (hnow : w.popsAt s = some now) (hrow : d.ready w.queue now = some row) :
      Moves (.work w) s .reserve n d (.holding row.reserved) n (d.reserve row.id (row.attempts + 1) now)
  | idle {w s s' n d} (h : Stage.Idle s s') : Moves (.work w) s .reserve n d s' n d
  | reclaimed {w n d} : Moves (.work w) .reclaiming (.reclaim w.queue w.reclaimedAt) n d
      .poppingAgain n (d.reclaim (d.expired w.queue w.reclaimedAt) w.reclaimedAt)
  | nothing {w n d} : Moves (.work w) .reclaiming (.reclaim w.queue w.reclaimedAt) n d (.replied .idle) n d
  | handled {w r n d} : Moves (.work w) (.holding r) (.handle r) n d (.handled w r) n (d.start r.id r.attempts)
  | deleted {w r n d} : Moves (.work w) (.deleting r) (.delete r) n d (.deleted r) n (d.delete r.id)
  | advanced {w next n d} : Moves (.work w) (.advancing next) .push n d
      (.replied (.ran .processed)) (n + 1) (d.push (next.row n w.settledAt))
  | released {w r n d} (availableAt : Int) : Moves (.work w) (.releasing r) (.release r) n d
      (.replied (.ran .released)) n (d.release r.id availableAt)
  | failed {w r error n d} : Moves (.work w) (.failing r error) (.fail r) n d
      (.buried r) (n + 1) ((d.fail (r.failed n error w.settledAt)).remove r.id)

abbrev Next (req : Request) (s : Stage) (l : Point) (n : Nat) (d : World)
    (q : Prog Point World Write (Except String Reply)) (n' : Nat) (d' : World) : Prop :=
  ∃ s', rest req s' = q ∧ Moves req s l n d s' n' d'

theorem run_reserveIn (n : Nat) (d : World) : Tx.run (reserveIn queue now).run n d =
      match d.ready queue now with
      | none => (.ok (.rollback none), n, d)
      | some row => (.ok (.commit (some row.reserved)), n, d.reserve row.id (row.attempts + 1) now) := by
  show Tx.run (ExceptT.run (match d.ready queue now with | none => _ | some row => _)) n d = _
  cases d.ready queue now <;> rfl

theorem run_reclaimIn (n : Nat) (d : World) : Tx.run (reclaimIn queue now).run n d =
      if d.expired queue now = [] then (.ok (.rollback 0), n, d)
      else (.ok (.commit (d.expired queue now).length), n, d.reclaim (d.expired queue now) now) := by
  show Tx.run (ExceptT.run (if d.expired queue now = [] then _ else _)) n d = _
  split <;> rfl

theorem goes_push (job : QueuedJob) (now : Int) :
    (rest (.push job now) .pushing).Goes (Next (.push job now) .pushing) := by
  refine Goes.tryInsert (fun n d x hx => ?_) fun n d hx => by cases hx
  cases hx
  exact ⟨.replied (.pushed n), rfl, .pushed⟩

section

variable (w : Pass)

theorem goes_popping : (rest (.work w) .popping).Goes (Next (.work w) .popping) := by
  refine Goes.transaction fun n d => ?_
  rw [run_reserveIn]
  cases hrow : d.ready w.queue w.poppedAt with
  | none => exact ⟨.reclaiming, rfl, .idle .first⟩
  | some row => exact ⟨.holding row.reserved, rfl, .reserved rfl hrow⟩

theorem goes_poppingAgain : (rest (.work w) .poppingAgain).Goes (Next (.work w) .poppingAgain) := by
  refine Goes.transaction fun n d => ?_
  rw [run_reserveIn]
  cases hrow : d.ready w.queue w.poppedAgainAt with
  | none => exact ⟨.replied .idle, rfl, .idle .again⟩
  | some row => exact ⟨.holding row.reserved, rfl, .reserved rfl hrow⟩

theorem goes_reclaiming : (rest (.work w) .reclaiming).Goes (Next (.work w) .reclaiming) := by
  refine Goes.transaction fun n d => ?_
  rw [run_reclaimIn]
  split
  · exact ⟨.replied .idle, rfl, .nothing⟩
  · rename_i hne
    -- some row was released, so the worker selects again
    have hpos := List.length_pos_iff.mpr hne
    refine ⟨.poppingAgain, ?_, .reclaimed⟩
    show w.popAgain.run = (if 0 < _ then w.popAgain else pure .idle : Op Reply).run
    rw [if_pos hpos]

variable (r : ReservedJob)

theorem goes_holding : (rest (.work w) (.holding r)).Goes (Next (.work w) (.holding r)) := by
  refine Goes.update fun n d => ?_
  refine ⟨.handled w r, ?_, .handled⟩
  rw [Stage.handled]
  cases w.handler with
  | ok => rfl
  | error => cases r.isLastAttempt <;> rfl

theorem goes_deleting : (rest (.work w) (.deleting r)).Goes (Next (.work w) (.deleting r)) := by
  refine Goes.update fun n d => ?_
  refine ⟨.deleted r, ?_, .deleted⟩
  rw [Stage.deleted]
  cases r.job.nextInChain <;> rfl

theorem goes_advancing (next : QueuedJob) :
    (rest (.work w) (.advancing next)).Goes (Next (.work w) (.advancing next)) := by
  refine Goes.tryInsert (fun n d x hx => ?_) fun n d hx => by cases hx
  cases hx
  exact ⟨.replied (.ran .processed), rfl, .advanced⟩

theorem goes_releasing : (rest (.work w) (.releasing r)).Goes (Next (.work w) (.releasing r)) := by
  exact Goes.update fun n d => ⟨.replied (.ran .released), rfl, .released _⟩

theorem goes_failing (error : String) :
    (rest (.work w) (.failing r error)).Goes (Next (.work w) (.failing r error)) := by
  refine Goes.transaction fun n d => ?_
  exact ⟨.buried r, rfl, .failed⟩

end

def staging : Staging (system cond) Stage where
  prog := rest
  start := Request.start
  Moves := Moves
  program_eq req := by cases req <;> rfl
  goes req s := by
    cases req with
    | push job now =>
      cases s with
      | pushing => exact goes_push job now
      | _ => trivial
    | work w =>
      cases s with
      | pushing | buried | replied => trivial
      | popping => exact goes_popping w
      | reclaiming => exact goes_reclaiming w
      | poppingAgain => exact goes_poppingAgain w
      | holding r => exact goes_holding w r
      | deleting r => exact goes_deleting w r
      | advancing next => exact goes_advancing w next
      | releasing r => exact goes_releasing w r
      | failing r error => exact goes_failing w r error

end Rustlavel.Queue
