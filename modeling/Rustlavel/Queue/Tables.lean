/-
  Jobs, and the two tables of the database queue.
-/

import Rustlavel.Lib.Rows
import Rustlavel.Lib.Stages

open Transact

namespace Rustlavel.Queue

/-! ## Jobs -/

/-- A job as it is stored: a name, a payload, the policy for running it, and the steps that follow it in its chain. -/
structure QueuedJob where
  name : String
  payload : String
  queue : String
  maxTries : Nat
  retryAfter : Nat
  delay : Nat
  chain : Option String
  andThen : List QueuedJob

def QueuedJob.nextInChain (job : QueuedJob) : Option QueuedJob :=
  match job.andThen with
  | [] => none
  | next :: rest => some { next with chain := job.chain, andThen := rest }

def QueuedJob.readBack (step : QueuedJob) : QueuedJob := { step with maxTries := max step.maxTries 1, chain := none }

/-- A row of `jobs`. -/
structure Job where
  id : Nat
  queue : String
  name : String
  payload : String
  chain : Option String
  andThen : List QueuedJob
  attempts : Nat
  maxTries : Nat
  retryAfter : Nat
  availableAt : Int
  reservedAt : Option Int
  createdAt : Int

/-- A row of `failed_jobs`, made from the job `jobId`. -/
structure FailedJob where
  id : Nat
  jobId : Nat
  queue : String
  name : String
  payload : String
  chain : Option String
  andThen : List QueuedJob
  attempts : Nat
  error : String
  failedAt : Int

structure ReservedJob where
  id : Nat
  job : QueuedJob
  attempts : Nat

def ReservedJob.isLastAttempt (r : ReservedJob) : Bool := r.job.maxTries ≤ r.attempts

/-- The row that `push` inserts. -/
def QueuedJob.row (job : QueuedJob) (id : Nat) (now : Int) : Job where
  id := id
  queue := job.queue
  name := job.name
  payload := job.payload
  chain := job.chain
  andThen := job.andThen
  attempts := 0
  maxTries := job.maxTries
  retryAfter := job.retryAfter
  availableAt := now + job.delay
  reservedAt := none
  createdAt := now

namespace Job

variable (job : Job)

def tries : Nat := max job.maxTries 1

def reserved : ReservedJob where
  id := job.id
  job :=
    { name := job.name
      payload := job.payload
      queue := job.queue
      maxTries := job.tries
      retryAfter := job.retryAfter
      delay := 0
      chain := job.chain
      andThen := job.andThen.map QueuedJob.readBack }
  attempts := job.attempts + 1

def isReady (queue : String) (now : Int) : Bool := job.queue = queue ∧ job.reservedAt = none ∧ job.availableAt ≤ now

def isExpired (queue : String) (now : Int) : Bool :=
  job.queue = queue ∧ ∃ at_ ∈ job.reservedAt, at_ + job.retryAfter < now

end Job

/-! ## The world -/

structure World where
  jobs : List Job := []
  failedJobs : List FailedJob := []
  /-- Every job ever pushed, as it went in. -/
  pushed : List Job := []
  /-- The handler runs: which attempt at which job. -/
  started : List (Nat × Nat) := []
  /-- The jobs that a worker has deleted as done. -/
  finished : List Nat := []

inductive Write where
  | push (row : Job)
  | reserve (id attempts : Nat) (now : Int)
  | reclaim (ids : List Nat) (now : Int)
  | start (id attempts : Nat)
  | delete (id : Nat)
  | release (id : Nat) (availableAt : Int)
  | fail (row : FailedJob)
  | remove (id : Nat)

def reclaimBatch : Nat := 500

namespace World

variable (d : World)

def ready (queue : String) (now : Int) : Option Job := d.jobs.find? (·.isReady queue now)

def expired (queue : String) (now : Int) : List Nat :=
  ((d.jobs.filter (·.isExpired queue now)).take reclaimBatch).map (·.id)

def push (row : Job) : World := { d with jobs := d.jobs ++ [row], pushed := d.pushed ++ [row] }

variable (id : Nat)

def reserve (attempts : Nat) (now : Int) : World :=
  { d with
    jobs := Rows.modify Job.id id
      (fun job => { job with attempts := attempts, reservedAt := some now }) d.jobs }

def reclaim (ids : List Nat) (now : Int) : World :=
  { d with
    jobs := d.jobs.map fun job =>
      if job.id ∈ ids then { job with reservedAt := none, availableAt := now } else job }

def start (attempts : Nat) : World := { d with started := d.started ++ [(id, attempts)] }

def remove : World := { d with jobs := d.jobs.filter (·.id ≠ id) }

def delete : World := { d.remove id with finished := d.finished ++ [id] }

def release (availableAt : Int) : World :=
  { d with
    jobs := Rows.modify Job.id id
      (fun job => { job with reservedAt := none, availableAt := availableAt }) d.jobs }

def fail (row : FailedJob) : World := { d with failedJobs := d.failedJobs ++ [row] }

end World

instance : Store World Write where
  apply
    | .push row, d => d.push row
    | .reserve id attempts now, d => d.reserve id attempts now
    | .reclaim ids now, d => d.reclaim ids now
    | .start id attempts, d => d.start id attempts
    | .delete id, d => d.delete id
    | .release id availableAt, d => d.release id availableAt
    | .fail row, d => d.fail row
    | .remove id, d => d.remove id

end Rustlavel.Queue
