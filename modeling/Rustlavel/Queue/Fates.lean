/-
  Where a job is. A job that was pushed is a row of `jobs`, a row of `failed_jobs` or finished, and settling it
  moves it from the first place to one of the others.
-/

import Rustlavel.Queue.Reservations

open Transact Rows

namespace Rustlavel.Queue

/-! ## Current reservations -/

def Point.reservation : Point → Option ReservedJob
  | .handle r | .delete r | .release r | .fail r => some r
  | .push | .reserve | .reclaim .. => none

def Point.settles : Point → Option ReservedJob
  | .delete r | .release r | .fail r => some r
  | .push | .reserve | .reclaim .. | .handle _ => none

def World.IsCurrent (d : World) (r : ReservedJob) : Prop :=
  ∃ job ∈ d.jobs, job.id = r.id ∧ job.attempts = r.attempts ∧ job.reservedAt ≠ none

def Current (_ : Request) (l : Point) (d : World) : Prop := ∀ r ∈ l.settles, d.IsCurrent r

instance (d : World) (r : ReservedJob) : Decidable (d.IsCurrent r) :=
  inferInstanceAs (Decidable (∃ job ∈ d.jobs, _))

instance (req : Request) (l : Point) (d : World) : Decidable (Current req l d) :=
  inferInstanceAs (Decidable (∀ r ∈ l.settles, d.IsCurrent r))

/-! ## Places -/

def World.failedIds (d : World) : List Nat := d.failedJobs.map (·.jobId)

def World.places (d : World) (id : Nat) : Nat :=
  (d.jobs.map (·.id)).count id + d.failedIds.count id + d.finished.count id

def Placed (d : World) : Prop := ∀ id, d.places id = (d.pushed.map (·.id)).count id

theorem count_filter_ne (jobs : List Job) (k id : Nat) :
    ((jobs.filter (·.id ≠ k)).map (·.id)).count id = if id = k then 0 else (jobs.map (·.id)).count id := by
  induction jobs with
  | nil => simp
  | cons job jobs ih =>
    by_cases hk : job.id = k
    · rw [List.filter_cons_of_neg (by simpa using hk), ih, List.map_cons]
      split
      · rfl
      · rw [List.count_cons_of_ne (by omega)]
    · rw [List.filter_cons_of_pos (by simpa using hk), List.map_cons, List.map_cons, List.count_cons,
        List.count_cons, ih]
      split
      · rw [if_neg (by simp; omega)]
      · rfl

variable {n n' : Nat} {d d' : World} {req : Request} {s s' : Stage} {l : Point} {r : ReservedJob}

theorem Placed.settle {id : Nat} (h : Placed d) (hsound : Sound n d)
    (hid : id ∈ d.jobs.map (·.id)) (hjobs : d'.jobs = d.jobs.filter (·.id ≠ id)) (hpushed : d'.pushed = d.pushed)
    (helse : ∀ k, d'.failedIds.count k + d'.finished.count k =
      d.failedIds.count k + d.finished.count k + if k = id then 1 else 0) : Placed d' := by
  intro k
  have hone := List.count_eq_one_of_mem hsound.ids hid
  have hk := h k
  have := helse k
  unfold World.places at hk ⊢
  rw [hjobs, hpushed, count_filter_ne, ← hk]
  split
  · rename_i heq
    subst heq
    rw [if_pos rfl] at this
    omega
  · rename_i hne
    rw [if_neg hne] at this
    omega

theorem Placed.of_ids (h : Placed d) (hids : d'.jobs.map (·.id) = d.jobs.map (·.id))
    (hpushed : d'.pushed = d.pushed) (hfailed : d'.failedJobs = d.failedJobs)
    (hfinished : d'.finished = d.finished) : Placed d' := by
  intro id
  have := h id
  unfold World.places World.failedIds at this ⊢
  rw [hids, hpushed, hfailed, hfinished]
  exact this

theorem Placed.push (h : Placed d) (row : Job) : Placed (d.push row) := by
  intro id
  have := h id
  unfold World.places at this ⊢
  show ((d.jobs ++ [row]).map (·.id)).count id + d.failedIds.count id + d.finished.count id =
    ((d.pushed ++ [row]).map (·.id)).count id
  rw [List.map_append, List.map_append, List.count_append, List.count_append]
  omega

theorem Placed.move (h : Placed d) (hsound : Sound n d) (hcond : Current req l d)
    (hmove : Moves req s l n d s' n' d') : Placed d' := by
  cases hmove with
  | pushed | advanced => exact h.push _
  | idle | nothing | handled => exact h
  | reserved | released => exact h.of_ids (map_modify fun _ => rfl) rfl rfl rfl
  | reclaimed =>
    refine h.of_ids ?_ rfl rfl rfl
    rw [World.reclaim, List.map_map]
    refine List.map_congr_left fun job _ => ?_
    show (if _ then _ else _ : Job).id = _
    split <;> rfl
  | @deleted _ r =>
    obtain ⟨job, hjob, hid, -⟩ := hcond r rfl
    refine h.settle hsound (hid ▸ List.mem_map_of_mem hjob) rfl rfl fun k => ?_
    show d.failedIds.count k + (d.finished ++ [r.id]).count k = _
    rw [List.count_append, List.count_singleton, beq_eq_decide, ← add_assoc]
    simp [eq_comm]
  | @failed w r error =>
    obtain ⟨_, hjob, hid, -⟩ := hcond r rfl
    refine h.settle hsound (hid ▸ List.mem_map_of_mem hjob) rfl rfl fun k => ?_
    show ((d.failedJobs ++ [r.failed n error w.settledAt]).map (·.jobId)).count k + d.finished.count k = _
    rw [List.map_append, List.count_append, List.map_singleton, List.count_singleton, beq_eq_decide]
    show _ + (if decide (r.id = k) = true then 1 else 0) + _ = _
    simp only [decide_eq_true_eq, eq_comm (a := r.id)]
    exact Nat.add_right_comm ..

theorem Placed.one (h : Placed d) (hsound : Sound n d) {job : Job} (hjob : job ∈ d.pushed) :
    d.places job.id = 1 ∧ d.failedIds.count job.id ≤ 1 ∧ ¬ (job.id ∈ d.failedIds ∧ job.id ∈ d.finished) := by
  have hone := (h job.id).trans (List.count_eq_one_of_mem hsound.pushedIds (List.mem_map_of_mem hjob))
  have hsum := hone
  unfold World.places at hsum
  refine ⟨hone, by omega, fun ⟨hfailed, hfinished⟩ => ?_⟩
  have := List.count_pos_iff.mpr hfailed
  have := List.count_pos_iff.mpr hfinished
  omega

def placed : Outline (staging Current) := (reservations Current).strengthen (fun _ d => Placed d) (fun _ _ _ => True)
    (fun _ _ _ => trivial)
    (fun hsound _ h _ hcond hmove => ⟨Placed.move h hsound hcond hmove, trivial⟩)
    (fun _ _ _ _ _ _ _ _ _ => trivial)

/-! ## Whoever settles a job leaves the others alone -/

theorem held_of_next (h : (rest req s).next.bind Point.reservation = some r) : s.held = some r := by
  cases req with
  | push => cases s <;> cases h
  | work =>
    cases s with
    | holding | deleting | releasing | failing => cases h; rfl
    | _ => cases h

theorem Moves.of_settles (h : Moves req s l n d s' n' d') (hl : l.settles = some r) :
    s.held = some r ∧ ∀ row ∈ d.jobs, row.id ≠ r.id → row ∈ d'.jobs := by
  cases h with
  | pushed | reserved | idle | reclaimed | nothing | handled | advanced => cases hl
  | deleted | failed =>
    cases hl
    exact ⟨rfl, fun row hrow hne => List.mem_filter.mpr ⟨hrow, decide_eq_true hne⟩⟩
  | released =>
    cases hl
    exact ⟨rfl, fun row hrow hne => mem_modify.mpr (.inl ⟨hrow, hne⟩)⟩

theorem Sound.ne_of_current (h : Sound n d) {r' : ReservedJob}
    (hr : d.IsCurrent r) (hr' : d.IsCurrent r') (hapart : r.id = r'.id → r.attempts ≠ r'.attempts) :
    r'.id ≠ r.id := by
  intro hid
  obtain ⟨_, hjob, hjid, hattempts, -⟩ := hr
  obtain ⟨_, hjob', hjid', hattempts', -⟩ := hr'
  obtain rfl := eq_of_key h.ids hjob hjob' (hjid.trans (hid.symm.trans hjid'.symm))
  exact hapart hid.symm (hattempts.symm.trans hattempts')

/-- Where every worker settles what it still holds, every pushed job is in one place, and settling leaves the rows
    of others. -/
theorem one_place_of_reachable (c : Config Request Point World Write (Except String Reply))
    (hc : (system Current).Reachable {} c) :
    (∀ job ∈ c.db.pushed, c.db.places job.id = 1 ∧ c.db.failedIds.count job.id ≤ 1 ∧
      ¬ (job.id ∈ c.db.failedIds ∧ job.id ∈ c.db.finished)) ∧
    ∀ (i j : Nat) req l c' r req' p r', (system Current).Advance i req l c c' →
      l.settles = some r → i ≠ j → c.calls[j]? = some (req', p) →
      p.next.bind Point.reservation = some r' → c.db.IsCurrent r' →
      ∀ row ∈ c.db.jobs, row.id = r'.id → row ∈ c'.db.jobs := by
  obtain ⟨_, ha, rfl⟩ := (staging Current).of_reachable hc
  have hfits := placed.fits_of_reachable ⟨sound_empty, fun _ => rfl⟩ ha
  obtain ⟨hsound, hplaced⟩ := hfits.inv
  constructor
  · exact fun job hjob => hplaced.one hsound hjob
  · intro i j req l c' r req' p r' hadvance hl hij hcall hnext hcurrent row hrow hid
    obtain ⟨_, _, _, _, hget, -, hcond, hmove, rfl⟩ := (staging Current).of_advance hadvance
    obtain ⟨t, hget', hrest⟩ := (staging Current).of_call hcall
    obtain ⟨hheld, hframe⟩ := hmove.of_settles hl
    have hheld' : t.held = some r' := held_of_next (hrest ▸ hnext)
    have hapart := hfits.apart hij hget hget' r hheld r' hheld'
    exact hframe row hrow (hid ▸ hsound.ne_of_current (hcond r hl) hcurrent hapart)

/-! ## Runs -/

def mail : QueuedJob where
  name := "mail"
  payload := ""
  queue := "default"
  maxTries := 2
  retryAfter := 10
  delay := 0
  chain := none
  andThen := []

def passAt (now : Int) (handler : Except String Unit) : Pass where
  queue := "default"
  backoffCap := 3600
  poppedAt := now
  reclaimedAt := now
  poppedAgainAt := now
  settledAt := now
  handler := handler

def pushedJob (job : QueuedJob) : List (System.Event Request) := [.call (.push job 0), .advance 0]

def settling (i : Nat) (w : Pass) : List (System.Event Request) :=
  [.call (.work w), .advance i, .advance i, .advance i]

theorem one_place_of_retry : ∃ c, (system Current).Reachable {} c ∧ c.db.finished = [0] ∧
      ∀ job ∈ c.db.pushed, c.db.places job.id = 1 := by
  obtain ⟨c, hc, hfinished⟩ := (system Current).play_reachable
    (pushedJob mail ++ settling 1 (passAt 0 (.error "down")) ++ settling 2 (passAt 10 (.ok ())))
    {} (fun c => c.db.finished) rfl
  exact ⟨c, hc, hfinished, fun job hjob => ((one_place_of_reachable c hc).1 job hjob).1⟩

/-- A slow worker's job is reclaimed, and the handlers of both workers fail on their last attempt. -/
theorem failed_twice : ∃ c, (system fun _ _ _ => True).Reachable {} c ∧ c.db.pushed.map (·.id) = [0] ∧
      c.db.failedIds = [0, 0] := by
  obtain ⟨c, hc, hids⟩ := (system fun _ _ _ => True).play_reachable (pushedJob { mail with maxTries := 1 } ++
      [.call (.work (passAt 0 (.error "down"))), .advance 1, .advance 1,
       .call (.work (passAt 20 (.error "down"))), .advance 2, .advance 2, .advance 2, .advance 2,
       .advance 1, .advance 2])
    {} (fun c => (c.db.pushed.map (·.id), c.db.failedIds)) rfl
  exact ⟨c, hc, (Prod.mk.inj hids).1, (Prod.mk.inj hids).2⟩

end Rustlavel.Queue
