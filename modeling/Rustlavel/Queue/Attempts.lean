/-
  How often a job is attempted. A reservation counts an attempt, and a handler that fails on the last one sends
  the job to `failed_jobs`.
-/

import Rustlavel.Queue.Fates

open Transact List Rows

namespace Rustlavel.Queue

/-! ## The condition -/

def NotSpent (_ : Request) : Point → World → Prop
  | .reclaim queue now, d => ∀ job ∈ d.jobs, job.id ∈ d.expired queue now → job.attempts < job.tries
  | .release r, d => ∀ job ∈ d.jobs, job.id = r.id → job.attempts < job.tries
  | _, _ => True

instance (req : Request) (l : Point) (d : World) : Decidable (NotSpent req l d) := by
  cases l <;> unfold NotSpent <;> infer_instance

/-! ## The invariant -/

structure Job.Within (job : Job) : Prop where
  le : job.attempts ≤ job.tries
  free : job.reservedAt = none → job.attempts < job.tries

structure Bounded (d : World) : Prop where
  rows : ∀ job ∈ d.jobs, job.Within
  started : ∀ x ∈ d.started, ∃ p ∈ d.pushed, p.id = x.1 ∧ 1 ≤ x.2 ∧ x.2 ≤ p.tries

/-- A reservation is of an attempt the job is allowed, and a job moved to `failed_jobs` is there and nowhere else. -/
structure Stage.Bounded (s : Stage) (d : World) : Prop where
  held : ∀ r ∈ s.held, 1 ≤ r.attempts ∧ r.attempts ≤ r.job.maxTries
  buried : ∀ r, s = .buried r → r.id ∈ d.failedIds ∧ (∃ p ∈ d.pushed, p.id = r.id) ∧ ∀ job ∈ d.jobs, job.id ≠ r.id

theorem Job.within_row (job : QueuedJob) (id : Nat) (now : Int) : (job.row id now).Within :=
  ⟨Nat.zero_le _, fun _ => Nat.le_max_right ..⟩

variable {d d' : World} {queue error : String} {now : Int} {row : Job} {n n' : Nat} {req : Request}
  {s s' : Stage} {l : Point} {w : Pass} {r : ReservedJob}

theorem Bounded.ready (h : Bounded d) (hrow : d.ready queue now = some row) : row.attempts < row.tries := by
  have hready := List.find?_some hrow
  simp only [Job.isReady, decide_eq_true_eq] at hready
  exact (h.rows row (World.ready_mem hrow)).free hready.2.1

theorem Bounded.push (h : Bounded d) (job : QueuedJob) (n : Nat) (now : Int) : Bounded (d.push (job.row n now)) where
  rows := forall_concat h.rows (Job.within_row job n now)
  started x hx := by
    obtain ⟨p, hp, hbound⟩ := h.started x hx
    exact ⟨p, mem_append_left _ hp, hbound⟩

theorem Bounded.reserve (h : Bounded d) (hsound : Sound n d) (hrow : d.ready queue now = some row) :
    Bounded (d.reserve row.id (row.attempts + 1) now) where
  rows := by
    refine forall_modify h.rows fun job hjob hid => ?_
    obtain rfl := eq_of_key hsound.ids hjob (World.ready_mem hrow) hid
    exact ⟨h.ready hrow, nofun⟩
  started := h.started

theorem Bounded.reclaim (h : Bounded d) {ids : List Nat}
    (hleft : ∀ job ∈ d.jobs, job.id ∈ ids → job.attempts < job.tries) : Bounded (d.reclaim ids now) where
  rows job' hjob' := by
    obtain ⟨job, hjob, rfl⟩ := mem_map.mp hjob'
    split
    · rename_i hid
      exact ⟨(h.rows job hjob).le, fun _ => hleft job hjob hid⟩
    · exact h.rows job hjob
  started := h.started

theorem Bounded.release (h : Bounded d) {id : Nat} {availableAt : Int}
    (hleft : ∀ job ∈ d.jobs, job.id = id → job.attempts < job.tries) : Bounded (d.release id availableAt) where
  rows := forall_modify h.rows fun job hjob hid =>
    ⟨(h.rows job hjob).le, fun _ => hleft job hjob hid⟩
  started := h.started

theorem Bounded.remove (h : Bounded d) (id : Nat) : Bounded (d.remove id) :=
  ⟨fun job hjob => h.rows job (mem_of_mem_filter hjob), h.started⟩

theorem Bounded.move (h : Bounded d) (hsound : Sound n d) (hs : s.Holds d) (hbound : s.Bounded d)
    (hcond : NotSpent req l d) (hmove : Moves req s l n d s' n' d') : Bounded d' := by
  cases hmove with
  | pushed | advanced => exact h.push ..
  | reserved _ hrow => exact h.reserve hsound hrow
  | idle | nothing => exact h
  | reclaimed => exact h.reclaim hcond
  | @handled _ r =>
    obtain ⟨p, hp, hid, htries⟩ := (hs.held r rfl).known
    obtain ⟨hpos, hle⟩ := hbound.held r rfl
    exact ⟨h.rows, forall_concat h.started ⟨p, hp, hid, hpos, htries ▸ hle⟩⟩
  | deleted | failed => exact ⟨(h.remove _).rows, h.started⟩
  | released => exact h.release hcond

theorem Stage.Bounded.others {t : Stage}
    (ht : t.Bounded d) (hsound : Sound n d) (hmove : Moves req s l n d s' n' d') : t.Bounded d' where
  held := ht.held
  buried r hr := by
    obtain ⟨hfailed, ⟨p, hp, hid⟩, hgone⟩ := ht.buried r hr
    rcases hmove.effect hsound with ⟨job, now, rfl, rfl⟩ | ⟨r', -, rfl, rfl⟩ | ⟨-, hkeeps⟩
    · refine ⟨hfailed, ⟨p, mem_append_left _ hp, hid⟩, forall_concat hgone ?_⟩
      -- the id of the new row is not the id of a job pushed before
      exact hid ▸ (hsound.fresh p hp).ne'
    · exact ⟨hfailed, ⟨p, hp, hid⟩, hgone⟩
    · refine ⟨map_subset _ hkeeps.failed hfailed, ⟨p, hkeeps.pushed ▸ hp, hid⟩, fun job' hjob' => ?_⟩
      obtain ⟨job, hjob, hjid, -⟩ := hkeeps.rows job' hjob'
      exact hjid ▸ hgone job hjob

theorem Stage.Bounded.move
    (h : s.Bounded d) (hs : s.Holds d) (hd : Queue.Bounded d) (hmove : Moves req s l n d s' n' d') :
    s'.Bounded d' := by
  cases hmove with
  | pushed | reclaimed | nothing | advanced | released => exact ⟨nofun, nofun⟩
  | idle h => cases h <;> exact ⟨nofun, nofun⟩
  | @reserved _ _ _ row _ _ _ hrow =>
    refine ⟨fun r hr => ?_, nofun⟩
    cases hr
    exact ⟨Nat.succ_pos _, hd.ready hrow⟩
  | @handled w r =>
    refine ⟨fun r' hr' => ?_, fun r' hr' => ?_⟩
    · rw [(Stage.held_handled w r).1] at hr'
      exact h.held r' hr'
    · have := (Stage.held_handled w r).1
      rw [hr'] at this
      cases this
  | @deleted _ r =>
    refine ⟨fun r' hr' => ?_, fun r' hr' => ?_⟩
    · rw [(Stage.held_deleted r).1] at hr'
      cases hr'
    · rw [Stage.deleted] at hr'
      split at hr' <;> cases hr'
  | @failed w r =>
    refine ⟨fun _ h => (by cases h), fun r' hr' => ?_⟩
    cases hr'
    obtain ⟨p, hp, hid, -⟩ := (hs.held r rfl).known
    refine ⟨?_, ⟨p, hp, hid⟩, fun job hjob => of_decide_eq_true (mem_filter.mp hjob).2⟩
    exact mem_map_of_mem (mem_append_right d.failedJobs (.head _))

def attempts : Outline (staging NotSpent) :=
  (reservations NotSpent).strengthen (fun _ => Bounded) (fun _ s d => s.Bounded d)
    (fun {_ _ req} _ _ _ => by cases req <;> exact ⟨nofun, nofun⟩)
    (fun hsound hs h hbound hcond hmove =>
      ⟨Bounded.move h hsound hs hbound hcond hmove, Stage.Bounded.move hbound hs h hmove⟩)
    (fun hsound _ _ _ _ _ ht _ hmove => Stage.Bounded.others ht hsound hmove)

theorem count_started_le (hsound : Sound n d) (h : Bounded d) {job : Job}
    (hjob : job ∈ d.pushed) : (d.started.map (·.1)).count job.id ≤ job.tries := by
  have hcount : (d.started.map (·.1)).count job.id = ((d.started.filter (·.1 = job.id)).map (·.2)).length := by
    rw [length_map, count_eq_countP, countP_map, ← countP_eq_length_filter]
    rfl
  rw [hcount]
  have hnodup : ((d.started.filter (·.1 = job.id)).map (·.2)).Nodup := by
    refine List.Nodup.map_on (fun x hx y hy hxy => ?_) (hsound.once.filter _)
    have hx' := of_decide_eq_true (mem_filter.mp hx).2
    have hy' := of_decide_eq_true (mem_filter.mp hy).2
    exact Prod.ext (hx'.trans hy'.symm) hxy
  have hsubset : (d.started.filter (·.1 = job.id)).map (·.2) ⊆ List.range' 1 job.tries := by
    intro k hk
    obtain ⟨x, hx, rfl⟩ := mem_map.mp hk
    obtain ⟨hmem, hid⟩ := mem_filter.mp hx
    obtain ⟨_, hp, hpid, hpos, _⟩ := h.started x hmem
    obtain rfl := eq_of_key hsound.pushedIds hp hjob (hpid.trans (of_decide_eq_true hid))
    exact mem_range'_1.mpr ⟨hpos, by omega⟩
  have := (subperm_of_subset hnodup hsubset).length_le
  rwa [length_range'] at this

/-! ## Results -/

theorem Moves.failing (h : Moves (.work w) s (.handle r) n d s' n' d') (hlast : r.isLastAttempt)
    (hhandler : w.handler = .error error) : s' = .failing r error ∨ s' = .buried r := by
  cases h
  rw [Stage.handled, hhandler]
  exact .inl (if_pos hlast)

theorem Moves.stays_failing (h : s = .failing r error ∨ s = .buried r)
    (hmove : Moves (.work w) s l n d s' n' d') : s' = .failing r error ∨ s' = .buried r := by
  rcases h with rfl | rfl
  · cases hmove with
    | failed => exact .inr rfl
    | reserved hnow => cases hnow
    | idle h => cases h
  · cases hmove with
    | reserved hnow => cases hnow
    | idle h => cases h

/-- Where a row on its last attempt is never put back, a handler is started at most as often as the job allows, and
    a last failure ends with the job in `failed_jobs` alone. -/
theorem tries_of_reachable (c : Config Request Point World Write (Except String Reply))
    (hc : (system NotSpent).Reachable {} c) :
    (∀ job ∈ c.db.pushed, (c.db.started.map (·.1)).count job.id ≤ job.tries) ∧
    (∀ queue now row, c.db.ready queue now = some row → row.attempts < row.tries) ∧
    ∀ (i : Nat) w r error c₁ c' reply, (system NotSpent).Advance i (.work w) (.handle r) c c₁ →
      r.isLastAttempt → w.handler = .error error → (system NotSpent).Run c₁ c' →
      c'.calls[i]? = some (.work w, Prog.ret reply) →
      reply = .ok (.ran .failed) ∧ r.id ∈ c'.db.failedIds ∧ ∀ job ∈ c'.db.jobs, job.id ≠ r.id := by
  obtain ⟨a, ha, rfl⟩ := (staging NotSpent).of_reachable hc
  have hfits := attempts.fits_of_reachable ⟨sound_empty, by simp, by simp⟩ ha
  obtain ⟨hsound, hbounded⟩ := hfits.inv
  refine ⟨fun job hjob => count_started_le hsound hbounded hjob, fun queue now row hrow => hbounded.ready hrow, ?_⟩
  intro i w r error c₁ c' reply hadvance hlast hhandler hrun hcall
  obtain ⟨_, s', _, _, hget, -, hcond, hmove, rfl⟩ := (staging NotSpent).of_advance hadvance
  obtain ⟨_, hrun', rfl⟩ := (staging NotSpent).of_run hrun
  have hfits' := (hfits.advance attempts hget hcond hmove).run attempts hrun'
  -- the pass is about to move the job, and returns only when it has
  have hget1 : (a.calls.set i (.work w, s'))[i]? = some (.work w, s') :=
    List.getElem?_set_self (List.getElem?_eq_some_iff.mp hget).1
  obtain ⟨t, hget', ht⟩ := hrun'.stays hget1 (hmove.failing hlast hhandler) Moves.stays_failing
  obtain ⟨t', hget'', hrest⟩ := (staging NotSpent).of_call hcall
  obtain rfl : t = t' := by
    rw [hget'] at hget''
    cases hget''
    rfl
  rcases ht with rfl | rfl
  · cases hrest
  · cases hrest
    obtain ⟨hfailed, -, hgone⟩ := (hfits'.holds hget').2.buried r rfl
    exact ⟨rfl, hfailed, hgone⟩

theorem tries_of_failures : ∃ c, (system NotSpent).Reachable {} c ∧ c.db.failedIds = [0] ∧
      ∀ job ∈ c.db.pushed, (c.db.started.map (·.1)).count job.id ≤ job.tries := by
  obtain ⟨c, hc, hfailed⟩ := (system NotSpent).play_reachable
    (pushedJob mail ++ settling 1 (passAt 0 (.error "down")) ++ settling 2 (passAt 10 (.error "down")))
    {} (fun c => c.db.failedIds) rfl
  exact ⟨c, hc, hfailed, (tries_of_reachable c hc).1⟩

/-- A job is allowed one attempt; its worker crashes in the handler, and the job is reclaimed and handed out again. -/
theorem started_again : ∃ c, (system fun _ _ _ => True).Reachable {} c ∧ c.db.pushed.map (·.tries) = [1] ∧
      c.db.started = [(0, 1), (0, 2)] := by
  obtain ⟨c, hc, hstarted⟩ := (system fun _ _ _ => True).play_reachable (pushedJob { mail with maxTries := 1 } ++
      [.call (.work (passAt 0 (.ok ()))), .advance 1, .advance 1,
       .call (.work (passAt 20 (.ok ()))), .advance 2, .advance 2, .advance 2, .advance 2])
    {} (fun c => (c.db.pushed.map (·.tries), c.db.started)) rfl
  exact ⟨c, hc, (Prod.mk.inj hstarted).1, (Prod.mk.inj hstarted).2⟩

end Rustlavel.Queue
