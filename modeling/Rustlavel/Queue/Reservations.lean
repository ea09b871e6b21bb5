/-
  What a reservation is, in every run of every number of workers.
-/

import Rustlavel.Queue.Worker

open Transact List Rows Nat

namespace Rustlavel.Queue

/-! ## What the operations keep -/

structure World.Keeps (d d' : World) : Prop where
  pushed : d'.pushed = d.pushed
  started : d'.started = d.started
  failed : d.failedJobs ⊆ d'.failedJobs
  ids : (d'.jobs.map (·.id)).Sublist (d.jobs.map (·.id))
  rows : ∀ job' ∈ d'.jobs, ∃ job ∈ d.jobs,
    job.id = job'.id ∧ job.maxTries = job'.maxTries ∧ job.attempts ≤ job'.attempts

namespace World.Keeps

variable {d : World}

theorem refl : d.Keeps d := ⟨rfl, rfl, List.Subset.refl _, .refl _, fun job hjob => ⟨job, hjob, rfl, rfl, le_rfl⟩⟩

theorem trans {d1 d2 : World} (h : d.Keeps d1) (h' : d1.Keeps d2) : d.Keeps d2 where
  pushed := h'.pushed.trans h.pushed
  started := h'.started.trans h.started
  failed := List.Subset.trans h.failed h'.failed
  ids := h'.ids.trans h.ids
  rows job2 hjob2 := by
    obtain ⟨job1, hjob1, hid1, htries1, hle1⟩ := h'.rows job2 hjob2
    obtain ⟨job, hjob, hid, htries, hle⟩ := h.rows job1 hjob1
    exact ⟨job, hjob, hid.trans hid1, htries.trans htries1, hle.trans hle1⟩

theorem of_map {f : Job → Job} (hid : ∀ job, (f job).id = job.id) (htries : ∀ job, (f job).maxTries = job.maxTries)
    (hattempts : ∀ job ∈ d.jobs, job.attempts ≤ (f job).attempts) : d.Keeps { d with jobs := d.jobs.map f } where
  pushed := rfl
  started := rfl
  failed := List.Subset.refl _
  ids := by
    have : (d.jobs.map f).map (·.id) = d.jobs.map (·.id) := by
      rw [map_map]
      exact map_congr_left fun job _ => hid job
    exact this ▸ List.Sublist.refl _
  rows job' hjob' := by
    obtain ⟨job, hjob, rfl⟩ := mem_map.mp hjob'
    exact ⟨job, hjob, (hid job).symm, (htries job).symm, hattempts job hjob⟩

theorem reclaim (ids : List Nat) (now : Int) : d.Keeps (d.reclaim ids now) := by
  refine of_map (fun job => ?_) (fun job => ?_) fun job _ => ?_ <;> split <;> simp

theorem release (id : Nat) (availableAt : Int) : d.Keeps (d.release id availableAt) := by
  refine of_map (fun job => ?_) (fun job => ?_) fun job _ => ?_ <;> split <;> simp

theorem reserve (hids : (d.jobs.map (·.id)).Nodup) {row : Job} (hrow : row ∈ d.jobs) (now : Int) :
    d.Keeps (d.reserve row.id (row.attempts + 1) now) := by
  refine of_map (fun job => by split <;> rfl) (fun job => by split <;> rfl) fun job hjob => ?_
  split
  · rename_i hid
    rw [eq_of_key hids hjob hrow hid]
    exact le_succ _
  · exact le_rfl

theorem remove (id : Nat) : d.Keeps (d.remove id) where
  pushed := rfl
  started := rfl
  failed := List.Subset.refl _
  ids := filter_sublist.map _
  rows job hjob := ⟨job, mem_of_mem_filter hjob, rfl, rfl, le_rfl⟩

theorem delete (id : Nat) : d.Keeps (d.delete id) :=
  ⟨rfl, rfl, List.Subset.refl _, (remove id).ids, (remove id).rows⟩

theorem fail (row : FailedJob) : d.Keeps (d.fail row) := ⟨rfl, rfl, subset_append_left .., .refl _, refl.rows⟩

end World.Keeps

variable {row : Job} {req : Request} {s' : Stage} {l : Point} {d d' : World} {now : Int} {s : Stage} {n n' : Nat}

theorem World.ready_mem {queue : String} (h : d.ready queue now = some row) : row ∈ d.jobs := mem_of_find?_eq_some h

theorem World.mem_reserve {id attempts : Nat} {job : Job}
    (h : job ∈ (d.reserve id attempts now).jobs) (hid : job.id = id) : job.attempts = attempts := by
  rcases mem_modify.mp h with ⟨-, hne⟩ | ⟨job0, -, -, rfl⟩
  · exact absurd hid hne
  · rfl

/-! ## The invariant -/

structure Sound (n : Nat) (d : World) : Prop where
  fresh : ∀ job ∈ d.pushed, job.id < n
  pushedIds : (d.pushed.map (·.id)).Nodup
  ids : (d.jobs.map (·.id)).Nodup
  known : ∀ job ∈ d.jobs, ∃ p ∈ d.pushed, p.id = job.id ∧ p.maxTries = job.maxTries
  once : d.started.Nodup
  /-- A handler was started for a job that was pushed, on an attempt its row has counted. -/
  counted : ∀ x ∈ d.started, (∃ p ∈ d.pushed, p.id = x.1) ∧ ∀ job ∈ d.jobs, job.id = x.1 → x.2 ≤ job.attempts

structure Held (r : ReservedJob) (d : World) : Prop where
  known : ∃ p ∈ d.pushed, p.id = r.id ∧ p.tries = r.job.maxTries
  le : ∀ job ∈ d.jobs, job.id = r.id → r.attempts ≤ job.attempts

def Stage.held : Stage → Option ReservedJob
  | .holding r | .deleting r | .releasing r | .failing r _ => some r
  | _ => none

def Stage.waiting : Stage → Option ReservedJob
  | .holding r => some r
  | _ => none

structure Stage.Holds (s : Stage) (d : World) : Prop where
  held : ∀ r ∈ s.held, Held r d
  waiting : ∀ r ∈ s.waiting, (r.id, r.attempts) ∉ d.started

theorem Stage.held_of_waiting {r : ReservedJob} (h : r ∈ s.waiting) : r ∈ s.held := by
  cases s <;> first | exact h | cases h

@[simp] theorem Stage.held_handled (w : Pass) (r : ReservedJob) :
    (Stage.handled w r).held = some r ∧ (Stage.handled w r).waiting = none := by
  rw [Stage.handled]
  cases w.handler with
  | ok => exact ⟨rfl, rfl⟩
  | error => cases r.isLastAttempt <;> exact ⟨rfl, rfl⟩

@[simp] theorem Stage.held_deleted (r : ReservedJob) :
    (Stage.deleted r).held = none ∧ (Stage.deleted r).waiting = none := by
  rw [Stage.deleted]
  cases r.job.nextInChain <;> exact ⟨rfl, rfl⟩

theorem Stage.Holds.of_none (h : s.held = none) : s.Holds d where
  held r hr := by
    rw [h] at hr
    cases hr
  waiting r hr := by
    have := held_of_waiting hr
    rw [h] at this
    cases this

section

variable {n n' : Nat} {d d' : World} {r : ReservedJob} {s : Stage}

theorem Sound.keeps (h : Sound n d) (hn : n ≤ n') (hkeeps : d.Keeps d') : Sound n' d' where
  fresh job hjob := by
    rw [hkeeps.pushed] at hjob
    exact (h.fresh job hjob).trans_le hn
  pushedIds := by
    rw [hkeeps.pushed]
    exact h.pushedIds
  ids := h.ids.sublist hkeeps.ids
  known job' hjob' := by
    obtain ⟨job, hjob, hid, htries, -⟩ := hkeeps.rows job' hjob'
    obtain ⟨p, hp, hpid, hptries⟩ := h.known job hjob
    rw [hkeeps.pushed]
    exact ⟨p, hp, hpid.trans hid, hptries.trans htries⟩
  once := by
    rw [hkeeps.started]
    exact h.once
  counted x hx := by
    rw [hkeeps.started] at hx
    rw [hkeeps.pushed]
    refine ⟨(h.counted x hx).1, fun job' hjob' hid' => ?_⟩
    obtain ⟨job, hjob, hid, -, hle⟩ := hkeeps.rows job' hjob'
    exact ((h.counted x hx).2 job hjob (hid.trans hid')).trans hle

theorem Held.keeps (h : Held r d) (hkeeps : d.Keeps d') : Held r d' where
  known := by
    rw [hkeeps.pushed]
    exact h.known
  le job' hjob' hid' := by
    obtain ⟨job, hjob, hid, -, hle⟩ := hkeeps.rows job' hjob'
    exact (h.le job hjob (hid.trans hid')).trans hle

theorem Stage.Holds.keeps (h : s.Holds d) (hkeeps : d.Keeps d') : s.Holds d' where
  held r hr := (h.held r hr).keeps hkeeps
  waiting r hr := by
    rw [hkeeps.started]
    exact h.waiting r hr

end

section

variable {n : Nat} {d : World} {r : ReservedJob} {s : Stage} (job : QueuedJob) (now : Int)

theorem Sound.push (h : Sound n d) : Sound (n + 1) (d.push (job.row n now)) where
  fresh := forall_concat (fun p hp => lt_succ_of_lt (h.fresh p hp)) (lt_succ_self n)
  pushedIds := nodup_concat h.pushedIds fun p hp => (h.fresh p hp).ne
  ids := by
    refine nodup_concat h.ids fun job' hjob' => ?_
    obtain ⟨p, hp, hid, -⟩ := h.known job' hjob'
    exact hid ▸ (h.fresh p hp).ne
  known := by
    refine forall_concat (fun job' hjob' => ?_) ⟨_, mem_append_right _ (.head _), rfl, rfl⟩
    obtain ⟨p, hp, hid, htries⟩ := h.known job' hjob'
    exact ⟨p, mem_append_left _ hp, hid, htries⟩
  once := h.once
  counted x hx := by
    obtain ⟨⟨p, hp, hid⟩, hcounted⟩ := h.counted x hx
    refine ⟨⟨p, mem_append_left _ hp, hid⟩, forall_concat hcounted fun hnew => ?_⟩
    -- the new id is not one of a job that was started
    exact absurd (hid.trans hnew.symm) (h.fresh p hp).ne

theorem Held.push (h : Held r d) (hsound : Sound n d) : Held r (d.push (job.row n now)) := by
  obtain ⟨p, hp, hid, htries⟩ := h.known
  refine ⟨⟨p, mem_append_left _ hp, hid, htries⟩, forall_concat h.le fun hnew => ?_⟩
  exact absurd (hid.trans hnew.symm) (hsound.fresh p hp).ne

theorem Stage.Holds.push (h : s.Holds d) (hsound : Sound n d) : s.Holds (d.push (job.row n now)) where
  held r hr := (h.held r hr).push job now hsound
  waiting := h.waiting

end

section

variable {n : Nat} {d : World} {r : ReservedJob} {s : Stage}

theorem Sound.start (h : Sound n d) (hheld : Held r d) (hnew : (r.id, r.attempts) ∉ d.started) :
    Sound n (d.start r.id r.attempts) where
  fresh := h.fresh
  pushedIds := h.pushedIds
  ids := h.ids
  known := h.known
  once := by
    refine nodup_append.mpr ⟨h.once, nodup_singleton _, fun x hx y hy => ?_⟩
    rw [mem_singleton.mp hy]
    rintro rfl
    exact hnew hx
  counted := by
    obtain ⟨p, hp, hid, -⟩ := hheld.known
    exact forall_concat h.counted ⟨⟨p, hp, hid⟩, hheld.le⟩

theorem Stage.Holds.start (h : s.Holds d) (hapart : ∀ r' ∈ s.held, r.id = r'.id → r.attempts ≠ r'.attempts) :
    s.Holds (d.start r.id r.attempts) where
  held r hr := ⟨(h.held r hr).known, (h.held r hr).le⟩
  waiting r' hr' hmem := by
    rcases mem_append.mp hmem with hmem | hmem
    · exact h.waiting r' hr' hmem
    · obtain ⟨hid, hattempts⟩ := Prod.mk.inj (mem_singleton.mp hmem)
      exact hapart r' (Stage.held_of_waiting hr') hid.symm hattempts.symm

end

/-! ## Moves -/

theorem Moves.effect (h : Moves req s l n d s' n' d') (hsound : Sound n d) :
    (∃ (job : QueuedJob) (now : Int), n' = n + 1 ∧ d' = d.push (job.row n now)) ∨
      (∃ r ∈ s.waiting, n' = n ∧ d' = d.start r.id r.attempts) ∨ (n ≤ n' ∧ d.Keeps d') := by
  cases h with
  | @pushed job now => exact .inl ⟨job, now, rfl, rfl⟩
  | @reserved _ _ now row _ _ _ hrow =>
    exact .inr (.inr ⟨le_rfl, .reserve hsound.ids (World.ready_mem hrow) now⟩)
  | idle | nothing => exact .inr (.inr ⟨le_rfl, .refl⟩)
  | reclaimed => exact .inr (.inr ⟨le_rfl, .reclaim ..⟩)
  | @handled _ r => exact .inr (.inl ⟨r, rfl, rfl, rfl⟩)
  | deleted => exact .inr (.inr ⟨le_rfl, .delete _⟩)
  | @advanced w next => exact .inl ⟨next, w.settledAt, rfl, rfl⟩
  | released => exact .inr (.inr ⟨le_rfl, .release ..⟩)
  | failed => exact .inr (.inr ⟨le_succ _, .trans (.fail _) (.remove _)⟩)

theorem Moves.held (h : Moves req s l n d s' n' d') :
    s'.held = none ∨ (s'.held = s.held ∧ s'.waiting = none) ∨ ∃ row now, row ∈ d.jobs ∧ s' = .holding row.reserved ∧
        d' = d.reserve row.id (row.attempts + 1) now := by
  cases h with
  | pushed | reclaimed | nothing | advanced | released | failed => exact .inl rfl
  | idle h => cases h <;> exact .inl rfl
  | @reserved _ _ now row _ _ _ hrow => exact .inr (.inr ⟨row, now, World.ready_mem hrow, rfl, rfl⟩)
  | @handled w r => exact .inr (.inl (Stage.held_handled w r))
  | @deleted _ r => exact .inl (Stage.held_deleted r).1

theorem Sound.reserved (h : Sound n d) (hrow : row ∈ d.jobs) :
    (Stage.holding row.reserved).Holds (d.reserve row.id (row.attempts + 1) now) where
  held r hr := by
    cases hr
    obtain ⟨p, hp, hid, htries⟩ := h.known row hrow
    refine ⟨⟨p, hp, hid, ?_⟩, fun job hjob hid => ?_⟩
    · show max p.maxTries 1 = max row.maxTries 1
      rw [htries]
    · exact (World.mem_reserve hjob hid).ge
  waiting r hr hmem := by
    cases hr
    have := (h.counted _ hmem).2 row hrow rfl
    exact absurd this (not_succ_le_self _)

theorem Sound.move (h : Sound n d) (hs : s.Holds d) (hmove : Moves req s l n d s' n' d') :
    Sound n' d' ∧ s'.Holds d' := by
  constructor
  · rcases hmove.effect h with ⟨job, now, rfl, rfl⟩ | ⟨r, hr, rfl, rfl⟩ | ⟨hn, hkeeps⟩
    · exact h.push job now
    · exact h.start (hs.held r (Stage.held_of_waiting hr)) (hs.waiting r hr)
    · exact h.keeps hn hkeeps
  · rcases hmove.held with hnone | ⟨hheld, hwaiting⟩ | ⟨row, now, hrow, rfl, rfl⟩
    · exact .of_none hnone
    · refine ⟨fun r hr => ?_, fun r hr => by rw [hwaiting] at hr; cases hr⟩
      rw [hheld] at hr
      rcases hmove.effect h with ⟨job, now, rfl, rfl⟩ | ⟨r', -, rfl, rfl⟩ | ⟨-, hkeeps⟩
      · exact (hs.held r hr).push job now h
      · exact ⟨(hs.held r hr).known, (hs.held r hr).le⟩
      · exact (hs.held r hr).keeps hkeeps
    · exact h.reserved hrow

def Stage.Apart (s t : Stage) : Prop := ∀ r ∈ s.held, ∀ r' ∈ t.held, r.id = r'.id → r.attempts ≠ r'.attempts

theorem Stage.Holds.others {t : Stage}
    (h : Sound n d) (ht : t.Holds d) (hapart : s.Apart t) (hmove : Moves req s l n d s' n' d') :
    t.Holds d' ∧ s'.Apart t := by
  constructor
  · rcases hmove.effect h with ⟨job, now, rfl, rfl⟩ | ⟨r, hr, rfl, rfl⟩ | ⟨-, hkeeps⟩
    · exact ht.push job now h
    · exact ht.start (hapart r (Stage.held_of_waiting hr))
    · exact ht.keeps hkeeps
  · intro r hr
    rcases hmove.held with hnone | ⟨hheld, -⟩ | ⟨row, now, hrow, rfl, rfl⟩
    · rw [hnone] at hr
      cases hr
    · rw [hheld] at hr
      exact hapart r hr
    · cases hr
      intro r' hr' hid
      exact ((ht.held r' hr').le row hrow hid).trans_lt (lt_succ_self _) |>.ne'

def reservations (cond : Request → Point → World → Prop) : Outline (staging cond) where
  inv := Sound
  Holds _ := Stage.Holds
  Apart _ s _ t := s.Apart t
  symm h r hr r' hr' hid := (h r' hr' r hr hid.symm).symm
  start {_ _ req} _ _ := by
    have hnone : req.start.held = none := by cases req <;> rfl
    refine ⟨.of_none hnone, fun _ _ r hr => ?_⟩
    have : r ∈ req.start.held := hr
    rw [hnone] at this
    cases this
  move h hs _ hmove := h.move hs hmove
  others h _ ht hapart _ hmove := ht.others h hapart hmove

theorem sound_empty : Sound 0 {} := ⟨by simp, by simp, by simp, by simp, by simp, by simp⟩

end Rustlavel.Queue
