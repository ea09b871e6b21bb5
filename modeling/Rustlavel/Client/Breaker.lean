/-
  The circuit breaker of one host: `rustlavel-client/src/breaker.rs`.
-/

import Rustlavel.Lib.Threads

namespace Rustlavel.Client

structure Settings where
  /-- Whether so many failures of so many calls reach the failure rate. -/
  exceeds : (failures total : Nat) → Bool
  minimumCalls : Nat
  window : Nat
  resetAfter : Nat
  probes : Nat
  /-- It is a `u32`. -/
  probes_lt : probes < 2 ^ 32

inductive State where
  | closed
  | opened
  | halfOpen
  deriving DecidableEq

structure Circuit where
  /-- Number, successes and failures of each slice of the window. -/
  buckets : List (Nat × Nat × Nat) := []
  origin : Option Nat := none
  openedAt : Option Nat := none
  halfOpen : Bool := false
  /-- An `AtomicU32`. -/
  probesLeft : Nat := 0
  probeSuccesses : Nat := 0

variable {probe failed : Bool} {choice : Nat × Act}

namespace Circuit

variable (S : Settings) (now : Nat) (c : Circuit)

def enters : Bool := !c.halfOpen && c.openedAt.any fun openedAt => S.resetAfter ≤ now - openedAt

def refresh : Circuit :=
  if c.enters S now then { c with halfOpen := true, probesLeft := S.probes, probeSuccesses := 0 } else c

def current : State := if c.openedAt = none then .closed else if c.halfOpen then .halfOpen else .opened

def state : State × Circuit := ((c.refresh S now).current, c.refresh S now)

def «open» : Circuit :=
  { c with openedAt := some now, halfOpen := false, probeSuccesses := 0, probesLeft := S.probes, buckets := [] }

def close : Circuit := { c with openedAt := none, halfOpen := false, probeSuccesses := 0, buckets := [] }

def count (failed : Bool) : Circuit :=
  let origin := c.origin.getD now
  let bucket := (now - origin) / max (S.window / 10) 1
  let kept := c.buckets.dropWhile fun slice => slice.1 + 10 ≤ bucket
  let more : Nat × Nat × Nat := (bucket, if failed then 0 else 1, if failed then 1 else 0)
  { c with
    origin := some origin
    buckets := match kept.getLast? with
      | some (number, successes, failures) =>
        if number = bucket then kept.dropLast ++ [(number, successes + more.2.1, failures + more.2.2)]
        else kept ++ [more]
      | none => kept ++ [more] }

def failures : Nat := (c.buckets.map fun slice => slice.2.2).sum

def total : Nat := (c.buckets.map fun slice => slice.2.1 + slice.2.2).sum

def shouldOpen : Bool := c.openedAt = none && S.minimumCalls ≤ c.total && S.exceeds c.failures c.total

def acquire : Option Bool × Circuit :=
  match c.state S now with
  | (.closed, c) => (some false, c)
  | (.opened, c) => (none, c)
  | (.halfOpen, c) => if 0 < c.probesLeft then (some true, { c with probesLeft := c.probesLeft - 1 }) else (none, c)

def record (wasProbe failed : Bool) : Circuit × Bool :=
  let (state, c) := c.state S now
  if wasProbe then
    -- a probe that was overtaken says nothing
    if state ≠ .halfOpen then (c, false)
    else if failed then (c.open S now, true)
    else
      let c := { c with probeSuccesses := c.probeSuccesses + 1 }
      (if S.probes ≤ c.probeSuccesses then c.close else c, false)
  else
    let c := c.count S now failed
    if c.shouldOpen S then (c.open S now, true) else (c, false)

/-- `fetch_add` wraps around. -/
def giveBack (wasProbe : Bool) : Circuit :=
  if wasProbe then { c with probesLeft := (c.probesLeft + 1) % 2 ^ 32 } else c

theorem acquire_cases : (c.acquire S now).1 ≠ some true ∧ (c.acquire S now).2 = c.refresh S now ∨
    c.acquire S now = (some true, { c.refresh S now with probesLeft := (c.refresh S now).probesLeft - 1 }) ∧
      0 < (c.refresh S now).probesLeft := by
  cases hcurrent : (c.refresh S now).current with
  | closed | opened => simp [acquire, state, hcurrent]
  | halfOpen => by_cases hleft : 0 < (c.refresh S now).probesLeft <;> simp [acquire, state, hcurrent, hleft]

theorem record_halfOpen (hopened : (c.refresh S now).halfOpen = true → (c.refresh S now).openedAt ≠ none)
    (h : (c.record S now probe failed).1.halfOpen = true) :
    let r := c.refresh S now
    let c' := (c.record S now probe failed).1
    r.halfOpen = true ∧ c'.openedAt = r.openedAt ∧ c'.probesLeft = r.probesLeft ∧
      c'.probeSuccesses = r.probeSuccesses + (if probe then 1 else 0) ∧ (probe = true → failed = false) := by
  have hstate : (c.refresh S now).halfOpen = true → (c.refresh S now).current = .halfOpen := by
    intro hhalf
    simp [current, hopened hhalf, hhalf]
  cases probe with
  | false =>
    by_cases hopens : ((c.refresh S now).count S now failed).shouldOpen S
    · simp [record, state, hopens, «open»] at h
    · simp only [record, state, hopens] at h ⊢
      exact ⟨h, rfl, rfl, rfl, by simp⟩
  | true =>
    by_cases hcurrent : (c.refresh S now).current = .halfOpen
    · cases failed with
      | true => simp [record, state, hcurrent, «open»] at h
      | false =>
        by_cases hlast : S.probes ≤ (c.refresh S now).probeSuccesses + 1
        · simp [record, state, hcurrent, hlast, close] at h
        · simp [record, state, hcurrent, hlast] at h ⊢
          exact h
    · simp [record, state, hcurrent] at h
      exact absurd (hstate h) hcurrent

end Circuit

/-! ## Callers -/

/-- The circuit, its openings and half-open periods, the probes that succeeded in the present one, and the earlier
    ones' probes dropped in it. -/
structure World where
  circuit : Circuit := {}
  opens : Nat := 0
  period : Nat := 0
  succeeded : Nat := 0
  late : Nat := 0

inductive Caller where
  | asking
  /-- With the period and the number of openings at the time. -/
  | holding (probe : Bool) (period opens : Nat)
  | done
  deriving DecidableEq

inductive Act where
  | acquires
  | reports (failed : Bool)
  | drops

def World.pass (S : Settings) (now : Nat) (w : World) : World := { w with
    circuit := w.circuit.refresh S now
    period := if w.circuit.enters S now then w.period + 1 else w.period
    succeeded := if w.circuit.enters S now then 0 else w.succeeded
    late := if w.circuit.enters S now then 0 else w.late }

def next (S : Settings) (w : World) (caller : Caller) (choice : Nat × Act) : Option (World × Caller) :=
  let (now, act) := choice
  match caller, act with
  | .asking, .acquires =>
    let (answer, circuit) := w.circuit.acquire S now
    let w := { w.pass S now with circuit := circuit }
    some (w, answer.elim .done fun probe => .holding probe w.period w.opens)
  | .holding probe period _, .reports failed =>
    let (circuit, opened) := w.circuit.record S now probe failed
    let w := w.pass S now
    some ({ w with
      circuit := circuit
      opens := if opened then w.opens + 1 else w.opens
      succeeded := if probe ∧ period = w.period ∧ ¬ failed then w.succeeded + 1 else w.succeeded }, .done)
  | .holding probe period _, .drops =>
    some ({ w with
      circuit := w.circuit.giveBack probe
      late := if probe ∧ period ≠ w.period then w.late + 1 else w.late }, .done)
  | _, _ => none

def breaker (S : Settings) : Threads World Caller (Nat × Act) where
  starts caller := caller = .asking
  next := next S

/-! ## Probes -/

def probing (period : Nat) : Caller → Nat
  | .holding true p _ => if p = period then 1 else 0
  | _ => 0

section

open Threads Circuit List

variable {S : Settings} {c : Config World Caller}

/-- The permits of a half-open period, with `n` of them out, until so many late ones came back that the count may
    have wrapped around. -/
def Balanced (S : Settings) (w : World) (n : Nat) : Prop :=
  w.circuit.halfOpen = true → w.circuit.openedAt ≠ none ∧ (S.probes + w.late < 2 ^ 32 →
    w.circuit.probesLeft + n ≤ S.probes + w.late ∧ S.probes ≤ w.circuit.probesLeft + n + w.succeeded) ∧
    w.succeeded ≤ w.circuit.probeSuccesses

structure Counted (S : Settings) (c : Config World Caller) : Prop where
  periods : ∀ t ∈ c.threads, ∀ probe p o, t = .holding probe p o → p ≤ c.shared.period
  balanced : Balanced S c.shared (c.total (probing c.shared.period))

theorem Counted.pass (h : Counted S c) (now : Nat) :
    Balanced S (c.shared.pass S now) (c.total (probing (c.shared.pass S now).period)) ∧
      c.shared.period ≤ (c.shared.pass S now).period := by
  cases henters : c.shared.circuit.enters S now with
  | false =>
    simp only [World.pass, refresh, henters, Bool.false_eq_true, if_false]
    exact ⟨h.balanced, Nat.le_refl _⟩
  | true =>
    have hopened : c.shared.circuit.openedAt ≠ none := by
      intro hnone
      simp [enters, hnone] at henters
    have hnone : c.total (probing (c.shared.period + 1)) = 0 := by
      refine sum_eq_zero fun n hn => ?_
      obtain ⟨t, ht, rfl⟩ := mem_map.mp hn
      match t with
      | .asking | .done | .holding false _ _ => rfl
      | .holding true p o =>
        have hp := h.periods _ ht true p o rfl
        exact if_neg (by omega)
    simp only [World.pass, refresh, henters, if_true]
    refine ⟨fun _ => ?_, Nat.le_succ _⟩
    simp only [hnone]
    exact ⟨hopened, by omega⟩

variable {i n n' now : Nat} {t t' : Caller} {w : World}

theorem Counted.of_step (h : Counted S c) (ht : c.threads[i]? = some t)
    (hperiod : c.shared.period ≤ w.period) (ht' : ∀ probe p o, t' = .holding probe p o → p ≤ w.period)
    (hbalanced : ∀ n, n + probing w.period t = c.total (probing w.period) + probing w.period t' → Balanced S w n) :
    Counted S { shared := w, threads := c.threads.set i t' } where
  periods := by
    intro u hu probe p o heq
    rcases mem_or_eq_of_mem_set hu with hu | rfl
    · exact (h.periods u hu probe p o heq).trans hperiod
    · exact ht' probe p o heq
  balanced := hbalanced _ (Config.total_step _ ht w t')

theorem Balanced.acquire (h : Balanced S (w.pass S now) n)
    (hn : n' = n + (if (w.circuit.acquire S now).1 = some true then 1 else 0)) :
    Balanced S { w.pass S now with circuit := (w.circuit.acquire S now).2 } n' := by
  rcases w.circuit.acquire_cases S now with ⟨hanswer, hcircuit⟩ | ⟨hacquire, hleft⟩
  · simp only [hn, hcircuit, if_neg hanswer]
    exact h
  · simp only [hacquire, if_true] at hn ⊢
    intro hhalf
    have hwas := h hhalf
    simp only [World.pass] at hwas ⊢
    exact ⟨hwas.1, by omega⟩

theorem Balanced.record {opens : Nat} (own : Prop) [Decidable own]
    (h : Balanced S (w.pass S now) n) (hn : n = n' + if probe ∧ own then 1 else 0) :
    Balanced S { w.pass S now with
      circuit := (w.circuit.record S now probe failed).1
      opens := opens
      succeeded := if probe ∧ own ∧ ¬ failed then (w.pass S now).succeeded + 1 else (w.pass S now).succeeded } n' := by
  intro hhalf
  obtain ⟨hwasHalf, hopened, hleft, hsuccesses, _⟩ :=
    w.circuit.record_halfOpen S now (fun hhalf => (h hhalf).1) hhalf
  have hwas := h hwasHalf
  simp only [World.pass, hopened, hleft, hsuccesses] at hwas ⊢
  refine ⟨hwas.1, ?_⟩
  by_cases hprobe : probe = true <;> by_cases hown : own <;> simp_all <;> omega

theorem Counted.step (h : Counted S c)
    (ht : c.threads[i]? = some t) (hnext : next S c.shared t choice = some (w, t')) :
    Counted S { shared := w, threads := c.threads.set i t' } := by
  obtain ⟨now, act⟩ := choice
  obtain ⟨hbalanced, hperiod⟩ := h.pass now
  match t, act with
  | .asking, .acquires =>
    obtain ⟨rfl, rfl⟩ := by simpa only [next, Option.some.injEq, Prod.mk.injEq] using hnext
    refine h.of_step ht hperiod (fun probe p o heq => ?_) fun n hn => hbalanced.acquire ?_
    · cases hanswer : (c.shared.circuit.acquire S now).1 <;> simp [hanswer] at heq
      simp [heq]
    · rcases hanswer : (c.shared.circuit.acquire S now).1 with _ | _ | _ <;>
        simpa [hanswer, probing] using hn
  | .holding probe p o, .reports failed =>
    cases hnext
    refine h.of_step ht hperiod (by simp) fun n hn => ?_
    refine Balanced.record (p = (c.shared.pass S now).period) hbalanced ?_
    cases probe <;> simpa [probing] using hn.symm
  | .holding probe p o, .drops =>
    cases hnext
    refine h.of_step ht (Nat.le_refl _) (by simp) fun n hn hhalf => ?_
    cases probe with
    | false =>
      have hn : n = c.total (probing c.shared.period) := hn
      simpa [hn, giveBack] using h.balanced hhalf
    | true =>
      obtain ⟨hopened, hcount, hsucceeded⟩ := h.balanced hhalf
      -- below the bound the count does not wrap around
      by_cases hp : p = c.shared.period
      · simp [probing, hp] at hn
        refine ⟨hopened, fun hlate => ?_, hsucceeded⟩
        simp only [giveBack, hp, ne_eq, not_true, and_false, if_false, if_true] at hlate ⊢
        obtain ⟨hmost, hleast⟩ := hcount hlate
        rw [Nat.mod_eq_of_lt (by omega)]
        omega
      · simp [probing, hp] at hn
        refine ⟨hopened, fun hlate => ?_, hsucceeded⟩
        simp only [giveBack, hp, ne_eq, not_false_iff, and_self, if_true] at hlate ⊢
        obtain ⟨hmost, hleast⟩ := hcount (by omega)
        rw [Nat.mod_eq_of_lt (by omega)]
        omega
  | .asking, .reports _ | .asking, .drops | .holding _ _ _, .acquires | .done, _ => simp [next] at hnext

theorem Counted.run (h : Counted S c) {c' : Config World Caller} (hrun : (breaker S).Run c c') : Counted S c' := by
  refine hrun.keeps ?_ (fun hcounted ht hnext => hcounted.step ht hnext) h
  intro c t hcounted hstarts
  obtain rfl : t = .asking := by simpa [breaker] using hstarts
  refine ⟨fun u hu probe p o heq => ?_, ?_⟩
  · rcases mem_append.mp hu with hu | hu
    · exact hcounted.periods u hu probe p o heq
    · simp [mem_singleton.mp hu] at heq
  · rw [Config.total_start]
    exact hcounted.balanced

/-- In every half-open period no more probes are out than allowed, unless a probe of an earlier period was dropped
    in it, and enough are left for the period to end, unless so many were that the count has wrapped around. -/
theorem probes_within {c : Config World Caller} (hrun : (breaker S).Run { shared := {}, threads := [] } c)
    (hhalf : c.shared.circuit.halfOpen = true) :
    (c.shared.late = 0 → c.total (probing c.shared.period) ≤ S.probes) ∧ (S.probes + c.shared.late < 2 ^ 32 →
      S.probes ≤ c.shared.circuit.probesLeft + c.total (probing c.shared.period) + c.shared.succeeded) := by
  have hcounted : Counted S { shared := {}, threads := [] } := ⟨by simp, by simp [Balanced]⟩
  obtain ⟨-, hcount, -⟩ := (hcounted.run hrun).balanced hhalf
  refine ⟨fun hlate => ?_, fun hlate => (hcount hlate).2⟩
  have hprobes := S.probes_lt
  have hmost := (hcount (by omega)).1
  omega

def twoProbes : Settings where
  exceeds failures total := total ≤ 2 * failures
  minimumCalls := 1
  window := 60
  resetAfter := 30
  probes := 2
  probes_lt := by decide

def firstPeriod : List (Event Caller (Nat × Act)) :=
  [.start .asking, .step 0 (0, .acquires), .step 0 (0, .reports true),
    .start .asking, .step 1 (30, .acquires), .start .asking, .step 2 (30, .acquires)]

theorem probes_within_first : ∃ c, (breaker twoProbes).play { shared := {}, threads := [] } firstPeriod = some c ∧
      c.shared.circuit.halfOpen = true ∧
      (c.shared.late = 0 → c.total (probing c.shared.period) ≤ twoProbes.probes) ∧
      (twoProbes.probes + c.shared.late < 2 ^ 32 →
        twoProbes.probes ≤ c.shared.circuit.probesLeft + c.total (probing c.shared.period) + c.shared.succeeded) :=
  ⟨_, rfl, rfl, probes_within (play_run (show (breaker twoProbes).play _ firstPeriod = _ from rfl)) rfl⟩

/-- One of two fails, two others get probes of the second period, the first drops its own, a third gets a probe. -/
theorem three_probes_out : ∃ c, (breaker twoProbes).play { shared := {}, threads := [] } (firstPeriod ++
        [.step 2 (31, .reports true), .start .asking, .step 3 (61, .acquires), .start .asking,
          .step 4 (61, .acquires), .step 1 (62, .drops), .start .asking, .step 5 (63, .acquires)]) = some c ∧
      c.shared.circuit.halfOpen = true ∧ twoProbes.probes < c.total (probing c.shared.period) :=
  ⟨_, rfl, rfl, by decide⟩

end

/-! ## Stale permits -/

open Threads

namespace Circuit

/-- What of a circuit is looked at again: the window of one that is not closed is cleared before it is. -/
def view (c : Circuit) : Circuit := if c.openedAt = none then c else { c with buckets := [] }

theorem view_closed {c : Circuit} (h : c.openedAt = none) : c.view = c := if_pos h

theorem view_opened {c : Circuit} (h : c.openedAt ≠ none) : c.view = { c with buckets := [] } := if_neg h

variable (S : Settings) (now : Nat) (c : Circuit)

@[simp]
theorem refresh_openedAt : (c.refresh S now).openedAt = c.openedAt := by
  rw [refresh]
  split <;> rfl

@[simp]
theorem refresh_origin : (c.refresh S now).origin = c.origin := by
  rw [refresh]
  split <;> rfl

theorem enters_view : c.view.enters S now = c.enters S now := by
  by_cases h : c.openedAt = none <;> simp [view, enters, h]

theorem refresh_view : c.view.refresh S now = (c.refresh S now).view := by
  by_cases h : c.openedAt = none
  · rw [view_closed h, view_closed (by simpa using h)]
  · simp only [refresh, enters_view]
    split <;> simp [view, h]

theorem acquire_view : (c.view.acquire S now).1 = (c.acquire S now).1 ∧
    (c.view.acquire S now).2.view = (c.acquire S now).2.view := by
  by_cases h : c.openedAt = none
  · simp [view_closed h]
  · have hr : (c.refresh S now).openedAt ≠ none := by simpa using h
    simp only [acquire, state, refresh_view, view_opened hr]
    cases hhalf : (c.refresh S now).halfOpen <;> by_cases hleft : 0 < (c.refresh S now).probesLeft <;>
      simp [current, hhalf, hleft, h, view]

theorem record_view (probe failed : Bool) : (c.view.record S now probe failed).2 = (c.record S now probe failed).2 ∧
    (c.view.record S now probe failed).1.view = (c.record S now probe failed).1.view := by
  by_cases h : c.openedAt = none
  · simp [view_closed h]
  · have hr : (c.refresh S now).openedAt ≠ none := by simpa using h
    simp only [record, state, refresh_view, view_opened hr]
    cases probe <;> cases hhalf : (c.refresh S now).halfOpen <;> cases failed <;>
      by_cases hlast : S.probes ≤ (c.refresh S now).probeSuccesses + 1 <;>
      simp [current, shouldOpen, count, hhalf, hlast, h, view, «open», close]

theorem record_origin (h : c.openedAt ≠ none → c.origin ≠ none) :
    (c.record S now probe failed).1.openedAt ≠ none → (c.record S now probe failed).1.origin ≠ none := by
  cases probe with
  | false =>
    have hcount : ((c.refresh S now).count S now failed).origin ≠ none := by simp [count]
    by_cases hopens : ((c.refresh S now).count S now failed).shouldOpen S <;>
      simp [record, state, hopens, «open», hcount]
  | true =>
    by_cases hcurrent : (c.refresh S now).current = .halfOpen
    · have horigin : c.origin ≠ none := h (by
        intro hnone
        simp [current, hnone] at hcurrent)
      by_cases hlast : S.probes ≤ (c.refresh S now).probeSuccesses + 1 <;> cases failed <;>
        simp [record, state, hcurrent, hlast, «open», close, horigin]
    · simpa [record, state, hcurrent] using h

theorem giveBack_view (probe : Bool) : (c.view.giveBack probe).view = (c.giveBack probe).view := by
  by_cases h : c.openedAt = none <;> cases probe <;> simp [giveBack, view, h]

theorem record_stale {probe : Bool} (failed : Bool) (horigin : c.openedAt ≠ none → c.origin ≠ none)
    (hprobe : probe = true → (c.refresh S now).current ≠ .halfOpen)
    (hother : probe = false → (c.refresh S now).current ≠ .closed) :
    (c.record S now probe failed).2 = false ∧ (c.record S now probe failed).1.view = (c.refresh S now).view := by
  cases probe with
  | true => simp [record, state, hprobe]
  | false =>
    have hopened : c.openedAt ≠ none := by
      intro hnone
      exact hother rfl (by simp [current, hnone])
    obtain ⟨_, ho⟩ := Option.ne_none_iff_exists'.mp (horigin hopened)
    simp [record, state, shouldOpen, count, hopened, view, ho]

end Circuit

def World.Started (w : World) : Prop := w.circuit.openedAt ≠ none → w.circuit.origin ≠ none

theorem World.Started.next {S : Settings} {w w' : World} {t t' : Caller} (h : w.Started)
    (hnext : next S w t choice = some (w', t')) : w'.Started := by
  obtain ⟨now, act⟩ := choice
  match t, act with
  | .asking, .acquires =>
    obtain ⟨rfl, -⟩ := by simpa only [Client.next, Option.some.injEq, Prod.mk.injEq] using hnext
    rcases w.circuit.acquire_cases S now with ⟨-, hcircuit⟩ | ⟨hacquire, -⟩
    · simpa [Started, hcircuit] using h
    · simpa [Started, hacquire] using h
  | .holding probe p o, .reports failed =>
    cases hnext
    exact w.circuit.record_origin S now h
  | .holding probe p o, .drops =>
    cases hnext
    cases probe <;> exact h
  | .asking, .reports _ | .asking, .drops | .holding _ _ _, .acquires | .done, _ => simp [Client.next] at hnext

def World.view (w : World) : World := { w with circuit := w.circuit.view, succeeded := 0, late := 0 }

theorem next_view (S : Settings) (w : World) (t : Caller) (choice : Nat × Act) :
    (next S w.view t choice).map (Prod.map World.view id) = (next S w t choice).map (Prod.map World.view id) := by
  obtain ⟨now, act⟩ := choice
  match t, act with
  | .asking, .acquires =>
    obtain ⟨hanswer, hcircuit⟩ := w.circuit.acquire_view S now
    simp [next, World.view, World.pass, Circuit.enters_view, hanswer, hcircuit]
  | .holding probe p o, .reports failed =>
    obtain ⟨hopened, hcircuit⟩ := w.circuit.record_view S now probe failed
    simp [next, World.view, World.pass, Circuit.enters_view, hopened, hcircuit]
  | .holding probe p o, .drops => simp [next, World.view, Circuit.giveBack_view]
  | .asking, .reports _ | .asking, .drops | .holding _ _ _, .acquires | .done, _ => rfl

/-- A probe reported while the circuit is not half-open, and another call while it is not closed, change nothing
    that is read again. -/
theorem stale_report_ignored {S : Settings} {c : Config World Caller}
    (hrun : (breaker S).Run { shared := {}, threads := [] } c) {i p o now : Nat} {probe failed : Bool}
    (ht : c.threads[i]? = some (.holding probe p o))
    (hprobe : probe = true → (c.shared.circuit.refresh S now).current ≠ .halfOpen)
    (hother : probe = false → (c.shared.circuit.refresh S now).current ≠ .closed)
    (later : List (Event Caller (Nat × Act))) :
    ∃ w, (breaker S).perform c (.step i (now, .reports failed)) = some ⟨w, c.threads.set i .done⟩ ∧
      w.view = (c.shared.pass S now).view ∧
      ((breaker S).play ⟨w, c.threads.set i .done⟩ later).map (fun c => (c.shared.view, c.threads)) =
        ((breaker S).play ⟨c.shared.pass S now, c.threads.set i .done⟩ later).map
          (fun c => (c.shared.view, c.threads)) := by
  have hstarted : c.shared.Started := (hrun.each (Q := fun _ _ => True) (fun _ _ => trivial)
      (fun h _ hnext => ⟨h.next hnext, trivial, fun _ _ => trivial⟩) ⟨by simp [World.Started], by simp⟩).1
  obtain ⟨hopened, hcircuit⟩ := c.shared.circuit.record_stale S now failed hstarted hprobe hother
  obtain ⟨w, hnext⟩ : ∃ w, next S c.shared (.holding probe p o) (now, .reports failed) = some (w, .done) := ⟨_, rfl⟩
  have hview : w.view = (c.shared.pass S now).view := by
    have hw := hnext
    simp only [next, Option.some.injEq, Prod.mk.injEq, and_true] at hw
    simp [← hw, World.view, hopened, hcircuit, World.pass]
  refine ⟨w, by simp [perform, ht, breaker, hnext], hview, play_congr ?_ later hview _⟩
  intro s s' hs t choice
  have hnexts := next_view S s t choice
  rw [hs, next_view] at hnexts
  exact hnexts.symm

def firstFails : List (Event Caller (Nat × Act)) :=
  [.start .asking, .step 0 (0, .acquires), .start .asking, .step 1 (0, .acquires), .step 0 (1, .reports true)]

theorem stale_report_ignored_open :
    ∃ c, (breaker twoProbes).play { shared := {}, threads := [] } firstFails = some c ∧
      c.threads[1]? = some (.holding false 0 0) ∧ c.shared.opens = 1 ∧
      ∃ w, (breaker twoProbes).perform c (.step 1 (20, .reports true)) = some ⟨w, c.threads.set 1 .done⟩ ∧
        w.view = (c.shared.pass twoProbes 20).view :=
  ⟨_, rfl, rfl, rfl, (stale_report_ignored (play_run (show (breaker twoProbes).play _ firstFails = _ from rfl)) rfl
    (by decide) (by decide) []).imp fun _ h => ⟨h.1, h.2.1⟩⟩

/-- Two probes close the circuit; the failure of the second caller opens it again. -/
theorem stale_failure_opens : ∃ c, (breaker twoProbes).play { shared := {}, threads := [] } (firstFails ++
        [.start .asking, .step 2 (31, .acquires), .start .asking, .step 3 (31, .acquires),
          .step 2 (31, .reports false), .step 3 (31, .reports false)]) = some c ∧
      c.threads[1]? = some (.holding false 0 0) ∧ c.shared.opens = 1 ∧ c.shared.circuit.openedAt = none ∧
      ∃ w, next twoProbes c.shared (.holding false 0 0) (32, .reports true) = some (w, .done) ∧
        w.circuit.openedAt = some 32 :=
  ⟨_, rfl, rfl, rfl, rfl, _, rfl, rfl⟩

end Rustlavel.Client
