/-
  How many connections there are, and which are never lent again.
-/

import Rustlavel.Db.Pool

namespace Rustlavel.Db.Pool

open Threads List Nat Db.Task

variable {P P' : Pool} {t t' : Task} {c c' : Config}

/-! ## Permits and connections -/

theorem Moves.permits_eq (h : Moves P t P' t') : P'.permits + t'.permits = P.permits + t.permits := by
  cases h with
  | permit h => exact Nat.sub_add_cancel h
  | leave h => rw [h]; rfl
  | close _ ht ht' =>
    rw [ht]
    rcases ht' with rfl | ⟨limit, rfl⟩ <;> rfl
  | _ => rfl

theorem Moves.count_le (h : Moves P t P' t') :
    P'.idle.length + (t'.lends + t'.opens) ≤ P.idle.length + (t.lends + t.opens) ∨ P'.idle = [] := by
  cases h with
  | nothing h => exact .inr h
  | lend h =>
    rw [h]
    exact .inl (le_refl _)
  | discard h => exact .inl (Nat.add_le_add_right h.length_le _)
  | push =>
    rw [length_append]
    exact .inl (le_refl _)
  | leave => exact .inl (Nat.add_le_add_left (Nat.zero_le _) _)
  | close h ht ht' =>
    refine .inl (Nat.add_le_add h.length_le ?_)
    rcases ht' with rfl | ⟨limit, rfl⟩ <;> exact Nat.zero_le _
  | _ => exact .inl (le_refl _)

structure Within (m : Nat) (c : Config) : Prop where
  permits : c.shared.permits + c.total Task.permits = m
  count : c.shared.idle.length + c.total (fun t => t.lends + t.opens) ≤ m

theorem within_init (maxConnections generation : Nat) :
    Within (max maxConnections 1) (init maxConnections generation) :=
  ⟨add_zero _, zero_le _⟩

variable {m g : Nat} {x : Conn}

theorem Within.of_run (h : tasks.Run c c') (hc : Within m c) : Within m c' := by
  refine h.keeps (P := Within m) ?_ ?_ hc
  · rintro c t ⟨hpermits, hcount⟩ ht
    have hzero : t.permits = 0 := by
      cases t <;> first | rfl | cases ht
    have hle := t.lends_add_opens_le
    refine ⟨?_, ?_⟩
    · rw [Config.total_start, hzero]
      exact hpermits
    · rw [Config.total_start]
      dsimp only
      omega
  · rintro c i t choice P' t' ⟨hpermits, hcount⟩ ht hnext
    have hmoves := moves_of_next hnext
    have hpermits' : P'.permits + Config.total Task.permits ⟨P', c.threads.set i t'⟩ = m := by
      have htotal := Config.total_step Task.permits ht P' t'
      have hkept := hmoves.permits_eq
      omega
    refine ⟨hpermits', ?_⟩
    rcases hmoves.count_le with hle | hempty
    · have htotal := Config.total_step (fun t => t.lends + t.opens) ht P' t'
      dsimp only at htotal ⊢
      omega
    · -- nothing is idle, and who has a connection or opens one has a permit
      have hle := Config.total_le_total (c := ⟨P', c.threads.set i t'⟩) Task.lends_add_opens_le
      rw [hempty, length_nil]
      omega

/-! ## Where a connection is -/

def idles (n : Nat) (P : Pool) : Nat := P.idle.countP fun e => e.2.id = n

def there (n : Nat) (P : Pool) : Nat := if n < P.opened then 1 else 0

theorem Moves.owns_le (n : Nat) (h : Moves P t P' t') :
    P'.idles n + t'.owns n + P.there n ≤ P.idles n + t.owns n + P'.there n := by
  cases h with
  | @lend g x idle h =>
    have hidles : P.idles n = idle.countP (fun e => e.2.id = n) + owns n (.lent g x) := by
      rw [idles, h, countP_cons]
      rfl
    rw [hidles]
    exact le_refl _
  | discard h => exact Nat.add_le_add_right (Nat.add_le_add_right h.countP_le _) _
  | @connect g credential =>
    have howns : owns n (.lent g { id := P.opened, credential := credential }) =
        if P.opened = n then 1 else 0 := by
      simp [owns, conn]
    have hthere : there n { P with opened := P.opened + 1 } = if n < P.opened + 1 then 1 else 0 := rfl
    have hidles : idles n { P with opened := P.opened + 1 } = P.idles n := rfl
    rw [howns, hthere, hidles, there]
    split_ifs <;> omega
  | @push g x =>
    have hidles : idles n { P with idle := P.idle ++ [(g, x)] } = P.idles n + owns n (.returning g x) := by
      rw [idles, countP_append, countP_singleton]
      rfl
    rw [hidles]
    exact le_refl _
  | leave => exact Nat.add_le_add_right (Nat.add_le_add_left (zero_le _) _) _
  | close h ht ht' =>
    refine Nat.add_le_add_right (Nat.add_le_add h.countP_le ?_) _
    rcases ht' with rfl | ⟨limit, rfl⟩ <;> exact zero_le _
  | _ => exact le_refl _

def Owned (c : Config) : Prop := ∀ n, c.shared.idles n + c.total (owns n) ≤ c.shared.there n

theorem owned_of_run (h : tasks.Run c c') (hc : Owned c) : Owned c' := by
  refine h.keeps (P := Owned) ?_ ?_ hc
  · intro c t howned ht n
    have hzero : t.owns n = 0 := by
      cases t <;> first | rfl | cases ht
    rw [Config.total_start, hzero]
    exact howned n
  · intro c i t choice P' t' howned ht hnext n
    have hle := (moves_of_next hnext).owns_le n
    have htotal := Config.total_step (owns n) ht P' t'
    have hn := howned n
    dsimp only
    omega

/-! ## Generations -/

/-- A generation that was read before, and a pair of credentials that was written after
    it: it has been replaced only if the generation has. -/
structure Dated (P : Pool) (g credential : Nat) : Prop where
  le : g ≤ P.generation
  replaced : g < P.generation ∨ P.finished ≤ credential

def Stamped (P : Pool) : Task → Prop
  | .searching g | .closing g | .connecting g => g ≤ P.generation
  | .opening g credential => P.Dated g credential
  | .lent g x | .dropping g x | .checked g x | .returning g x => P.Dated g x.credential
  | .rotated credential => credential ≤ P.written
  | _ => True

structure Current (P : Pool) : Prop where
  finished : P.finished ≤ P.written
  idle : ∀ e ∈ P.idle, P.Dated e.1 e.2.credential

structure Later (P P' : Pool) : Prop where
  generation : P.generation ≤ P'.generation
  written : P.written ≤ P'.written
  opened : P.opened ≤ P'.opened
  finished : P'.finished = P.finished ∨ P.generation < P'.generation

theorem Moves.later (h : Moves P t P' t') : Later P P' := by
  cases h with
  | connect => exact ⟨le_refl _, le_refl _, le_succ _, .inl rfl⟩
  | write => exact ⟨le_refl _, le_succ _, le_refl _, .inl rfl⟩
  | bump => exact ⟨le_succ _, le_refl _, le_refl _, .inr (lt_succ_self _)⟩
  | _ => exact ⟨le_refl _, le_refl _, le_refl _, .inl rfl⟩

theorem Dated.later {credential : Nat} (h : P.Dated g credential) (hP : Later P P') : P'.Dated g credential := by
  refine ⟨le_trans h.le hP.generation, ?_⟩
  rcases hP.finished with hfinished | hlt
  · rw [hfinished]
    exact h.replaced.imp_left fun hlt => lt_of_lt_of_le hlt hP.generation
  · exact .inl (lt_of_le_of_lt h.le hlt)

theorem Stamped.later (h : Stamped P t) (hP : Later P P') : Stamped P' t := by
  cases t with
  | searching | closing | connecting => exact le_trans h hP.generation
  | opening | lent | dropping | checked | returning => exact Dated.later h hP
  | rotated => exact le_trans h hP.written
  | _ => trivial

theorem Moves.stamped (h : Moves P t P' t') (hP : Current P) (ht : Stamped P t) : Stamped P' t' := by
  have hlater := h.later
  cases h with
  | look | write => exact le_refl _
  | nothing | discard | again | use | drop | fit | current => exact ht
  | credentials => exact ⟨ht, .inr hP.finished⟩
  | @lend g x idle h => exact (hP.idle (g, x) (h ▸ mem_cons_self ..)).later hlater
  | connect => exact Dated.later ht hlater
  | close _ _ ht' =>
    rcases ht' with rfl | ⟨limit, rfl⟩ <;> trivial
  | _ => trivial

-- what is idle was idle before, or is handed back
theorem Moves.forall_idle {Q : Nat × Conn → Prop} (h : Moves P t P' t') (hP : ∀ e ∈ P.idle, Q e)
    (ht : ∀ g x, t = .returning g x → Q (g, x)) : ∀ e ∈ P'.idle, Q e := by
  cases h with
  | lend h => exact fun e he => hP e (h ▸ mem_cons_of_mem _ he)
  | discard h | close h => exact fun e he => hP e (h.subset he)
  | push => exact forall_mem_append.mpr ⟨hP, forall_mem_singleton.mpr (ht _ _ rfl)⟩
  | _ => exact hP

theorem Moves.current_of_stamped (h : Moves P t P' t') (hP : Current P) (ht : Stamped P t) : Current P' := by
  have hlater := h.later
  have hidle := h.forall_idle hP.idle fun g x h => by subst h; exact ht
  refine ⟨?_, fun e he => (hidle e he).later hlater⟩
  cases h with
  | write => exact le_succ_of_le hP.finished
  | bump => exact Nat.max_le.mpr ⟨hP.finished, ht⟩
  | _ => exact hP.finished

theorem stamped_of_run (h : tasks.Run c c') (hc : Current c.shared ∧ ∀ t ∈ c.threads, Stamped c.shared t) :
    Current c'.shared ∧ ∀ t ∈ c'.threads, Stamped c'.shared t := by
  refine h.each ?_ ?_ hc
  · intro P t _ ht
    cases t <;> trivial
  · intro P t choice P' t' hP ht hnext
    have hmoves := moves_of_next hnext
    exact ⟨hmoves.current_of_stamped hP ht, hmoves.stamped hP ht, fun u hu => hu.later hmoves.later⟩

/-! ## Connections that are handed back unfit -/

/-- Opened under a generation that is no longer the current one, or with credentials that a rotation has replaced. -/
def Superseded (P : Pool) (g : Nat) (x : Conn) : Prop := g ≠ P.generation ∨ x.credential < P.finished

/-- A connection is being handed back, and it is broken, inside a transaction or superseded. -/
inductive Unfit (P : Pool) (x : Conn) : Task → Prop where
  | broken {g : Nat} (h : x.broken = true) : Unfit P x (.dropping g x)
  | inTransaction {g : Nat} (h : x.inTransaction = true) : Unfit P x (.dropping g x)
  | superseded {g : Nat} (h : Superseded P g x) : Unfit P x (.dropping g x)
  | checked {g : Nat} (h : Superseded P g x) : Unfit P x (.checked g x)

theorem Dated.lt (h : P.Dated g x.credential) (hx : Superseded P g x) : g < P.generation := by
  rcases hx with hne | hlt
  · exact lt_of_le_of_ne h.le hne
  · exact h.replaced.resolve_right (Nat.not_le_of_lt hlt)

/-- The task does not have the connection `n`, unless to close it. -/
def Without (n : Nat) (P : Pool) : Task → Prop
  | .lent _ x | .returning _ x => x.id ≠ n
  | .dropping g x => x.id = n → x.broken = true ∨ x.inTransaction = true ∨ g < P.generation
  | .checked g x => x.id = n → g < P.generation
  | _ => True

structure Gone (n : Nat) (P : Pool) : Prop where
  opened : n < P.opened
  idle : ∀ e ∈ P.idle, e.2.id ≠ n

variable {n : Nat}

theorem Without.later (h : Without n P t) (hP : Later P P') : Without n P' t := by
  cases t with
  | dropping =>
    exact fun hid => (h hid).imp_right fun h => h.imp_right fun hlt => lt_of_lt_of_le hlt hP.generation
  | checked => exact fun hid => lt_of_lt_of_le (h hid) hP.generation
  | lent | returning => exact h
  | _ => trivial

theorem Without.of_owns (h : t.owns n = 0) : Without n P t := by
  have hid {x : Conn} (hx : t.conn = some x) : x.id ≠ n := by
    rintro rfl
    rw [owns, hx] at h
    simp at h
  cases t with
  | dropping | checked => exact fun h => absurd h (hid rfl)
  | lent | returning => exact hid rfl
  | _ => trivial

theorem Moves.without (h : Moves P t P' t') (hP : Gone n P) (ht : Without n P t) : Without n P' t' := by
  cases h with
  | @lend g x idle h => exact hP.idle (g, x) (h ▸ mem_cons_self ..)
  | connect => exact (Nat.ne_of_lt hP.opened).symm
  | use => exact ht
  | drop => exact fun hid => absurd hid ht
  | fit hb htx =>
    -- whole and outside any transaction, so it is the generation
    intro hid
    rcases ht hid with hbroken | htransaction | hlt
    · rw [hb] at hbroken
      cases hbroken
    · rw [htx] at htransaction
      cases htransaction
    · exact hlt
  | current => exact fun hid => lt_irrefl _ (ht hid)
  | close _ _ ht' =>
    rcases ht' with rfl | ⟨limit, rfl⟩ <;> trivial
  | _ => trivial

theorem Moves.gone (h : Moves P t P' t') (hP : Gone n P) (ht : Without n P t) : Gone n P' := by
  exact ⟨lt_of_lt_of_le hP.opened h.later.opened, h.forall_idle hP.idle fun g x h => by subst h; exact ht⟩

theorem without_of_run (h : tasks.Run c c') (hc : Gone n c.shared ∧ ∀ t ∈ c.threads, Without n c.shared t) :
    Gone n c'.shared ∧ ∀ t ∈ c'.threads, Without n c'.shared t := by
  refine h.each ?_ ?_ hc
  · intro P t _ ht
    cases t <;> trivial
  · intro P t choice P' t' hP ht hnext
    have hmoves := moves_of_next hnext
    exact ⟨hmoves.gone hP ht, hmoves.without hP ht, fun u hu => hu.later hmoves.later⟩

/-! ## Runs -/

theorem Reachable.within (hc : Reachable m g c) : Within (max m 1) c := (within_init m g).of_run hc

theorem Reachable.owned (hc : Reachable m g c) : Owned c := owned_of_run hc fun _ => zero_le _

theorem Reachable.stamped (hc : Reachable m g c) {t : Task} (ht : t ∈ c.threads) : Stamped c.shared t :=
  (stamped_of_run hc ⟨⟨le_refl _, nofun⟩, nofun⟩).2 t ht

theorem gone_of_unfit (hc : Reachable m g c) (ht : t ∈ c.threads) (hx : Unfit c.shared x t) :
    Gone x.id c.shared ∧ ∀ u ∈ c.threads, Without x.id c.shared u := by
  have howned := hc.owned x.id
  have howns : t.owns x.id = 1 := by
    cases hx <;> simp [owns, conn]
  have hstamped := hc.stamped ht
  have hself : Without x.id c.shared t := by
    cases hx with
    | broken h => exact fun _ => .inl h
    | inTransaction h => exact fun _ => .inr (.inl h)
    | superseded h => exact fun _ => .inr (.inr (Dated.lt hstamped h))
    | checked h => exact fun _ => Dated.lt hstamped h
  have htotal := Config.le_total (owns x.id) ht
  have hthere : c.shared.there x.id ≤ 1 := by
    unfold there
    split <;> decide
  refine ⟨⟨?_, fun e he hid => ?_⟩, fun u hu => ?_⟩
  · by_contra hnot
    rw [there, if_neg hnot] at howned
    omega
  · have hidle : 0 < c.shared.idles x.id := countP_pos_iff.mpr ⟨e, he, decide_eq_true hid⟩
    omega
  · obtain ⟨i, hi⟩ := mem_iff_getElem?.mp ht
    obtain ⟨j, hj⟩ := mem_iff_getElem?.mp hu
    by_cases hij : i = j
    · subst hij
      rw [hi] at hj
      cases hj
      exact hself
    · have hboth := Config.add_le_total (owns x.id) hij hi hj
      exact .of_owns (by omega)

/-- In every interleaving, lent, opening and idle connections are at most the maximum, or one; and one handed back
    unfit is never lent again. -/
theorem lending_within_limits (maxConnections generation : Nat) {c : Config}
    (hc : Reachable maxConnections generation c) :
    c.total Task.lends + c.total Task.opens + c.shared.idle.length ≤ max maxConnections 1 ∧
    ∀ t ∈ c.threads, ∀ x, Unfit c.shared x t → ∀ c', tasks.Run c c' →
      ∀ g x', .lent g x' ∈ c'.threads → x'.id ≠ x.id := by
  constructor
  · have hcount := hc.within.count
    unfold Config.total at hcount ⊢
    rw [sum_map_add] at hcount
    omega
  · intro t ht x hx c' hrun g x' hlent
    exact (without_of_run hrun (gone_of_unfit hc ht hx)).2 _ hlent

def acquires : List (Event Task Choice) :=
  [.start .waiting, .step 0 .go, .step 0 .go, .step 0 .go, .step 0 .go, .step 0 .go]

def brokenDown : Config where
  shared := { permits := 0, idle := [], generation := 1, written := 1, finished := 1, opened := 1 }
  threads := [.dropping 1 { id := 0, credential := 1, broken := true }]

theorem lending_within_limits_of_broken : Reachable 1 1 brokenDown ∧
    (∃ t ∈ brokenDown.threads, Unfit brokenDown.shared { id := 0, credential := 1, broken := true } t) ∧
    brokenDown.total lends + brokenDown.total opens + brokenDown.shared.idle.length ≤ 1 ∧
    ∀ c', tasks.Run brokenDown c' → ∀ g x', .lent g x' ∈ c'.threads → x'.id ≠ 0 := by
  have hrun : tasks.play (init 1 1) (acquires ++ [.step 0 (.use true false), .step 0 .go]) = some brokenDown := rfl
  have hunfit : Unfit brokenDown.shared { id := 0, credential := 1, broken := true }
      (.dropping 1 { id := 0, credential := 1, broken := true }) := .broken rfl
  obtain ⟨hcount, hgone⟩ := lending_within_limits 1 1 (play_run hrun)
  exact ⟨play_run hrun, ⟨_, mem_cons_self .., hunfit⟩, hcount, hgone _ mem_cons_self _ hunfit⟩

/-! ## Past the limits -/

/-- The connection is about to be pushed, and another task has read the generation, when
    the credentials are rotated. -/
def rotatedBetween : List (Event Task Choice) :=
  acquires ++ [.start .waiting, .step 1 .go, .step 1 .go, .step 0 .go, .step 0 .go, .step 0 .go,
    .start .rotating, .step 2 .go, .step 2 .go]

def rotatedOnce (threads : List Task) : Config where
  shared := { permits := 0, idle := [], generation := 2, written := 2, finished := 2, opened := 1 }
  threads := threads

/-- A maximum of zero lends one connection, and one that is superseded when it is queued is lent again. -/
theorem lent_past_limits : (∃ c, Reachable 0 1 c ∧ 0 < c.total lends) ∧
    ∃ c c' x, Reachable 2 1 c ∧ .returning 1 x ∈ c.threads ∧ Superseded c.shared 1 x ∧
      tasks.Run c c' ∧ .lent 1 x ∈ c'.threads := by
  constructor
  · have hrun : tasks.play (init 0 1) acquires = some {
        shared := { permits := 0, idle := [], generation := 1, written := 1, finished := 1, opened := 1 },
        threads := [.lent 1 { id := 0, credential := 1 }] } := rfl
    exact ⟨_, play_run hrun, by decide⟩
  · let x : Conn := { id := 0, credential := 1 }
    have hrun : tasks.play (init 2 1) rotatedBetween = some (rotatedOnce [.returning 1 x, .searching 1, .done]) := rfl
    have hpush : tasks.play (rotatedOnce [.returning 1 x, .searching 1, .done]) [.step 0 .go, .step 1 .go] =
        some (rotatedOnce [.leaving, .lent 1 x, .done]) := rfl
    exact ⟨_, _, x, play_run hrun, mem_cons_self .., .inl (by decide), play_run hpush,
      mem_cons_of_mem _ mem_cons_self⟩

end Rustlavel.Db.Pool
