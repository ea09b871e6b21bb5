/-
  Sessions under concurrent requests. A request that logs in or out gives its session a new id and destroys the
  record of the old one.
-/

import Rustlavel.Auth.Middleware
import Rustlavel.Lib.Stages

namespace Rustlavel.Auth

open Transact List Function Option

variable {N : Type} [Number N]

/-! ## Stages -/

inductive Stage (N : Type) where
  | loading
  | handling (s : Session N) (existed : Bool)
  | destroying (loaded : String) (s : Session N)
  | saving (loaded : String) (existed : Bool) (s : Session N)
  | finished (r : Reply)

namespace SessionManager

variable (M : SessionManager)

def rest (v : Visit N) : Stage N → Prog Point (Sessions N) (SessionWrite N) Reply
  | .loading => M.handle v
  | .handling s existed => M.run v s existed
  | .destroying loaded s => v.destroy loaded s
  | .saving loaded existed s => v.save loaded existed s
  | .finished r => .ret r

def leaving (loaded : String) (existed : Bool) (s : Session N) : Stage N :=
  if !s.dirty && decide (s.id = loaded) then .finished { loaded, existed, cookie := none }
  else if existed && decide (s.id ≠ loaded) then .destroying loaded s
  else .saving loaded existed s

inductive Moves (v : Visit N) : Stage N → Point → Nat → Sessions N → Stage N → Nat → Sessions N → Prop where
  | found {n d s} (h : v.found M.lifetime d = some s) : Moves v .loading .read n d (.handling s true) n d
  | new {n d} (h : v.found M.lifetime d = none) :
      Moves v .loading .read n d (.handling (.withId v.readAt (M.drawn n)) false) (n + 1) (d.draw 1)
  | handled {s existed n d} : Moves v (.handling s existed) .handler n d
        (leaving s.id existed (v.remembered (M.perform n v.actions s)).ageFlash)
        (n + v.actions.length) (d.draw v.actions.length)
  | destroyed {loaded s n d} (h : v.outage .destroy = false) :
      Moves v (.destroying loaded s) .destroy n d (.saving loaded true s) n (d.remove loaded)
  | undestroyed {loaded s n d} (h : v.outage .destroy = true) :
      Moves v (.destroying loaded s) .destroy n d (.saving loaded true s) n d
  | saved {loaded existed s n d} (h : v.outage .write = false) :
      Moves v (.saving loaded existed s) (.write existed loaded s.id) n d
        (.finished { loaded, existed, cookie := some s.id }) n (d.insert s.id (s.touch v.writeAt).toJson)
  | unsaved {loaded existed s n d} (h : v.outage .write = true) :
      Moves v (.saving loaded existed s) (.write existed loaded s.id) n d
        (.finished { loaded, existed, cookie := none }) n d

variable (allowed : Visit N → Prop) (cond : Visit N → Point → Sessions N → Prop)

abbrev system : System (Visit N) Point (Sessions N) (SessionWrite N) Reply where
  program := M.handle
  allowed := allowed
  cond := cond

theorem rest_leaving (v : Visit N) (loaded : String) (existed : Bool) (s : Session N) :
    M.rest v (leaving loaded existed s) = v.leave loaded existed s := by
  unfold leaving Visit.leave
  split
  · rfl
  · split <;> rfl

theorem finished_of_rest {v : Visit N} {st : Stage N} {r : Reply} (h : M.rest v st = .ret r) : st = .finished r := by
  cases st with
  | finished => cases h; rfl
  | loading | handling | destroying | saving => cases h

theorem goes_rest (v : Visit N) (st : Stage N) :
    (M.rest v st).Goes fun l n d q n' d' => ∃ st', M.rest v st' = q ∧ M.Moves v st l n d st' n' d' := by
  cases st with
  | loading =>
    intro n d b n' d' hrun
    rw [M.run_load] at hrun
    cases hfound : v.found M.lifetime d with
    | some s =>
      rw [hfound] at hrun
      cases hrun
      exact ⟨.handling s true, rfl, .found hfound⟩
    | none =>
      rw [hfound] at hrun
      cases hrun
      exact ⟨.handling _ false, rfl, .new hfound⟩
  | handling s existed =>
    intro n d b n' d' hrun
    rw [M.run_handler] at hrun
    cases hrun
    exact ⟨_, M.rest_leaving v s.id existed _, .handled⟩
  | destroying loaded s =>
    intro n d b n' d' hrun
    cases hout : v.outage .destroy with
    | false =>
      simp only [Tx.run, hout] at hrun
      cases hrun
      exact ⟨.saving loaded true s, rfl, .destroyed hout⟩
    | true =>
      simp only [Tx.run, hout] at hrun
      cases hrun
      exact ⟨.saving loaded true s, rfl, .undestroyed hout⟩
  | saving =>
    intro n d b n' d' hrun
    cases hout : v.outage .write with
    | false =>
      simp only [Tx.run, hout] at hrun
      cases hrun
      exact ⟨.finished _, rfl, .saved hout⟩
    | true =>
      simp only [Tx.run, hout] at hrun
      cases hrun
      exact ⟨.finished _, rfl, .unsaved hout⟩
  | finished => trivial

def staging : Staging (M.system allowed cond) (Stage N) where
  prog := M.rest
  start _ := .loading
  Moves := M.Moves
  program_eq _ := rfl
  goes := M.goes_rest

end SessionManager

/-! ## What keeps the requests apart -/

namespace Stage

def ids : Stage N → List String
  | .loading => []
  | .handling s _ => [s.id]
  | .destroying loaded s | .saving loaded _ s => [loaded, s.id]
  | .finished r => [r.loaded]

def fresh : Stage N → List String
  | .handling s false => [s.id]
  | .destroying _ s => [s.id]
  | .saving loaded existed s => if existed && decide (s.id = loaded) then [] else [s.id]
  | _ => []

/-- The ids without a record: those not written yet, and the one a request has left behind. -/
def absent (v : Visit N) : Stage N → List String
  | .handling s false => [s.id]
  | .destroying _ s => [s.id]
  | .saving loaded existed s =>
    if s.id = loaded then if existed then [] else [s.id] else [loaded, s.id]
  | .finished r => if v.rotates then [r.loaded] else []
  | _ => []

/-- The session has another id than the one it was loaded under, once the handler is done. -/
def Rotated : Stage N → Prop
  | .destroying loaded s | .saving loaded _ s => s.id ≠ loaded
  | _ => True

omit [Number N] in
theorem fresh_subset_absent (v : Visit N) (st : Stage N) : st.fresh ⊆ st.absent v := by
  cases st with
  | loading | destroying => exact List.Subset.refl _
  | handling s existed => cases existed <;> exact List.Subset.refl _
  | finished => exact nil_subset _
  | saving loaded existed s =>
    unfold fresh absent
    by_cases hid : s.id = loaded <;> cases existed <;> simp [hid]

omit [Number N] in
theorem absent_subset_ids (v : Visit N) (st : Stage N) : st.absent v ⊆ st.ids := by
  cases st with
  | loading => exact List.Subset.refl _
  | handling s existed =>
    cases existed with
    | true => exact nil_subset _
    | false => exact List.Subset.refl _
  | destroying => exact subset_cons_self _ _
  | finished r =>
    show (if v.rotates then [r.loaded] else []) ⊆ [r.loaded]
    split
    · exact List.Subset.refl _
    · exact nil_subset _
  | saving loaded existed s =>
    unfold absent ids
    by_cases hid : s.id = loaded <;> cases existed <;> simp [hid]

end Stage

namespace SessionManager

variable (M : SessionManager)

def Drawn (d : Sessions N) (x : String) : Prop := ∃ m < d.drawn, M.drawn m = x

structure Sound (n : Nat) (d : Sessions N) : Prop where
  next : d.drawn = n
  records : ∀ x, d.records x ≠ none → M.Drawn d x

structure Kept (v : Visit N) (st : Stage N) (d : Sessions N) : Prop where
  drawn : ∀ x ∈ st.ids, M.Drawn d x
  absent : ∀ x ∈ st.absent v, d.records x = none
  rotated : v.rotates = true → st.Rotated
  destroys : v.outage .destroy = false

def Apart (st st' : Stage N) : Prop := (∀ x ∈ st.fresh, x ∉ st'.ids) ∧ ∀ x ∈ st'.fresh, x ∉ st.ids

/-- A request that found its session and kept its id writes the record only if it is still there. -/
def StillThere (_ : Visit N) : Point → Sessions N → Prop
  | .write true loaded id, d => id = loaded → d.records id ≠ none
  | _, _ => True

variable {M} {v v' : Visit N} {st st' t : Stage N} {l : Point} {n n' : Nat} {d d' : Sessions N}

variable {x loaded : String} {m : Nat} {s : Session N} {existed : Bool}

omit [Number N] in
theorem Drawn.draw (h : M.Drawn d x) (k : Nat) : M.Drawn (d.draw k) x := by
  obtain ⟨m, hm, hx⟩ := h
  exact ⟨m, Nat.lt_add_right k hm, hx⟩

omit [Number N] in
theorem Drawn.ne (h : M.Drawn d x) (hm : d.drawn ≤ m) : x ≠ M.drawn m := by
  obtain ⟨_, _, rfl⟩ := h
  intro heq
  exact absurd (M.distinct heq) (by omega)

theorem records_of_found (h : v.found M.lifetime d = some s) : d.records s.id ≠ none := by
  unfold Visit.found at h
  split at h
  · cases h
  · obtain ⟨id, -, hread⟩ := bind_eq_some_iff.mp h
    obtain ⟨_, hpayload, hlive⟩ := bind_eq_some_iff.mp hread
    dsimp only at hlive
    split at hlive
    · cases hlive
      show d.records id ≠ none
      rw [hpayload]
      exact some_ne_none _
    · cases hlive

theorem performed_id (M : SessionManager) (n : Nat) (s : Session N) :
    let s' := (v.remembered (M.perform n v.actions s)).ageFlash
    (v.rotates = false ∧ s'.id = s.id) ∨ ∃ m, n ≤ m ∧ m < n + v.actions.length ∧ s'.id = M.drawn m := by
  intro s'
  have hid : s'.id = (M.perform n v.actions s).id := Session.remembered_id _ v
  rw [hid]
  cases hrotates : v.rotates with
  | true => exact .inr (M.perform_rotates n v.actions s hrotates)
  | false => exact (M.perform_id n v.actions s).imp_left fun h => ⟨rfl, h⟩

omit [Number N] in
theorem leaving_cases (loaded : String) (existed : Bool) (s : Session N) :
    (s.id = loaded ∧ leaving loaded existed s = .finished { loaded, existed, cookie := none }) ∨
      (s.id ≠ loaded ∧ existed = true ∧ leaving loaded existed s = .destroying loaded s) ∨
      ((existed = true → s.id = loaded) ∧ leaving loaded existed s = .saving loaded existed s) := by
  unfold leaving
  split
  · rename_i hclean
    exact .inl ⟨of_decide_eq_true (Bool.and_eq_true_iff.mp hclean).2, rfl⟩
  · split
    · rename_i hrotated
      obtain ⟨hexisted, hne⟩ := Bool.and_eq_true_iff.mp hrotated
      exact .inr (.inl ⟨of_decide_eq_true hne, hexisted, rfl⟩)
    · rename_i hkept
      refine .inr (.inr ⟨fun hexisted => ?_, rfl⟩)
      simpa [hexisted] using hkept

omit [Number N] in
theorem ids_leaving (loaded : String) (existed : Bool) (s : Session N) :
    (leaving loaded existed s).ids ⊆ [loaded, s.id] := by
  obtain ⟨-, h⟩ | ⟨-, -, h⟩ | ⟨-, h⟩ := leaving_cases loaded existed s <;> rw [h]
  · exact cons_subset_cons loaded (nil_subset _)
  · exact List.Subset.refl _
  · exact List.Subset.refl _

omit [Number N] in
theorem mem_fresh_leaving
    (hx : x ∈ (leaving loaded existed s).fresh) : x = s.id ∧ (existed = true → s.id ≠ loaded) := by
  obtain ⟨-, h⟩ | ⟨hne, -, h⟩ | ⟨hkept, h⟩ := leaving_cases loaded existed s <;> rw [h] at hx
  · cases hx
  · exact ⟨mem_singleton.mp hx, fun _ => hne⟩
  · cases existed with
    | false => exact ⟨mem_singleton.mp hx, fun hexisted => by cases hexisted⟩
    | true => simp [Stage.fresh, hkept rfl] at hx

omit [Number N] in
theorem Sound.unwritten (h : M.Sound n d) (hm : n ≤ m) : d.records (M.drawn m) = none := by
  by_contra hrecord
  exact (h.records _ hrecord).ne (h.next ▸ hm) rfl

theorem Kept.handled (hsound : M.Sound n d) (h : M.Kept v (.handling s existed) d) :
    M.Kept v (leaving s.id existed (v.remembered (M.perform n v.actions s)).ageFlash) (d.draw v.actions.length) := by
  have hloaded : M.Drawn d s.id := h.drawn s.id mem_cons_self
  have hid := performed_id (v := v) M n s
  generalize (v.remembered (M.perform n v.actions s)).ageFlash = s' at hid ⊢
  -- an id that was drawn by the handler is another one, and has no record
  have hnew : s'.id ≠ s.id → d.records s'.id = none := by
    intro hne
    obtain ⟨-, hsame⟩ | ⟨m, hm, -, hdrawn⟩ := hid
    · exact absurd hsame hne
    · rw [hdrawn]
      exact hsound.unwritten hm
  have hrotates : v.rotates = true → s'.id ≠ s.id := by
    intro hrotates
    obtain ⟨hkept, -⟩ | ⟨m, hm, -, hdrawn⟩ := hid
    · rw [hrotates] at hkept
      cases hkept
    · rw [hdrawn]
      exact (hloaded.ne (hsound.next ▸ hm)).symm
  refine ⟨fun x hx => ?_, ?_, ?_, h.destroys⟩
  · have hx := ids_leaving _ _ _ hx
    obtain rfl | rfl : x = s.id ∨ x = s'.id := by simpa using hx
    · exact hloaded.draw _
    · obtain ⟨-, hsame⟩ | ⟨m, -, hm, hdrawn⟩ := hid
      · rw [hsame]
        exact hloaded.draw _
      · refine ⟨m, ?_, hdrawn.symm⟩
        show m < d.drawn + _
        rw [hsound.next]
        exact hm
  · show ∀ x ∈ _, d.records x = none
    obtain ⟨hsame, heq⟩ | ⟨hne, -, heq⟩ | ⟨hkept, heq⟩ := leaving_cases s.id existed s' <;> rw [heq]
    · -- the request has not rotated its id
      have hstays : ¬v.rotates = true := fun h => hrotates h hsame
      intro x hx
      rw [Stage.absent, if_neg hstays] at hx
      cases hx
    · intro x hx
      obtain rfl := mem_singleton.mp hx
      exact hnew hne
    · cases existed with
      | true =>
        intro x hx
        simp [Stage.absent, hkept rfl] at hx
      | false =>
        have hown := h.absent s.id mem_cons_self
        by_cases hsame : s'.id = s.id
        · simp [Stage.absent, hsame, hown]
        · simp [Stage.absent, hsame, hown, hnew hsame]
  · intro h
    obtain ⟨-, heq⟩ | ⟨-, -, heq⟩ | ⟨-, heq⟩ := leaving_cases s.id existed s' <;> rw [heq]
    · trivial
    · exact hrotates h
    · exact hrotates h

omit [Number N] in
theorem destroyed_none {loaded x : String} (h : x ≠ loaded → d.records x = none) :
    update d.records loaded none x = none := by
  by_cases hx : x = loaded
  · rw [hx, update_self]
  · rw [update_of_ne hx, h hx]

theorem Sound.move (hsound : M.Sound n d) (h : M.Kept v st d) (hmove : M.Moves v st l n d st' n' d') :
    M.Sound n' d' := by
  cases hmove with
  | found | undestroyed | unsaved => exact hsound
  | new | handled =>
    exact ⟨congrArg (· + _) hsound.next, fun x hx => (hsound.records x hx).draw _⟩
  | @destroyed loaded =>
    exact ⟨hsound.next, fun x hx => hsound.records x fun hnone => hx (destroyed_none fun _ => hnone)⟩
  | @saved loaded existed s =>
    refine ⟨hsound.next, fun x hx => ?_⟩
    by_cases hxs : x = s.id
    · rw [hxs]
      exact h.drawn s.id (mem_cons_of_mem _ mem_cons_self)
    · refine hsound.records x fun hnone => hx ?_
      show update d.records s.id _ x = none
      rw [update_of_ne hxs, hnone]

omit [Number N] in
theorem Kept.answered {cookie : Option String}
    (h : M.Kept v (.saving loaded existed s) d) (hdrawn : d'.drawn = d.drawn)
    (hrecords : ∀ x ≠ s.id, d'.records x = d.records x) : M.Kept v (.finished { loaded, existed, cookie }) d' := by
  refine ⟨fun x hx => ?_, fun x hx => ?_, fun _ => trivial, h.destroys⟩
  · obtain ⟨m, hm, hdraw⟩ := h.drawn x (cons_subset_cons loaded (nil_subset _) hx)
    exact ⟨m, hdrawn ▸ hm, hdraw⟩
  · by_cases hrotates : v.rotates = true
    · have hne : s.id ≠ loaded := h.rotated hrotates
      obtain rfl : x = loaded := by simpa [Stage.absent, hrotates] using hx
      have hgone := h.absent x (by simp [Stage.absent, hne])
      exact (hrecords x hne.symm).trans hgone
    · simp [Stage.absent, hrotates] at hx

theorem Kept.move (hsound : M.Sound n d) (h : M.Kept v st d) (hmove : M.Moves v st l n d st' n' d') :
    M.Kept v st' d' := by
  cases hmove with
  | @found _ _ s hfound =>
    refine ⟨fun x hx => ?_, nofun, fun _ => trivial, h.destroys⟩
    obtain rfl := mem_singleton.mp hx
    exact hsound.records _ (records_of_found hfound)
  | new =>
    refine ⟨fun x hx => ?_, fun x hx => ?_, fun _ => trivial, h.destroys⟩
    · obtain rfl := mem_singleton.mp hx
      exact ⟨n, hsound.next ▸ Nat.lt_succ_self _, rfl⟩
    · obtain rfl := mem_singleton.mp hx
      exact hsound.unwritten le_rfl
  | handled => exact h.handled hsound
  | @destroyed loaded s =>
    refine ⟨h.drawn, fun x hx => destroyed_none fun hxl => h.absent x ?_, h.rotated, h.destroys⟩
    by_cases hsame : s.id = loaded <;> simp_all [Stage.absent]
  | undestroyed hfails =>
    rw [h.destroys] at hfails
    cases hfails
  | saved => exact h.answered rfl fun x hx => update_of_ne hx ..
  | unsaved => exact h.answered rfl fun _ _ => rfl

theorem Kept.others (ht : M.Kept v' t d) (hapart : Apart st t) (hcond : StillThere v l d)
    (hmove : M.Moves v st l n d st' n' d') : M.Kept v' t d' := by
  cases hmove with
  | found | undestroyed | unsaved => exact ht
  | new | handled => exact ⟨fun x hx => (ht.drawn x hx).draw _, ht.absent, ht.rotated, ht.destroys⟩
  | @destroyed loaded =>
    exact ⟨ht.drawn, fun x hx => destroyed_none fun _ => ht.absent x hx, ht.rotated, ht.destroys⟩
  | @saved loaded existed s =>
    refine ⟨ht.drawn, fun x hx => ?_, ht.rotated, ht.destroys⟩
    have hne : x ≠ s.id := by
      rintro rfl
      by_cases hkept : existed = true ∧ s.id = loaded
      · -- the record is still there, so it is not among those that are gone
        obtain ⟨rfl, hsame⟩ := hkept
        exact hcond hsame (ht.absent s.id hx)
      · -- nobody else knows of the id
        refine hapart.1 s.id ?_ (t.absent_subset_ids v' hx)
        simp [Stage.fresh, hkept]
    show update d.records s.id _ x = none
    rw [update_of_ne hne, ht.absent x hx]

theorem Apart.move (hsound : M.Sound n d) (ht : M.Kept v' t d) (hapart : Apart st t)
    (hmove : M.Moves v st l n d st' n' d') : Apart st' t := by
  -- an id that is drawn now is not one the other request knows of
  have hnew : ∀ m, n ≤ m → M.drawn m ∉ t.ids := fun m hm hx =>
    (ht.drawn _ hx).ne (hsound.next ▸ hm) rfl
  have hfresh : t.fresh ⊆ t.ids := List.Subset.trans (t.fresh_subset_absent v') (t.absent_subset_ids v')
  cases hmove with
  | @found _ _ s hfound =>
    refine ⟨nofun, fun x hx hid => ?_⟩
    obtain rfl := mem_singleton.mp hid
    exact records_of_found hfound (ht.absent _ (t.fresh_subset_absent v' hx))
  | new =>
    refine ⟨fun x hx => ?_, fun x hx hid => ?_⟩
    · obtain rfl := mem_singleton.mp hx
      exact hnew n le_rfl
    · obtain rfl := mem_singleton.mp hid
      exact hnew n le_rfl (hfresh hx)
  | @handled s existed =>
    have hid := performed_id (v := v) M n s
    generalize (v.remembered (M.perform n v.actions s)).ageFlash = s' at hid ⊢
    refine ⟨fun x hx => ?_, fun x hx hmem => ?_⟩
    · obtain ⟨rfl, hrotated⟩ := mem_fresh_leaving hx
      obtain ⟨-, hsame⟩ | ⟨m, hm, -, hdrawn⟩ := hid
      · cases existed with
        | true => exact absurd hsame (hrotated rfl)
        | false =>
          rw [hsame]
          exact hapart.1 s.id mem_cons_self
      · rw [hdrawn]
        exact hnew m hm
    · obtain rfl | rfl : x = s.id ∨ x = s'.id := by simpa using ids_leaving _ _ _ hmem
      · exact hapart.2 _ hx mem_cons_self
      · obtain ⟨-, hsame⟩ | ⟨m, hm, -, hdrawn⟩ := hid
        · exact hapart.2 _ hx (hsame ▸ mem_cons_self)
        · exact hnew m hm (hdrawn ▸ hfresh hx)
  | @destroyed loaded s | @undestroyed loaded s =>
    refine ⟨fun x hx => hapart.1 x ?_, hapart.2⟩
    by_cases hsame : s.id = loaded <;> simp_all [Stage.fresh]
  | @saved loaded | @unsaved loaded =>
    refine ⟨nofun, fun x hx hid => hapart.2 x hx ?_⟩
    exact cons_subset_cons loaded (nil_subset _) hid

variable (M)

abbrev calm : System (Visit N) Point (Sessions N) (SessionWrite N) Reply :=
  M.system (fun v => v.outage .destroy = false) StillThere

def outline : Outline (M.staging (N := N) (fun v => v.outage .destroy = false) StillThere) where
  inv := M.Sound
  Holds := M.Kept
  Apart _ st _ t := Apart st t
  symm := And.symm
  start hallowed _ := ⟨⟨nofun, nofun, fun _ => trivial, hallowed⟩, fun _ _ => ⟨nofun, fun _ _ => not_mem_nil⟩⟩
  move hsound h _ hmove := ⟨hsound.move h hmove, h.move hsound hmove⟩
  others hsound _ ht hapart hcond hmove := ⟨ht.others hapart hcond hmove, Apart.move hsound ht hapart hmove⟩

omit [Number N] in
theorem sound_empty : M.Sound 0 ({} : Sessions N) := ⟨rfl, fun _ hx => absurd rfl hx⟩

/-- Once a request that logged in or out is answered, the id it was loaded under finds no session. -/
theorem old_id_gone {c c' : Config (Visit N) Point (Sessions N) (SessionWrite N) Reply}
    (hc : M.calm.Reachable {} c) {i : Nat} {v : Visit N} {r : Reply}
    (hcall : c.calls[i]? = some (v, .ret r)) (hrotates : v.rotates = true) (hrun : M.calm.Run c c') :
    c'.db.records r.loaded = none ∧
      ∀ v' : Visit N, v'.presented = some r.loaded → v'.found M.lifetime c'.db = none := by
  have hgone : c'.db.records r.loaded = none := by
    obtain ⟨_, hreach, rfl⟩ := (M.staging _ StillThere).of_reachable (hc.trans hrun)
    obtain ⟨_, hget, hst⟩ := (M.staging _ StillThere).of_call (hrun.returned hcall)
    obtain rfl := M.finished_of_rest hst
    have hkept := (M.outline.fits_of_reachable M.sound_empty hreach).holds hget
    refine hkept.absent r.loaded ?_
    rw [Stage.absent, if_pos hrotates]
    exact mem_cons_self
  refine ⟨hgone, fun v' hpresented => ?_⟩
  unfold Visit.found MemoryStore.read
  rw [hpresented, bind_some, hgone]
  exact ite_self _

/-! ## A visitor with two requests at a time -/

def signIn : Visit Double.Whole where
  presented := none
  actions := [.login "ann"]
  readAt := 0
  writeAt := 0

def shop : Visit Double.Whole where
  presented := some "xx"
  actions := [.put "cart" (.string "book")]
  readAt := 1
  writeAt := 1

def signOut : Visit Double.Whole where
  presented := some "xx"
  actions := [.logout]
  readAt := 1
  writeAt := 1

instance (v : Visit N) (l : Point) (d : Sessions N) : Decidable (StillThere v l d) :=
  match l with
  | .write true loaded id => inferInstanceAs (Decidable (id = loaded → d.records id ≠ none))
  | .write false _ _ | .read | .handler | .destroy => isTrue trivial

theorem old_id_gone_of_one_at_a_time : ∃ c, ∃ (i : Nat) (r : Reply), (unary.calm (N := Double.Whole)).Reachable {} c ∧
      c.calls[i]? = some (signOut, .ret r) ∧
      r.existed = true ∧ c.db.records r.loaded = none := by
  obtain ⟨_, c, _, hc0, hrun, hreturned, -, -⟩ := (unary.calm (N := Double.Whole)).play_phases
    (unary.calm (N := Double.Whole))
    [.call signIn, .advance 0, .advance 0, .advance 0, .call shop, .advance 1, .advance 1, .advance 1]
    [.advance 2, .advance 2, .advance 2, .advance 2] [] signOut {}
    { loaded := "xx", existed := true, cookie := some "xxxx" } (fun _ _ => ()) (v := ()) (by decide)
  have hc : (unary.calm (N := Double.Whole)).Reachable {} c := (hc0.tail (.call signOut rfl)).trans hrun
  exact ⟨c, _, _, hc, hreturned, rfl, (unary.old_id_gone hc hreturned rfl .refl).1⟩

/-- The cart is being filled while the visitor logs out; then the old cookie is logged in again. -/
theorem old_id_comes_back :
    let sys := unary.system (N := Double.Whole) (fun v => v.outage .destroy = false) fun _ _ _ => True
    ∃ c c', ∃ (i : Nat) (r : Reply), sys.Reachable {} c ∧
      c.calls[i]? = some (signOut, .ret r) ∧ sys.Run c c' ∧ r.loaded = "xx" ∧
        (shop.found unary.lifetime c'.db).bind Guard.userId = some "ann" := by
  intro sys
  obtain ⟨_, c, c', hc0, hrun, hreturned, hrun', huser⟩ := sys.play_phases sys
    [.call signIn, .advance 0, .advance 0, .advance 0, .call shop, .advance 1]
    [.advance 2, .advance 2, .advance 2, .advance 2] [.advance 1, .advance 1] signOut {}
    { loaded := "xx", existed := true, cookie := some "xxx" }
    (fun _ c' => (shop.found unary.lifetime c'.db).bind Guard.userId) (v := some "ann")
    (by decide)
  exact ⟨c, c', _, _, (hc0.tail (.call signOut rfl)).trans hrun, hreturned, hrun', rfl, huser⟩

end SessionManager

end Rustlavel.Auth
