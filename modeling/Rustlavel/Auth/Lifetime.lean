/-
  How long a session lasts for a visitor who comes again and again, one request after
  the other, with the cookie they were last given.
-/

import Rustlavel.Auth.Middleware

namespace Rustlavel.Auth

open Transact

variable {N : Type} [Number N]

namespace SessionManager

variable (M : SessionManager)

/-! ## One request with nobody else about -/

def left (n : Nat) (v : Visit N) (s : Session N) : Session N := (v.remembered (M.perform n v.actions s)).ageFlash

section

variable {v : Visit N} (loaded : String) (existed : Bool) (s : Session N) (n : Nat) (d : Sessions N)

theorem alone_save (hwrite : v.outage .write = false) : (v.save loaded existed s).alone n d =
      ({ loaded, existed, cookie := some s.id }, n, d.insert s.id (s.touch v.writeAt).toJson) := by
  unfold Visit.save Prog.alone
  simp only [Tx.run, hwrite]
  rfl

theorem alone_destroy (hdestroy : v.outage .destroy = false) :
    (v.destroy loaded s).alone n d = (v.save loaded true s).alone n (d.remove loaded) := by
  unfold Visit.destroy
  simp only [hdestroy]
  rfl

theorem alone_leave (hdestroy : v.outage .destroy = false) (hwrite : v.outage .write = false) :
    (s.dirty = false ∧ s.id = loaded ∧
        (v.leave loaded existed s).alone n d = ({ loaded, existed, cookie := none }, n, d)) ∨
      ∃ d', d'.records s.id = some (s.touch v.writeAt).toJson ∧
        (v.leave loaded existed s).alone n d = ({ loaded, existed, cookie := some s.id }, n, d') := by
  unfold Visit.leave
  split
  · rename_i hclean
    obtain ⟨hdirty, hid⟩ := Bool.and_eq_true_iff.mp hclean
    exact .inl ⟨by simpa using hdirty, of_decide_eq_true hid, rfl⟩
  · refine .inr ?_
    split
    · rename_i hrotated
      obtain ⟨rfl, -⟩ := Bool.and_eq_true_iff.mp hrotated
      refine ⟨(d.remove loaded).insert s.id (s.touch v.writeAt).toJson, Function.update_self .., ?_⟩
      rw [alone_destroy loaded s n d hdestroy, alone_save loaded true s n _ hwrite]
    · exact ⟨_, Function.update_self .., alone_save loaded existed s n d hwrite⟩

end

theorem alone_found {v : Visit N} {n : Nat} {d : Sessions N} {s : Session N} (h : v.found M.lifetime d = some s) :
    (M.handle v).alone n d =
      (v.leave s.id true (M.left n v s)).alone (n + v.actions.length) (d.draw v.actions.length) := by
  have hload : settle d ((M.load v).run n d) = ((s, true), n, d) := by
    rw [M.run_load, h]
    rfl
  have hhandler : settle d ((M.handler v.actions s).run n d) =
      (M.perform n v.actions s, n + v.actions.length, d.draw v.actions.length) := by
    rw [M.run_handler]
    rfl
  unfold handle
  rw [Prog.alone, hload]
  unfold run
  rw [Prog.alone, hhandler]
  rfl

/-! ## A visitor -/

/-- A visitor that sends the cookie it was last given: the next random value, the store, and that cookie. -/
def visitor : Machine (Nat × Sessions N × Option String) (Visit N) Bool where
  step
    | (n, d, cookie), v =>
      let (reply, n', d') := (M.handle { v with presented := cookie }).alone n d
      ((n', d', reply.cookie.or cookie), reply.existed)

/-- Requests one after the other, the last change having been written at `last`. -/
def Active (lifetime : Nat) : Nat → List (Visit N) → Prop
  | _, [] => True
  | last, v :: vs =>
    last ≤ v.readAt ∧ v.readAt < last + lifetime ∧ v.readAt ≤ v.writeAt ∧ v.writeAt < 2 ^ 53 ∧
      (∀ p, v.outage p = false) ∧
      Active lifetime (if v.changes then v.writeAt else last) vs

/-- A session that was written no earlier than `last` is stored under the visitor's cookie. -/
def Present (last : Nat) (state : Nat × Sessions N × Option String) : Prop :=
  ∃ (s : Session N) (t : Nat), state.2.2 = some s.id ∧
    state.2.1.records s.id = some (s.touch t).toJson ∧ last ≤ t ∧ t < 2 ^ 53

theorem read_toJson {lifetime now t : Nat} {d : Sessions N} {s : Session N}
    (h : d.records s.id = some (s.touch t).toJson) (ht : t < 2 ^ 53) (hlive : now - t < lifetime) :
    MemoryStore.read lifetime now d s.id = some { s with freshFlash := [], updatedAt := t, dirty := false } := by
  have hstamp : min (Double.roundNat t) (2 ^ 64 - 1) = t := by
    rw [Double.roundNat_of_lt ht]
    omega
  have hback : Session.fromJson now s.id (s.touch t).toJson =
      { s with freshFlash := [], updatedAt := t, dirty := false } := by
    refine (Session.fromJson_toJson now (s.touch t)).trans ?_
    show ({ s with freshFlash := [], updatedAt := min (Double.roundNat t) (2 ^ 64 - 1), dirty := false } :
      Session N) = _
    rw [hstamp]
  unfold MemoryStore.read
  rw [h, Option.bind_some, hback]
  exact if_pos (decide_eq_true hlive)

theorem Present.step {last : Nat} {state : Nat × Sessions N × Option String} {v : Visit N}
    {vs : List (Visit N)} (h : Present last state) (hactive : Active M.lifetime last (v :: vs)) :
    (M.visitor.step state v).2 = true ∧
      Present (if v.changes then v.writeAt else last) (M.visitor.step state v).1 := by
  obtain ⟨n, d, cookie⟩ := state
  obtain ⟨s, t, hcookie, hstored, hlast, ht⟩ := h
  obtain ⟨_, _, _, hclock, hup, -⟩ := hactive
  obtain rfl : cookie = some s.id := hcookie
  have hfound : ({ v with presented := some s.id } : Visit N).found M.lifetime d =
      some { s with freshFlash := [], updatedAt := t, dirty := false } := by
    unfold Visit.found
    rw [if_neg (by rw [hup]; exact Bool.false_ne_true)]
    exact read_toJson hstored ht (show v.readAt - t < M.lifetime by omega)
  have halone := M.alone_found (n := n) hfound
  -- what always changes a session has changed it
  have hdirty : v.changes = true → (M.left n { v with presented := some s.id }
      { s with freshFlash := [], updatedAt := t, dirty := false }).dirty = true := fun hchanges =>
    Session.remembered_dirty _ _ (M.perform_changes n v.actions _ hchanges)
  generalize M.left n { v with presented := some s.id } _ = s' at halone hdirty
  show ((M.handle { v with presented := some s.id }).alone n d).1.existed = true ∧
    Present _ (((M.handle { v with presented := some s.id }).alone n d).2.1,
      ((M.handle { v with presented := some s.id }).alone n d).2.2,
      ((M.handle { v with presented := some s.id }).alone n d).1.cookie.or (some s.id))
  rw [halone]
  obtain ⟨hclean, -, hleave⟩ | ⟨d', hwritten, hleave⟩ := alone_leave (v := { v with presented := some s.id })
    s.id true s' (n + v.actions.length) (d.draw v.actions.length) (hup _) (hup _)
  · rw [hleave]
    have hsame : ¬v.changes = true := by
      intro hchanges
      rw [hdirty hchanges] at hclean
      cases hclean
    rw [if_neg hsame]
    exact ⟨rfl, s, t, rfl, hstored, hlast, ht⟩
  · rw [hleave]
    refine ⟨rfl, s', v.writeAt, rfl, hwritten, ?_, hclock⟩
    split
    · exact le_rfl
    · omega

/-- A visitor stays as long as requests that change the session come less than a lifetime apart. -/
theorem active_visitor_stays (s : Session N) (t₀ : Nat) (ht₀ : t₀ < 2 ^ 53) (n : Nat) (d : Sessions N)
    (hstored : d.records s.id = some (s.touch t₀).toJson) (vs : List (Visit N)) (hactive : Active M.lifetime t₀ vs) :
    ∀ found ∈ M.visitor.outputs (n, d, some s.id) vs, found = true := by
  have hpresent : Present t₀ (n, d, some s.id) := ⟨s, t₀, rfl, hstored, le_rfl, ht₀⟩
  generalize (n, d, some s.id) = state at hpresent
  -- every request leaves the session as fresh as the next one needs it
  clear ht₀ hstored
  induction vs generalizing t₀ state with
  | nil => exact nofun
  | cons v vs ih =>
    obtain ⟨hfound, hnext⟩ := hpresent.step M hactive
    intro found hmem
    rcases List.mem_cons.mp hmem with rfl | hmem
    · exact hfound
    · exact ih _ hactive.2.2.2.2.2 _ hnext found hmem

def stored : Session Double.Whole := .withId 0 "s"

def onlyStored : Sessions Double.Whole := Sessions.insert {} "s" (stored.touch 0).toJson

def lookAt (second : Nat) (actions : List (Action Double.Whole)) : Visit Double.Whole where
  presented := none
  actions := actions
  readAt := second
  writeAt := second
  isGet := true

theorem active_visitor_stays_of_change : (unary.visitor.outputs (0, onlyStored, some "s")
      [lookAt 4000 [.put "cart" (.string "book")], lookAt 8000 []]).all id = true := by
  refine List.all_eq_true.mpr (unary.active_visitor_stays stored 0 (by decide) 0 onlyStored rfl _ ?_)
  refine ⟨?_, ?_, ?_, ?_, fun _ => rfl, ?_, ?_, ?_, ?_, fun _ => rfl, trivial⟩ <;> decide

/-- Requests 4000 seconds apart that change nothing: the second one finds no session. -/
theorem idle_visitor_expires : unary.visitor.outputs (0, onlyStored, some "s") [lookAt 4000 [], lookAt 8000 []] =
      [true, false] := by
  decide

end SessionManager

end Rustlavel.Auth
