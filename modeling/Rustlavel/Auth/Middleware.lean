/-
  The in-memory session store and the session middleware around a request.
-/

import Rustlavel.Auth.Guard
import Rustlavel.Lib.Transact
import Rustlavel.Lib.Words

namespace Rustlavel.Auth

open Transact Nat

variable {N : Type} [Number N]

/-! ## What a handler does with its session -/

inductive Action (N : Type) where
  | put (key : String) (value : Json N)
  | forget (key : String)
  | flush
  | flash (key : String) (value : Json N)
  | keep (key : String)
  | reflash
  | regenerate
  | invalidate
  | token
  | login (user : String)
  | logout
  | start (target : String)
  | stop

namespace Action

def apply (drawn : String) (s : Session N) : Action N → Session N
  | .put key value => s.put key value
  | .forget key => s.forget key
  | .flush => s.flush
  | .flash key value => s.flash key value
  | .keep key => s.keep key
  | .reflash => s.reflash
  | .regenerate => s.regenerate drawn
  | .invalidate => s.invalidate drawn
  | .token => s.token drawn
  | .login user => Guard.loginUsingId drawn user s
  | .logout => Guard.logout drawn s
  | .start target =>
    match Impersonation.start drawn target s with
    | .ok s' => s'
    | .error _ => s
  | .stop => (Impersonation.stop drawn s).1

def rotates : Action N → Bool
  | .regenerate | .invalidate | .login _ | .logout => true
  | _ => false

def changes : Action N → Bool
  | .put .. | .flush | .flash .. | .regenerate | .invalidate | .login _ | .logout => true
  | _ => false

end Action

/-! ## The store -/

structure Sessions (N : Type) where
  records : String → Option (Json N) := fun _ => none
  drawn : Nat := 0

inductive SessionWrite (N : Type) where
  | insert (id : String) (payload : Json N)
  | remove (id : String)
  | draw

namespace Sessions

variable (d : Sessions N)

def insert (id : String) (payload : Json N) : Sessions N :=
  { d with records := Function.update d.records id (some payload) }

def remove (id : String) : Sessions N := { d with records := Function.update d.records id none }

def draw (n : Nat) : Sessions N := { d with drawn := d.drawn + n }

instance : Store (Sessions N) (SessionWrite N) where
  apply
    | .insert id payload, d => d.insert id payload
    | .remove id, d => d.remove id
    | .draw, d => d.draw 1

end Sessions

/-- Whether a session written at `updatedAt` is still within its lifetime. -/
def isLive (lifetime now updatedAt : Nat) : Bool := decide (now - updatedAt < lifetime)

def MemoryStore.read (lifetime now : Nat) (d : Sessions N) (id : String) : Option (Session N) :=
  (d.records id).bind fun payload =>
    let session := Session.fromJson now id payload
    if isLive lifetime now session.updatedAt then some session else none

/-! ## The middleware -/

inductive StorePoint where
  | read
  | destroy
  | write

inductive Point where
  | read
  | handler
  | destroy
  | write (existed : Bool) (loaded id : String)

structure Visit (N : Type) where
  /-- The id in the cookie, if the signature is ours. -/
  presented : Option String
  actions : List (Action N)
  /-- The seconds at which the session is read and at which it is written. -/
  readAt : Nat
  writeAt : Nat
  isGet : Bool := false
  wantsJson : Bool := false
  target : String := "/"
  status : Nat := 200
  /-- The calls that the store answers with an error. -/
  outage : StorePoint → Bool := fun _ => false

/-- The id a session was loaded under, whether it was found, and the id in the response's cookie. -/
structure Reply where
  loaded : String
  existed : Bool
  cookie : Option String
  deriving DecidableEq

def previousUrlKey : String := "_previous"

namespace Visit

variable (v : Visit N)

def rotates : Bool := v.actions.any Action.rotates

def changes : Bool := v.actions.any Action.changes

def found (lifetime : Nat) (d : Sessions N) : Option (Session N) :=
  if v.outage .read then none else v.presented.bind (MemoryStore.read lifetime v.readAt d)

def remembered (s : Session N) : Session N :=
  if v.isGet && !v.wantsJson && decide (200 ≤ v.status ∧ v.status < 300) && s.dirty then
    s.put previousUrlKey (.string v.target)
  else s

def save (loaded : String) (existed : Bool) (s : Session N) : Prog Point (Sessions N) (SessionWrite N) Reply :=
  .step (.write existed loaded s.id) (.update (fun _ =>
      if v.outage .write then none else some (.insert s.id (s.touch v.writeAt).toJson))
      fun written => .ret (.commit written))
    fun written => .ret { loaded, existed, cookie := if written then some s.id else none }

def destroy (loaded : String) (s : Session N) : Prog Point (Sessions N) (SessionWrite N) Reply := .step .destroy
    (.update (fun _ => if v.outage .destroy then none else some (.remove loaded)) fun _ => .ret (.commit ()))
    fun _ => v.save loaded true s

def leave (loaded : String) (existed : Bool) (s : Session N) : Prog Point (Sessions N) (SessionWrite N) Reply :=
  if !s.dirty && decide (s.id = loaded) then .ret { loaded, existed, cookie := none }
  else if existed && decide (s.id ≠ loaded) then v.destroy loaded s
  else v.save loaded existed s

end Visit

/-- The middleware: how long sessions live, and its random values, which never come up twice. -/
structure SessionManager where
  lifetime : Nat
  drawn : Nat → String
  distinct : Function.Injective drawn

namespace SessionManager

def unary : SessionManager where
  lifetime := 7200
  drawn := Words.unary 'x'
  distinct := Words.unary_injective 'x'

variable (M : SessionManager)

def perform : Nat → List (Action N) → Session N → Session N
  | _, [], s => s
  | n, action :: actions, s => perform (n + 1) actions (action.apply (M.drawn n) s)

variable (v : Visit N)

def load : Tx (Sessions N) (SessionWrite N) (Verdict (Session N × Bool)) := .select fun d =>
    match v.found M.lifetime d with
    | some session => .ret (.commit (session, true))
    | none => .insert (fun _ _ => some .draw) fun n _ =>
      .ret (.commit (.withId v.readAt (M.drawn n), false))

def handler : List (Action N) → Session N → Tx (Sessions N) (SessionWrite N) (Verdict (Session N))
  | [], s => .ret (.commit s)
  | action :: actions, s => .insert (fun _ _ => some .draw) fun n _ =>
    handler actions (action.apply (M.drawn n) s)

def run (s : Session N) (existed : Bool) : Prog Point (Sessions N) (SessionWrite N) Reply :=
  .step .handler (M.handler v.actions s) fun s' =>
    v.leave s.id existed (v.remembered s').ageFlash

def handle : Prog Point (Sessions N) (SessionWrite N) Reply :=
  .step .read (M.load v) fun loaded => M.run v loaded.1 loaded.2

end SessionManager

/-! ## What a handler leaves -/

section

variable (drawn : String) (s : Session N) (a : Action N)

omit [Number N] in
theorem Session.keep_id (key : String) : (s.keep key).id = s.id := by
  unfold Session.keep
  split <;> rfl

omit [Number N] in
theorem Session.keep_dirty {key : String} (h : s.dirty = true) : (s.keep key).dirty = true := by
  unfold Session.keep
  split
  · rfl
  · exact h

theorem Session.token_id : (s.token drawn).id = s.id := by
  unfold Session.token
  split <;> rfl

theorem Session.token_dirty {drawn : String} (h : s.dirty = true) : (s.token drawn).dirty = true := by
  unfold Session.token
  split
  · exact h
  · rfl

theorem Action.apply_acting {t : Session N} (h : a.apply drawn s = t)
    (ha : a = .stop ∨ ∃ target, a = .start target) : t = s ∨ t.id = drawn ∧ t.dirty = true := by
  obtain rfl | ⟨target, rfl⟩ := ha
  · change (Impersonation.stop drawn s).1 = t at h
    unfold Impersonation.stop at h
    split at h
    · exact .inl h.symm
    · subst h
      exact .inr ⟨rfl, rfl⟩
  · change (match Impersonation.start drawn target s with
      | .ok s' => s'
      | .error _ => s) = t at h
    cases hstart : Impersonation.start drawn target s with
    | error =>
      rw [hstart] at h
      exact .inl h.symm
    | ok =>
      obtain ⟨_, -, -, -, rfl⟩ := start_ok drawn hstart
      rw [hstart] at h
      subst h
      exact .inr ⟨rfl, rfl⟩

theorem Action.apply_id : (a.apply drawn s).id = s.id ∨ (a.apply drawn s).id = drawn := by
  cases a with
  | put | forget | flush | flash | reflash => exact .inl rfl
  | keep key => exact .inl (s.keep_id key)
  | token => exact .inl (s.token_id drawn)
  | regenerate | invalidate | login | logout => exact .inr rfl
  | start target => exact (apply_acting drawn s _ rfl (.inr ⟨target, rfl⟩)).imp (congrArg Session.id) And.left
  | stop => exact (apply_acting drawn s _ rfl (.inl rfl)).imp (congrArg Session.id) And.left

theorem Action.apply_rotates (h : a.rotates = true) : (a.apply drawn s).id = drawn := by
  cases a with
  | regenerate | invalidate | login | logout => rfl
  | _ => cases h

theorem Action.apply_dirty (h : s.dirty = true) : (a.apply drawn s).dirty = true := by
  cases a with
  | put | flush | flash | regenerate | invalidate | login | logout => rfl
  | forget | reflash => exact Bool.or_eq_true_iff.mpr (.inl h)
  | keep => exact s.keep_dirty h
  | token => exact s.token_dirty h
  | start target =>
    refine (apply_acting drawn s _ rfl (.inr ⟨target, rfl⟩)).elim (fun heq => ?_) And.right
    rw [heq, h]
  | stop =>
    refine (apply_acting drawn s _ rfl (.inl rfl)).elim (fun heq => ?_) And.right
    rw [heq, h]

theorem Action.apply_changes (h : a.changes = true) : (a.apply drawn s).dirty = true := by
  cases a with
  | put | flush | flash | regenerate | invalidate | login | logout => rfl
  | _ => cases h

omit [Number N] in
theorem Session.remembered_id (v : Visit N) : (v.remembered s).ageFlash.id = s.id := by
  unfold Visit.remembered
  split <;> rfl

omit [Number N] in
theorem Session.remembered_dirty (v : Visit N) (h : s.dirty = true) : (v.remembered s).ageFlash.dirty = true := by
  refine Bool.or_eq_true_iff.mpr (.inl ?_)
  unfold Visit.remembered
  split
  · rfl
  · exact h

end

namespace SessionManager

variable (M : SessionManager)

variable (n : Nat) (actions : List (Action N)) (s : Session N)

theorem perform_id : (M.perform n actions s).id = s.id ∨
      ∃ m, n ≤ m ∧ m < n + actions.length ∧ (M.perform n actions s).id = M.drawn m := by
  induction actions generalizing n s with
  | nil => exact .inl rfl
  | cons a actions ih =>
    obtain hid | ⟨m, hle, hlt, hid⟩ := ih (n + 1) (a.apply (M.drawn n) s)
    · refine (a.apply_id (M.drawn n) s).imp hid.trans fun hdrawn => ?_
      exact ⟨n, le_rfl, Nat.lt_add_of_pos_right (Nat.succ_pos _), hid.trans hdrawn⟩
    · refine .inr ⟨m, by omega, ?_, hid⟩
      rw [List.length_cons]
      omega

theorem perform_rotates (h : actions.any Action.rotates = true) :
    ∃ m, n ≤ m ∧ m < n + actions.length ∧ (M.perform n actions s).id = M.drawn m := by
  induction actions generalizing n s with
  | nil => cases h
  | cons a actions ih =>
    rw [List.length_cons]
    obtain hid | ⟨m, hle, hlt, hid⟩ := M.perform_id (n + 1) actions (a.apply (M.drawn n) s)
    · -- no later action has drawn an id that stayed
      obtain ha | hrest := Bool.or_eq_true_iff.mp h
      · exact ⟨n, le_rfl, by omega, hid.trans (a.apply_rotates (M.drawn n) s ha)⟩
      · obtain ⟨m, _, _, hid⟩ := ih (n + 1) (a.apply (M.drawn n) s) hrest
        exact ⟨m, by omega, by omega, hid⟩
    · exact ⟨m, by omega, by omega, hid⟩

theorem perform_dirty (h : s.dirty = true) : (M.perform n actions s).dirty = true := by
  induction actions generalizing n s with
  | nil => exact h
  | cons a actions ih => exact ih (n + 1) _ (a.apply_dirty (M.drawn n) s h)

theorem perform_changes (h : actions.any Action.changes = true) : (M.perform n actions s).dirty = true := by
  induction actions generalizing n s with
  | nil => cases h
  | cons a actions ih =>
    obtain ha | hrest := Bool.or_eq_true_iff.mp h
    · exact M.perform_dirty (n + 1) actions _ (a.apply_changes (M.drawn n) s ha)
    · exact ih (n + 1) _ hrest

/-! ## The steps, run -/

variable (n : Nat) (d : Sessions N)

omit [Number N] in
theorem draw_draw (k m : Nat) : (d.draw k).draw m = d.draw (k + m) := by
  unfold Sessions.draw
  rw [add_assoc]

theorem run_handler (actions : List (Action N)) (s : Session N) : (M.handler actions s).run n d =
      (.commit (M.perform n actions s), n + actions.length, d.draw actions.length) := by
  induction actions generalizing n d s with
  | nil => rfl
  | cons a actions ih =>
    show (M.handler actions (a.apply (M.drawn n) s)).run (n + 1) (d.draw 1) = _
    rw [ih, draw_draw, List.length_cons, add_comm 1, add_assoc, add_comm 1]
    rfl

theorem run_load (v : Visit N) : (M.load v).run n d =
      match v.found M.lifetime d with
      | some session => (.commit (session, true), n, d)
      | none => (.commit (.withId v.readAt (M.drawn n), false), n + 1, d.draw 1) := by
  show Tx.run (match v.found M.lifetime d with
    | some session => _
    | none => _) n d = _
  cases v.found M.lifetime d <;> rfl

end SessionManager

end Rustlavel.Auth
