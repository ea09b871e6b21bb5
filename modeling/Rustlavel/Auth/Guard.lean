/-
  Who is logged in: the guard and impersonation, both on top of two keys of one session.
-/

import Rustlavel.Auth.Session
import Rustlavel.Lib.Machine

namespace Rustlavel.Auth

variable {N : Type} [Number N]

/-! ## The guard -/

namespace Guard

def identifierKey : String := "_auth_id"

def loginUsingId (newId id : String) (s : Session N) : Session N :=
  (s.regenerate newId).put identifierKey (.string id)

def logout (newId : String) (s : Session N) : Session N := s.invalidate newId

def userId (s : Session N) : Option String := s.getString identifierKey

end Guard

/-! ## Impersonation -/

namespace Impersonation

def impersonatorKey : String := "_impersonator"

def nobody : String := "nobody is logged in, so there is nobody to impersonate as"

def nested : String := "this session is already impersonating somebody; stop that first. " ++
    "Impersonation does not nest, so that the real operator is never in doubt."

def themselves : String := "a user cannot impersonate themselves"

/-- Begin acting as `target`. -/
def start (newId target : String) (s : Session N) : Except String (Session N) :=
  match s.getString Guard.identifierKey with
  | none => .error nobody
  | some real =>
    if s.has impersonatorKey then .error nested
    else if target = real then .error themselves
    else .ok (((s.regenerate newId).put impersonatorKey (.string real)).put Guard.identifierKey (.string target))

def stop (newId : String) (s : Session N) : Session N × Option String :=
  match s.getString impersonatorKey with
  | none => (s, none)
  | some real =>
    (((s.regenerate newId).forget impersonatorKey).put Guard.identifierKey (.string real),
      s.getString Guard.identifierKey)

def isImpersonating (s : Session N) : Bool := s.has impersonatorKey

def impersonator (s : Session N) : Option String := s.getString impersonatorKey

end Impersonation

/-! ## One session -/

inductive GuardCall where
  | login (user newId : String)
  | logout (newId : String)
  | start (target newId : String)
  | stop (newId : String)

def guarded (N : Type) [Number N] : Machine (Session N) GuardCall (Except String (Option String)) where
  step
    | s, .login user newId => (Guard.loginUsingId newId user s, .ok (some newId))
    | s, .logout newId => (Guard.logout newId s, .ok (some newId))
    | s, .start target newId =>
      match Impersonation.start newId target s with
      | .ok s' => (s', .ok none)
      | .error e => (s, .error e)
    | s, .stop newId =>
      let (s', was) := Impersonation.stop newId s
      (s', .ok was)

def latestLogin (calls : List GuardCall) : Option String := calls.foldl (fun latest call =>
    match call with
    | .login user _ => some user
    | _ => latest) none

def LogsInAsOneself (s : Session N) : GuardCall → Prop
  | .login _ _ => Impersonation.isImpersonating s = false
  | _ => True

/-! ### What the calls leave under the two keys -/

section

open Guard Impersonation Session

variable (s : Session N) (newId user : String)

omit [Number N] in
theorem get_loginUsingId_identifier : (loginUsingId newId user s).get identifierKey = some (.string user) := by
  unfold loginUsingId
  rw [get_put, if_pos rfl]

omit [Number N] in
theorem get_loginUsingId_impersonator : (loginUsingId newId user s).get impersonatorKey = s.get impersonatorKey := by
  unfold loginUsingId
  rw [get_put, if_neg (by decide), get_regenerate, if_neg (by decide)]

theorem start_ok {target : String} {s s' : Session N} (h : start newId target s = .ok s') :
    ∃ real, s.getString identifierKey = some real ∧ s.get impersonatorKey = none ∧ target ≠ real ∧
      s' = ((s.regenerate newId).put impersonatorKey (.string real)).put identifierKey (.string target) := by
  unfold start at h
  cases hreal : s.getString identifierKey with
  | none =>
    rw [hreal] at h
    cases h
  | some real =>
    rw [hreal] at h
    dsimp only at h
    split at h
    · cases h
    · rename_i hnested
      split at h
      · cases h
      · rename_i hother
        cases h
        exact ⟨real, rfl, by simpa [has] using hnested, hother, rfl⟩

theorem stop_recorded {real : String} (h : s.getString impersonatorKey = some real) :
    (stop newId s).1.get identifierKey = some (.string real) ∧ (stop newId s).1.get impersonatorKey = none := by
  unfold stop
  rw [h]
  constructor
  · rw [get_put, if_pos rfl]
  · rw [get_put, if_neg (by decide), get_forget, if_pos rfl]

theorem stop_unrecorded (h : s.getString impersonatorKey = none) : (stop newId s).1 = s := by
  unfold stop
  rw [h]

end

/-! ### Whole sequences of calls -/

theorem latestLogin_snoc (calls : List GuardCall) (call : GuardCall) : latestLogin (calls ++ [call]) =
      match call with
      | .login user _ => some user
      | _ => latestLogin calls := by
  unfold latestLogin
  rw [List.foldl_append]
  rfl

/-- User `a`, of the latest login, began to act as `b` and nobody has logged in since. -/
def ActsAs (s₀ : Session N) (calls : List GuardCall) (a b : String) : Prop :=
  ∃ pre newId post, calls = pre ++ .start b newId :: post ∧
    Guard.userId ((guarded N).after s₀ pre) = some a ∧ latestLogin pre = some a ∧
    ∀ user newId, .login user newId ∉ post

inductive Owned (s₀ : Session N) (calls : List GuardCall) (s : Session N) : Prop where
  | nobody (huser : s.get Guard.identifierKey = none) (hreal : s.get Impersonation.impersonatorKey = none)
  | oneself {a : String} (huser : s.get Guard.identifierKey = some (.string a))
      (hreal : s.get Impersonation.impersonatorKey = none) (hlatest : latestLogin calls = some a)
  | acting {a b : String} (huser : s.get Guard.identifierKey = some (.string b))
      (hreal : s.get Impersonation.impersonatorKey = some (.string a))
      (hlatest : latestLogin calls = some a) (hacts : ActsAs s₀ calls a b)

section

open Guard Impersonation

variable {s₀ s : Session N} {calls : List GuardCall} {call : GuardCall}

theorem ActsAs.snoc {a b : String} (h : ActsAs s₀ calls a b)
    (hcall : ∀ user newId, call ≠ .login user newId) : ActsAs s₀ (calls ++ [call]) a b := by
  obtain ⟨pre, newId, post, rfl, huser, hlatest, hpost⟩ := h
  refine ⟨pre, newId, post ++ [call], by simp, huser, hlatest, fun user id hmem => ?_⟩
  rcases List.mem_append.mp hmem with hmem | hmem
  · exact hpost user id hmem
  · exact hcall user id (List.mem_singleton.mp hmem).symm

theorem Owned.snoc (h : Owned s₀ calls s)
    (hcall : ∀ user newId, call ≠ .login user newId) : Owned s₀ (calls ++ [call]) s := by
  have hlatest : latestLogin (calls ++ [call]) = latestLogin calls := by
    rw [latestLogin_snoc]
    cases call with
    | login user newId => exact absurd rfl (hcall user newId)
    | _ => rfl
  cases h with
  | nobody huser hreal => exact .nobody huser hreal
  | oneself huser hreal h => exact .oneself huser hreal (hlatest.trans h)
  | acting huser hreal h hacts => exact .acting huser hreal (hlatest.trans h) (hacts.snoc hcall)

theorem Owned.step (h : Owned s₀ calls ((guarded N).after s₀ calls))
    (hguard : LogsInAsOneself ((guarded N).after s₀ calls) call) :
    Owned s₀ (calls ++ [call]) ((guarded N).step ((guarded N).after s₀ calls) call).1 := by
  generalize hs : (guarded N).after s₀ calls = s at h hguard ⊢
  cases call with
  | login user newId =>
    have hreal : s.get impersonatorKey = none := by
      simpa [LogsInAsOneself, isImpersonating, Session.has] using hguard
    refine .oneself (get_loginUsingId_identifier s newId user) ?_ (latestLogin_snoc _ _)
    exact (get_loginUsingId_impersonator s newId user).trans hreal
  | logout newId => exact .nobody (Session.get_invalidate s _ newId) (Session.get_invalidate s _ newId)
  | start target newId =>
    show Owned s₀ _ (match start newId target s with
      | .ok s' => (s', _)
      | .error e => (s, _)).1
    cases hstart : start newId target s with
    | error => exact h.snoc fun _ _ => GuardCall.noConfusion
    | ok =>
      obtain ⟨real, huser, hnone, -, rfl⟩ := start_ok newId hstart
      -- the one who starts is the user of the latest login
      have hlatest : latestLogin calls = some real := by
        cases h with
        | nobody hnobody =>
          rw [Session.getString_of_get_none s _ hnobody] at huser
          cases huser
        | oneself hown _ hlatest =>
          rw [Session.getString_of_get s _ hown] at huser
          cases huser
          exact hlatest
        | acting _ hreal =>
          rw [hnone] at hreal
          cases hreal
      refine .acting (a := real) (b := target) ?_ ?_ ((latestLogin_snoc _ _).trans hlatest) ?_
      · rw [Session.get_put, if_pos rfl]
      · rw [Session.get_put, if_neg (by decide), Session.get_put, if_pos rfl]
      · refine ⟨calls, newId, [], rfl, ?_, hlatest, fun _ _ => List.not_mem_nil⟩
        rw [hs]
        exact huser
  | stop newId =>
    show Owned s₀ _ (stop newId s).1
    cases h with
    | nobody huser hreal =>
      rw [stop_unrecorded s newId (Session.getString_of_get_none s _ hreal)]
      exact (Owned.nobody huser hreal).snoc fun _ _ => GuardCall.noConfusion
    | oneself huser hreal hlatest =>
      rw [stop_unrecorded s newId (Session.getString_of_get_none s _ hreal)]
      exact (Owned.oneself huser hreal hlatest).snoc fun _ _ => GuardCall.noConfusion
    | acting huser hreal hlatest =>
      obtain ⟨huser', hreal'⟩ := stop_recorded s newId (Session.getString_of_get s _ hreal)
      exact .oneself huser' hreal' ((latestLogin_snoc _ _).trans hlatest)

theorem Owned.latest_of_impersonator (h : Owned s₀ calls s) {real : String}
    (hreal : impersonator s = some real) : latestLogin calls = some real := by
  cases h with
  | nobody _ hnone | oneself _ hnone => cases (Session.getString_of_get_none s _ hnone).symm.trans hreal
  | acting _ hrecorded hlatest =>
    cases (Session.getString_of_get s _ hrecorded).symm.trans hreal
    exact hlatest

theorem Owned.exists_impersonator (h : Owned s₀ calls s) (himp : isImpersonating s = true) :
    ∃ real, s.getString impersonatorKey = some real := by
  unfold isImpersonating Session.has at himp
  cases h with
  | nobody _ hnone | oneself _ hnone =>
    rw [hnone] at himp
    cases himp
  | acting _ hrecorded => exact ⟨_, Session.getString_of_get s _ hrecorded⟩

/-- Unless somebody logs in during an impersonation, a recorded impersonator is the user of the latest login, and
    stopping restores that user. -/
theorem impersonator_logged_in (s₀ : Session N) (huser₀ : s₀.get identifierKey = none)
    (hreal₀ : s₀.get impersonatorKey = none) (calls : List GuardCall)
    (hguarded : (guarded N).Guarded LogsInAsOneself s₀ calls) :
    let s := (guarded N).after s₀ calls
    (∀ real, impersonator s = some real → latestLogin calls = some real) ∧
      (isImpersonating s = true → ∀ newId, userId (stop newId s).1 = latestLogin calls ∧
        isImpersonating (stop newId s).1 = false) ∧
      ∀ a b, latestLogin calls = some a → userId s = some b → b = a ∨ ActsAs s₀ calls a b := by
  intro s
  have howned := hguarded.history (.nobody huser₀ hreal₀) Owned.step
  refine ⟨fun real hreal => howned.latest_of_impersonator hreal, fun himp newId => ?_, ?_⟩
  · obtain ⟨_, hreal⟩ := howned.exists_impersonator himp
    obtain ⟨huser', hreal'⟩ := stop_recorded s newId hreal
    refine ⟨(Session.getString_of_get _ _ huser').trans (howned.latest_of_impersonator hreal).symm, ?_⟩
    simp [isImpersonating, Session.has, hreal']
  · intro a b hlatest huser
    cases howned with
    | nobody hnobody => cases (Session.getString_of_get_none s _ hnobody).symm.trans huser
    | oneself hown _ h =>
      cases (Session.getString_of_get s _ hown).symm.trans huser
      cases h.symm.trans hlatest
      exact .inl rfl
    | acting hown _ h hacts =>
      cases (Session.getString_of_get s _ hown).symm.trans huser
      cases h.symm.trans hlatest
      exact .inr hacts

end

/-! ### A login in the middle of an impersonation -/

def blank : Session Double.Whole := .withId 0 "s"

theorem impersonator_logged_in_of_stop : Guard.userId ((guarded Double.Whole).after blank
      [.login "admin" "s1", .start "bob" "s2", .stop "s3"]) = some "admin" := by
  have hguarded : (guarded Double.Whole).Guarded LogsInAsOneself blank
      [.login "admin" "s1", .start "bob" "s2"] := ⟨rfl, trivial, trivial⟩
  obtain ⟨-, hstop, -⟩ := impersonator_logged_in blank rfl rfl _ hguarded
  exact (hstop (by decide) "s3").1

/-- While the administrator acts as a user somebody else logs in; stopping makes the session the administrator's. -/
theorem impersonator_outlives_login :
    let calls := [.login "admin" "s1", .start "bob" "s2", .login "carol" "s3"]
    latestLogin calls = some "carol" ∧
      Impersonation.impersonator ((guarded Double.Whole).after blank calls) = some "admin" ∧
      Guard.userId ((guarded Double.Whole).after blank calls) = some "carol" ∧
      Guard.userId ((guarded Double.Whole).after blank (calls ++ [.stop "s4"])) = some "admin" := by
  decide

end Rustlavel.Auth
