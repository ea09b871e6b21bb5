/-
  Logins with one passkey: `finish_authentication` and the sign counter.
-/

import Rustlavel.Lib.Threads

namespace Rustlavel.WebAuthn

inductive Ceremony where
  | registration
  | authentication
  deriving DecidableEq

structure Challenge where
  ceremony : Ceremony
  userHandle : Option (List UInt8)
  expiresAt : Nat
  deriving DecidableEq

def Challenge.accept (c : Challenge) (ceremony : Ceremony) (now : Nat) : Bool :=
  c.ceremony = ceremony ∧ ¬ c.expiresAt ≤ now

structure Credential where
  id : List UInt8
  userHandle : List UInt8
  signCount : Nat
  lastUsedAt : Option Nat
  deriving DecidableEq

structure AuthenticationResponse where
  id : List UInt8
  /-- The client data is well formed and of a login. -/
  clientData : Bool
  challenge : List UInt8
  origin : Bool
  /-- The authenticator data is well formed, for this server, and the user was there. -/
  authenticatorData : Bool
  userHandle : Option (List UInt8)
  signature : Bool
  signCount : Nat
  deriving DecidableEq

def checkSignCount (credential : Credential) (reported : Nat) : Bool :=
  ¬ (credential.signCount ≠ 0 ∧ reported ≤ credential.signCount)

def accepts (response : AuthenticationResponse) (credential : Credential) (challenge : Challenge) (now : Nat) : Bool :=
  challenge.accept .authentication now &&
  challenge.userHandle.all (· = credential.userHandle) &&
  response.origin && response.authenticatorData &&
  response.userHandle.all (· = credential.userHandle) &&
  response.signature && checkSignCount credential response.signCount

/-! ## Calls -/

structure Stores where
  credential : Credential
  challenges : List (List UInt8 × Challenge)

inductive Stage where
  | finds
  | takes (credential : Credential)
  | records (credential : Credential)
  | accepted
  | refused
  deriving DecidableEq

/-- A call of `finish_authentication`. -/
structure Call where
  response : AuthenticationResponse
  stage : Stage

def next (s : Stores) (call : Call) (now : Nat) : Option (Stores × Call) :=
  match call.stage with
  | .finds =>
    let found := s.credential.id = call.response.id ∧ call.response.clientData
    some (s, { call with stage := if found then .takes s.credential else .refused })
  | .takes credential =>
    let stage : Stage := match s.challenges.lookup call.response.challenge with
      | some challenge => if accepts call.response credential challenge now then .records credential else .refused
      | none => .refused
    some ({ s with challenges := s.challenges.filter fun x => x.1 ≠ call.response.challenge },
      { call with stage := stage })
  | .records _ =>
    some ({ s with credential := { s.credential with signCount := call.response.signCount, lastUsedAt := some now } },
      { call with stage := .accepted })
  | .accepted | .refused => none

def logins : Threads Stores Call Nat where
  starts call := call.stage = .finds
  next := next

def Unchanged (s : Stores) (call : Call) : Prop :=
  ∀ credential, call.stage = .records credential → s.credential.signCount = credential.signCount

instance (s : Stores) (call : Call) : Decidable (Unchanged s call) :=
  match h : call.stage with
  | .records credential =>
    if hcount : s.credential.signCount = credential.signCount then
      .isTrue fun _ heq => by rw [h] at heq; cases heq; exact hcount
    else .isFalse fun hall => hcount (hall credential h)
  | .finds | .takes _ | .accepted | .refused => .isTrue fun _ heq => by rw [h] at heq; cases heq

def apart : Threads Stores Call Nat where
  starts := logins.starts
  next s call now := if Unchanged s call then logins.next s call now else none

/-! ## The counter -/

open Threads Option List

variable {call call' : Call}

theorem next_cases {s s' : Stores} {now : Nat} (h : next s call now = some (s', call')) :
    call'.response = call.response ∧ call.stage ≠ .accepted ∧
      ((s'.credential = s.credential ∧ call'.stage ≠ .accepted ∧ ∀ credential, call'.stage = .records credential →
          checkSignCount credential call.response.signCount = true) ∨
        ∃ credential, call.stage = .records credential ∧ call'.stage = .accepted ∧
          s'.credential.signCount = call.response.signCount) := by
  obtain ⟨_, stage⟩ := call
  cases stage with
  | finds =>
    obtain ⟨rfl, rfl⟩ := by simpa only [next, some.injEq, Prod.mk.injEq] using h
    refine ⟨rfl, nofun, .inl ⟨rfl, ?_⟩⟩
    split <;> simp
  | takes =>
    obtain ⟨rfl, rfl⟩ := by simpa only [next, some.injEq, Prod.mk.injEq] using h
    refine ⟨rfl, nofun, .inl ⟨rfl, ?_⟩⟩
    split
    · split
      next haccepts => simp_all [accepts]
      next => simp
    · simp
  | records credential =>
    obtain ⟨rfl, rfl⟩ := by simpa only [next, some.injEq, Prod.mk.injEq] using h
    exact ⟨rfl, nofun, .inr ⟨credential, rfl, rfl, rfl⟩⟩
  | accepted | refused => cases h

/-- An accepted assertion that reported `n`. -/
def reporting (n : Nat) (call : Call) : Nat := if call.stage = .accepted ∧ call.response.signCount = n then 1 else 0

structure Counted (c : Config Stores Call) : Prop where
  ahead : ∀ n, c.shared.credential.signCount < n → c.total (reporting n) = 0
  once : ∀ n, n ≠ 0 → c.total (reporting n) ≤ 1
  checked : ∀ call ∈ c.threads, ∀ credential, call.stage = .records credential →
    checkSignCount credential call.response.signCount = true

theorem Counted.step {c : Config Stores Call} (h : Counted c) {i now : Nat} {s : Stores}
    (hcall : c.threads[i]? = some call) (hnext : apart.next c.shared call now = some (s, call')) :
    Counted { shared := s, threads := c.threads.set i call' } ∧
      c.shared.credential.signCount ≤ s.credential.signCount := by
  obtain ⟨hunchanged, hnext⟩ := ite_none_right_eq_some.mp hnext
  obtain ⟨hresponse, hopen, hcases⟩ := next_cases hnext
  have htotal := fun n => Config.total_step (reporting n) hcall s call'
  have hnone : ∀ n, reporting n call = 0 := fun n => if_neg fun hn => hopen hn.1
  rcases hcases with ⟨hcredential, hclosed, hrecords⟩ | ⟨credential, hstage, haccepted, hcount⟩
  · have hnone' : ∀ n, reporting n call' = 0 := fun n => if_neg fun hn => hclosed hn.1
    simp only [hnone, hnone', Nat.add_zero] at htotal
    refine ⟨⟨fun n hn => ?_, fun n hn => ?_, fun other hother credential hstage => ?_⟩, by rw [hcredential]⟩
    · rw [htotal]
      exact h.ahead n (hcredential ▸ hn)
    · rw [htotal]
      exact h.once n hn
    · rcases mem_or_eq_of_mem_set hother with hother | rfl
      · exact h.checked other hother credential hstage
      · rw [hresponse]
        exact hrecords credential hstage
  · -- the counter was not zero and is passed, or it was zero
    have hread := hunchanged credential hstage
    have hcheck := h.checked call (mem_of_getElem? hcall) credential hstage
    have hpassed : c.shared.credential.signCount = 0 ∨ c.shared.credential.signCount < call.response.signCount := by
      simp only [checkSignCount, decide_eq_true_eq] at hcheck
      omega
    have hone : ∀ n, reporting n call' = if call.response.signCount = n then 1 else 0 := by
      intro n
      simp [reporting, haccepted, hresponse]
    simp only [hnone, hone, Nat.add_zero] at htotal
    refine ⟨⟨fun n hn => ?_, fun n hn => ?_, fun other hother credential hstage => ?_⟩, ?_⟩
    · rw [htotal, h.ahead n (by simp only [hcount] at hn; omega), if_neg (by simp only [hcount] at hn; omega)]
    · rw [htotal]
      by_cases hreported : call.response.signCount = n
      · rw [h.ahead n (by omega), if_pos hreported]
      · rw [if_neg hreported]
        exact h.once n hn
    · rcases mem_or_eq_of_mem_set hother with hother | rfl
      · exact h.checked other hother credential hstage
      · simp [haccepted] at hstage
    · omega

theorem Counted.run {c c' : Config Stores Call} (h : Counted c) (hrun : apart.Run c c') :
    Counted c' ∧ c.shared.credential.signCount ≤ c'.shared.credential.signCount := by
  refine hrun.keeps (P := fun d => Counted d ∧ c.shared.credential.signCount ≤ d.shared.credential.signCount)
    ?_ ?_ ⟨h, Nat.le_refl _⟩
  · rintro d call ⟨hd, hle⟩ hstarts
    have hfinds := of_decide_eq_true hstarts
    have htotal : ∀ n, Config.total (reporting n) ⟨d.shared, d.threads ++ [call]⟩ = d.total (reporting n) := by
      intro n
      rw [Config.total_start, reporting, if_neg (by simp [hfinds])]
      rfl
    refine ⟨⟨fun n hn => ?_, fun n hn => ?_, fun other hother credential hstage => ?_⟩, hle⟩
    · rw [htotal]
      exact hd.ahead n hn
    · rw [htotal]
      exact hd.once n hn
    · rcases mem_append.mp hother with hother | hother
      · exact hd.checked other hother credential hstage
      · rw [mem_singleton.mp hother, hfinds] at hstage
        cases hstage
  · rintro d i call now s call' ⟨hd, hle⟩ hcall hnext
    obtain ⟨hd', hle'⟩ := hd.step hcall hnext
    exact ⟨hd', hle.trans hle'⟩

/-- If writes find the counter as it was read, it never decreases, and no two accepted assertions report the same
    counter, zero apart. -/
theorem sign_count_kept {s : Stores} {c c' : Config Stores Call} (hc : apart.Run { shared := s, threads := [] } c)
    (hrun : apart.Run c c') :
    c.shared.credential.signCount ≤ c'.shared.credential.signCount ∧
      ∀ (i j : Nat) (call other : Call), c'.threads[i]? = some call → c'.threads[j]? = some other → i ≠ j →
        call.stage = .accepted → other.stage = .accepted → call.response.signCount ≠ 0 →
        call.response.signCount ≠ other.response.signCount := by
  have hstart : Counted { shared := s, threads := [] } := ⟨fun _ _ => rfl, fun _ _ => Nat.zero_le 1, by simp⟩
  obtain ⟨hcounted, hle⟩ := (hstart.run hc).1.run hrun
  refine ⟨hle, fun i j call other hcall hother hij haccepted haccepted' hne heq => ?_⟩
  have htwo := Config.add_le_total (reporting call.response.signCount) hij hcall hother
  have honce := hcounted.once _ hne
  simp [reporting, haccepted, haccepted', heq] at htwo honce
  omega

def counted : Stores where
  credential := { id := [1], userHandle := [7], signCount := 5, lastUsedAt := none }
  challenges := [([10], ⟨.authentication, none, 100⟩), ([11], ⟨.authentication, none, 100⟩)]

def login (challenge : List UInt8) (signCount : Nat) : Event Call Nat :=
  .start ⟨⟨[1], true, challenge, true, true, none, true, signCount⟩, .finds⟩

theorem sign_count_kept_in_turn :
    ∃ c c', apart.play { shared := counted, threads := [] } [login [10] 6, .step 0 1, .step 0 1, .step 0 1] = some c ∧
      apart.play c [login [11] 7, .step 1 2, .step 1 2, .step 1 2] = some c' ∧
      c'.threads.map Call.stage = [.accepted, .accepted] ∧
      c.shared.credential.signCount ≤ c'.shared.credential.signCount :=
  ⟨_, _, rfl, rfl, rfl, (sign_count_kept
    (play_run (show apart.play ⟨counted, []⟩ [login [10] 6, .step 0 1, .step 0 1, .step 0 1] = _ from rfl))
    (play_run (show apart.play _ [login [11] 7, .step 1 2, .step 1 2, .step 1 2] = _ from rfl))).1⟩

/-- Two logins overlap: both report six and are accepted, and of seven and six the smaller is written last. -/
theorem clone_unnoticed : (∃ c, logins.play { shared := counted, threads := [] }
        [login [10] 6, login [11] 6, .step 0 1, .step 1 1, .step 0 1, .step 1 1, .step 0 1, .step 1 1] = some c ∧
      c.threads.map (fun call => (call.stage, call.response.signCount)) = [(.accepted, 6), (.accepted, 6)]) ∧
    ∃ c c', logins.play { shared := counted, threads := [] }
        [login [10] 7, login [11] 6, .step 0 1, .step 1 1, .step 0 1, .step 1 1, .step 0 1] = some c ∧
      logins.play c [.step 1 1] = some c' ∧
      c'.shared.credential.signCount < c.shared.credential.signCount :=
  ⟨⟨_, rfl, rfl⟩, _, _, rfl, rfl, by decide⟩

end Rustlavel.WebAuthn
