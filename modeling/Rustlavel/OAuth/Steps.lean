/-
  The stages of a request to the authorisation server and the moves between them, read off the endpoints.
-/

import Rustlavel.Lib.Stages
import Rustlavel.OAuth.Endpoints

namespace Rustlavel.OAuth

open Transact List World Tx ExceptT Request Prog

inductive Stage where
  | consuming (q : CodeRequest)
  | reading (q : CodeRequest) (claimed : Bool) (family : String) (seen : List String)
  | finding (client : Client) (presented : String)
  | rotating (client : Client) (record : RefreshToken) (seen : List String)
  | renewing (client : Client) (record : RefreshToken) (seen : List String)
  | storingAccess (g : Issue)
  | storingRefresh (g : Issue) (family : String) (n : Nat)
  | revokingAccess (family : String) (error : OAuthError)
  | revokingRefresh (family : String) (error : OAuthError)
  | checking (presented : String)
  | purgingCodes
  | purgingAccess (removed : Nat)
  | purgingRefresh (removed : Nat)
  | asking (a : Authorization) (user : String)
  | recording (a : Authorization) (user : String)
  | storingCode (a : Authorization) (user : String)
  | finished (r : Except Failure Reply)

def Quiet : Except Failure Reply → Prop
  | .error (.leaked ..) | .ok (.tokens ..) => False
  | _ => True

namespace Setting

variable (S : Setting) (x : Request) (q : CodeRequest)

/-! ## Stages -/

/-- The stage of `issue` for a code that may be redeemed. -/
def redeeming (code : AuthorizationCode) (family : String) (seen : List String) : Stage :=
  match S.redeem x q code family seen with
  | .error e => .finished (.error (.refused e))
  | .ok g => .storingAccess g

def exchangingCode (family : String) (seen : List String) : Consumption → Stage
  | .fresh code => S.redeeming x q code family seen
  | .replayed (some family) => .revokingAccess family replayedError
  | .replayed none => .finished (.error (.refused replayedError))
  | .expired => .finished (.error (.refused (.invalidGrant "this authorization code has expired")))
  | .unknown => .finished (.error (.refused (.invalidGrant "no such authorization code")))

variable (client : Client) (record : RefreshToken) (seen : List String)

def exchangingRefresh : Stage :=
  if record.clientId ≠ client.id then .revokingAccess record.family otherClientError
  else if record.rotated then .revokingAccess record.family reusedError
  else if record.revoked then
    .finished (.error (.refused (.invalidGrant "this refresh token has been revoked")))
  else if record.expiresAt ≤ x.now then
    .finished (.error (.refused (.invalidGrant "this refresh token has expired")))
  else .rotating client record seen

/-- The stage of `renew` once the old access token is revoked. -/
def renewed : Stage :=
  match narrowed (params x) record.scopes with
  | .error e => .finished (.error (.refused e))
  | .ok scopes => .storingAccess (renewal client record scopes seen)

/-- The stage of `issue` once the access token is stored. -/
def storedAccess (g : Issue) (n : Nat) : Stage :=
  if g.withRefresh then .storingRefresh g (S.familyOf g n) n
  else .finished (.ok (.tokens (S.tokenResponse g n none) (S.familyOf g n)))

def startConsent (params : Params) (user : Option String) (ask : Authorization → String → Stage) : Stage :=
  match validate (S.client x) params with
  | .error refusal => .finished (.error (.denied refusal))
  | .ok a =>
    match user with
    | none => .finished (.ok .signIn)
    | some user => ask a user

def start : Stage :=
  match x.call with
  | .showConsent params user => S.startConsent x params user fun a user =>
    if a.client.firstParty then .asking a user else .finished (.ok (.consentPage a))
  | .decideConsent params user => S.startConsent x params user fun a user =>
    if approved params then .recording a user
    else .finished (.error (.denied (.redirect a.redirectUri
      ((OAuthError.because .accessDenied "the user declined").withState a.state))))
  | .token basic params =>
    match S.tokenRequestOf x basic params with
    | .error e => .finished (.error (.refused e))
    | .ok (.code q) => .consuming q
    | .ok (.refresh client presented) => .finding client presented
    | .ok (.credentials client scopes) => .storingAccess
        { clientId := client.id, userId := none, scopes, family := none, withRefresh := false, seen := [] }
  | .validateBearer presented => .checking presented
  | .purge => .purgingCodes

def rest : Stage → Prog Point World Write (Except Failure Reply)
  | .consuming q => (S.authorizationCode x q).run
  | .reading q claimed family seen => (S.readCode x q claimed family seen).run
  | .finding client presented => (S.refreshToken x client presented).run
  | .rotating client record seen => (S.rotate x client record seen).run
  | .renewing client record seen => (S.renew x client record seen).run
  | .storingAccess g => (S.issue x g).run
  | .storingRefresh g family n => (S.storeRefresh x g family n).run
  | .revokingAccess family error => (revokeFamily x family error).run
  | .revokingRefresh family error => (revokeFamilyRefresh x family error).run
  | .checking presented => (S.bearer x presented).run
  | .purgingCodes => (S.purge x).run
  | .purgingAccess removed => (S.purgeAccess x removed).run
  | .purgingRefresh removed => (S.purgeRefresh x removed).run
  | .asking a user => (S.askConsent x a user).run
  | .recording a user => (S.recordConsent x a user).run
  | .storingCode a user => (S.issueCode x a user).run
  | .finished r => pure r

/-! ## Moves -/

inductive Moves : Stage → Point → Nat → World → Stage → Nat → World → Prop where
  | ended {s l n d r} (hr : Quiet r) : Moves s l n d (.finished r) n d
  | consumed {q n d code} (hmemory : S.codesIn = .memory)
      (hcode : d.findCode (S.keys.digest q.presented) = some code) (hunspent : code.family = none) :
      Moves (.consuming q) .consume n d
        (S.redeeming x q { code with family := some (S.keys.family n) } (S.keys.family n) d.closed)
        (n + 1) (d.claim code (S.keys.family n))
  | replayed {q n d code family} (hcode : d.findCode (S.keys.digest q.presented) = some code)
      (hfamily : code.family = some family) :
      Moves (.consuming q) .consume n d (.revokingAccess family replayedError) n d
  | claimed {q n d code} (hcode : d.unspentCode (S.keys.digest q.presented) = some code) :
      Moves (.consuming q) .claim n d (.reading q true (S.keys.family n) d.closed) (n + 1)
        (d.claim code (S.keys.family n))
  | unclaimed {q n d} : Moves (.consuming q) .claim n d (.reading q false (S.keys.family n) d.closed) (n + 1) d
  | read {q family seen n d row} (hrow : d.findCode (S.keys.digest q.presented) = some row) :
      Moves (.reading q true family seen) .readCode n d (S.redeeming x q (row.read .database) family seen) n d
  | readReplayed {q family seen n d row spentFor}
      (hrow : d.findCode (S.keys.digest q.presented) = some row) (hfamily : row.family = some spentFor) :
      Moves (.reading q false family seen) .readCode n d (.revokingAccess spentFor replayedError) n d
  | found {client presented n d record} (hrecord : d.findRefresh S.tokensIn (S.keys.digest presented) = some record)
      (hclient : record.clientId = client.id) (hrevoked : record.revoked = false) :
      Moves (.finding client presented) .findRefresh n d (.rotating client record d.closed) n d
  | foundLeaked {client presented n d record error}
      (hrecord : d.findRefresh S.tokensIn (S.keys.digest presented) = some record) :
      Moves (.finding client presented) .findRefresh n d (.revokingAccess record.family error) n d
  | rotated {client record seen n d} :
      Moves (.rotating client record seen) .rotate n d (.renewing client record seen) n (d.rotate record.id)
  | lost {client record seen n d} :
      Moves (.rotating client record seen) .rotate n d (.revokingAccess record.family lostError) n d
  | renewed {client record seen n d} :
      Moves (.renewing client record seen) .revokeAccess n d (Setting.renewed x client record seen) n
        (d.revokeAccess record.accessTokenId)
  | storedAccess {g n d} : Moves (.storingAccess g) (.storeAccess g.family g.seen) n d (S.storedAccess g n) (n + 1)
        (d.storeAccess (S.accessToken x g n))
  | storedRefresh {g family m n d} : Moves (.storingRefresh g family m) (.storeRefresh family g.seen) n d
        (.finished (.ok (.tokens (S.tokenResponse g m (some n)) family))) (n + 1)
        (d.storeRefresh (S.refreshTokenOf x g family m n))
  | revokedAccess {family error n d} :
      Moves (.revokingAccess family error) .revokeFamilyAccess n d (.revokingRefresh family error) n
        (d.revokeFamilyAccess family)
  | revokedRefresh {family error n d} : Moves (.revokingRefresh family error) .revokeFamilyRefresh n d
        (.finished (.error (.leaked error family))) n (d.revokeFamilyRefresh family)
  | notRevokedAccess {family error n d} (hfault : x.fault .revokeFamilyAccess = true) :
      Moves (.revokingAccess family error) .revokeFamilyAccess n d (.finished (.error (.leaked error family))) n d
  | notRevokedRefresh {family error n d} (hfault : x.fault .revokeFamilyRefresh = true) :
      Moves (.revokingRefresh family error) .revokeFamilyRefresh n d (.finished (.error (.leaked error family))) n d
  | purgedCodes {n d} (keep : AuthorizationCode → Bool) (removed : Nat) :
      Moves .purgingCodes .purgeCodes n d (.purgingAccess removed) n (d.purgeCodes keep)
  | purgedAccess {removed n d} (keep : Nat → Bool) (more : Nat) :
      Moves (.purgingAccess removed) .purgeAccess n d (.purgingRefresh more) n (d.purgeAccess keep)
  | purgedRefresh {removed n d} (keep : Nat → Bool) (more : Nat) :
      Moves (.purgingRefresh removed) .purgeRefresh n d (.finished (.ok (.purged more))) n (d.purgeRefresh keep)
  | asked {a user n d} : Moves (.asking a user) .findGrant n d (.storingCode a user) n d
  | recorded {a user n d} (grant : Grant) :
      Moves (.recording a user) .record n d (.storingCode a user) n (d.record grant)
  | notRecorded {a user n d} : Moves (.recording a user) .record n d (.storingCode a user) n d
  | storedCode {a user n d} : Moves (.storingCode a user) .storeCode n d
        (.finished (.ok (.redirect a.redirectUri (S.keys.plaintext n) a.state))) (n + 1)
        (d.storeCode (S.issuedCode x a user n))

abbrev Next (s : Stage) (l : Point) (n : Nat) (d : World)
    (q : Prog Point World Write (Except Failure Reply)) (n' : Nat) (d' : World) : Prop :=
  ∃ s', S.rest x s' = q ∧ S.Moves x s l n d s' n' d'

section

theorem rest_exchangingCode (family : String) (seen : List String) (c : Consumption) :
    S.rest x (S.exchangingCode x q family seen c) = (S.exchangeCode x q family seen c).run := by
  cases c with
  | fresh code =>
    show S.rest x (S.redeeming x q code family seen) = run (match S.redeem x q code family seen with
      | .error e => throw (.refused e)
      | .ok g => S.issue x g)
    unfold redeeming
    cases S.redeem x q code family seen <;> rfl
  | replayed family => cases family <;> rfl
  | expired | unknown => rfl

theorem rest_exchangingRefresh :
    S.rest x (exchangingRefresh x client record seen) = (S.exchangeRefresh x client record seen).run := by
  unfold exchangingRefresh exchangeRefresh
  split
  · rfl
  · split
    · rfl
    · split
      · rfl
      · split <;> rfl

theorem rest_renewed :
    S.rest x (renewed x client record seen) = run (match narrowed (params x) record.scopes with
      | .error e => throw (.refused e)
      | .ok scopes => S.issue x (renewal client record scopes seen)) := by
  unfold renewed
  cases narrowed (params x) record.scopes <;> rfl

theorem rest_storedAccess (g : Issue) (n : Nat) : S.rest x (S.storedAccess g n) = run (if g.withRefresh then
        S.storeRefresh x g (S.familyOf g n) n
      else return .tokens (S.tokenResponse g n none) (S.familyOf g n)) := by
  unfold storedAccess
  cases g.withRefresh <;> rfl

theorem startConsent_rule {P : Stage → Prop} {params : Params} {user : Option String}
    {ask : Authorization → String → Stage} (hquiet : ∀ r, Quiet r → P (.finished r))
    (hask : ∀ a u, validate (S.client x) params = .ok a → user = some u → P (ask a u)) :
    P (S.startConsent x params user ask) := by
  unfold startConsent
  split
  · exact hquiet _ trivial
  · rename_i a hvalidate
    cases user with
    | none => exact hquiet _ trivial
    | some u => exact hask a u hvalidate rfl

theorem rest_start : S.rest x (S.start x) = S.program x := by
  unfold start program
  cases x.call with
  | showConsent params user =>
    show S.rest x (S.startConsent x params user _) = (S.showConsent x params user).run
    unfold startConsent showConsent
    cases validate (S.client x) params with
    | error => rfl
    | ok =>
      cases user with
      | none => rfl
      | some =>
        dsimp only
        split <;> rfl
  | decideConsent params user =>
    show S.rest x (S.startConsent x params user _) = (S.decideConsent x params user).run
    unfold startConsent decideConsent
    cases validate (S.client x) params with
    | error => rfl
    | ok =>
      cases user with
      | none => rfl
      | some =>
        dsimp only
        split <;> rfl
  | token basic params =>
    show S.rest x (match S.tokenRequestOf x basic params with
      | .error e => _
      | .ok (.code q) => _
      | .ok (.refresh client presented) => _
      | .ok (.credentials client scopes) => _) = (S.exchange x basic params).run
    unfold exchange
    cases S.tokenRequestOf x basic params with
    | error => rfl
    | ok r => cases r <;> rfl
  | validateBearer | purge => rfl

variable {S x}

variable {s : Stage} {l : Point} {w : Write}

theorem goes_perform {α : Type} {failure : Failure} (hfailure : Quiet (.error failure))
    {body : ExceptT Failure (Tx World Write) α} {f : α → Op Reply}
    (h : ((statement l body).run >>= ExceptT.bindCont f).Goes (S.Next x s)) :
    ((x.perform l failure body) >>= f).run.Goes (S.Next x s) := by
  unfold perform
  split
  · exact Prog.Goes.throw fun n d => ⟨.finished (.error failure), rfl, .ended hfailure⟩
  · exact h

theorem goes_attempt {α : Type} {default : α} {body : ExceptT Failure (Tx World Write) α} {f : α → Op Reply}
    (hdefault : x.fault l = true → ∀ n d, S.Next x s l n d (f default).run n d)
    (h : ((statement l body).run >>= ExceptT.bindCont f).Goes (S.Next x s)) :
    ((x.attempt l default body) >>= f).run.Goes (S.Next x s) := by
  unfold attempt
  split
  · rename_i hfault
    refine Prog.Goes.statement (fun n d a n' d' hrun => ?_) fun n d e n' d' hrun => by cases hrun
    cases hrun
    exact hdefault hfault n d
  · exact h

theorem goes_write {f : Bool → Op Reply} (h : ∀ n d, S.Next x s l n d (f true).run n (Store.apply w d)) :
    ((statement l (tryUpdate fun _ => some w)).run >>= ExceptT.bindCont f).Goes (S.Next x s) :=
  Prog.Goes.update h

theorem goes_insert {w : Nat → Write} {f : Nat × Bool → Op Reply}
    (h : ∀ n d, S.Next x s l n d (f (n, true)).run (n + 1) (Store.apply (w n) d)) :
    ((statement l (tryInsert fun n _ => some (w n))).run >>= ExceptT.bindCont f).Goes (S.Next x s) := by
  refine Prog.Goes.tryInsert (fun n d y hy => ?_) fun n d hy => by cases hy
  cases hy
  exact h n d

theorem goes_purgeRows {count : World → Nat} {f : Nat → Op Reply}
    (h : ∀ n d, S.Next x s l n d (f (count d)).run n (Store.apply w d)) :
    ((statement l (purgeRows count w)).run >>= ExceptT.bindCont f).Goes (S.Next x s) := by
  refine Prog.Goes.statement (fun n d a n' d' hrun => ?_) fun n d e n' d' hrun => by cases hrun
  cases hrun
  exact h n d

variable (S x)

theorem run_consumeInMemory (hash : String) (n : Nat) (d : World) : ∃ c family n' d',
      run (S.consumeInMemory x hash).run n d = (.ok (c, family, d.closed), n', d') ∧
      ((∃ code, d.findCode hash = some code ∧ code.family = none ∧
          c = .fresh { code with family := some (S.keys.family n) } ∧ family = S.keys.family n ∧
          n' = n + 1 ∧ d' = d.claim code (S.keys.family n)) ∨
        (∃ code spentFor, d.findCode hash = some code ∧ code.family = some spentFor ∧
          c = .replayed (some spentFor) ∧ n' = n ∧ d' = d) ∨
        ((c = .expired ∨ c = .unknown) ∧ n' = n ∧ d' = d)) := by
  have hquery {α β : Type} (f : World → α) (g : α → ExceptT Failure (Tx World Write) β) :
      run (query f >>= g).run n d = run (g (f d)).run n d := rfl
  rw [consumeInMemory, hquery]
  cases hcode : d.findCode hash with
  | none => exact ⟨.unknown, _, _, _, rfl, .inr (.inr ⟨.inr rfl, rfl, rfl⟩)⟩
  | some code =>
    dsimp only
    split
    · rename_i hspent
      obtain ⟨family, hfamily⟩ := Option.isSome_iff_exists.mp hspent
      rw [hfamily]
      exact ⟨_, _, _, _, rfl, .inr (.inl ⟨code, family, rfl, hfamily, rfl, rfl, rfl⟩)⟩
    · rename_i hspent
      split
      · exact ⟨.expired, _, _, _, rfl, .inr (.inr ⟨.inl rfl, rfl, rfl⟩)⟩
      · exact ⟨_, _, _, _, rfl, .inl ⟨code, rfl, by simpa using hspent, rfl, rfl, rfl, rfl⟩⟩

theorem run_claimCode (hash : String) (n : Nat) (d : World) : run (S.claimCode hash).run n d =
      match d.unspentCode hash with
      | some code => (.ok (true, S.keys.family n, d.closed), n + 1, d.claim code (S.keys.family n))
      | none => (.ok (false, S.keys.family n, d.closed), n + 1, d) := by
  have hrun : run (S.claimCode hash).run n d =
      run (run ((tryInsert fun n d => (d.unspentCode hash).map (.claim · (S.keys.family n)))
        >>= fun drawn => (pure (drawn.2, S.keys.family drawn.1, d.closed) :
          ExceptT Failure (Tx World Write) (Bool × String × List String)))) n d := rfl
  rw [hrun, run_except_bind, run_tryInsert]
  cases d.unspentCode hash <;> rfl

theorem goes_consuming : (S.authorizationCode x q).run.Goes (S.Next x (.consuming q)) := by
  unfold authorizationCode
  cases hdriver : S.codesIn with
  | memory =>
    refine goes_perform (by trivial) (Prog.Goes.statement (fun n d a n' d' hrun => ?_) fun n d e n' d' hrun => ?_)
    · obtain ⟨c, family, n1, d1, hconsume, hc⟩ := S.run_consumeInMemory x (S.keys.digest q.presented) n d
      rw [hconsume] at hrun
      cases hrun
      refine ⟨_, S.rest_exchangingCode x q family d.closed c, ?_⟩
      obtain ⟨code, hcode, hunspent, rfl, rfl, rfl, rfl⟩ | ⟨code, spentFor, hcode, hfamily, rfl, rfl, rfl⟩ |
        ⟨rfl | rfl, rfl, rfl⟩ := hc
      · exact .consumed hdriver hcode hunspent
      · exact .replayed hcode hfamily
      · exact .ended trivial
      · exact .ended trivial
    · obtain ⟨c, family, n1, d1, hconsume, -⟩ := S.run_consumeInMemory x (S.keys.digest q.presented) n d
      rw [hconsume] at hrun
      cases hrun
  | database =>
    refine goes_perform (by trivial) (Prog.Goes.statement (fun n d a n' d' hrun => ?_) fun n d e n' d' hrun => ?_)
    · rw [run_claimCode] at hrun
      split at hrun
      · rename_i code hcode
        cases hrun
        exact ⟨.reading q true _ _, rfl, .claimed hcode⟩
      · cases hrun
        exact ⟨.reading q false _ _, rfl, .unclaimed⟩
    · rw [run_claimCode] at hrun
      split at hrun <;> cases hrun

theorem goes_reading (claimed : Bool) (family : String) (seen : List String) :
    (S.readCode x q claimed family seen).run.Goes (S.Next x (.reading q claimed family seen)) := by
  refine goes_perform (by trivial) (Prog.Goes.query fun n d => ?_)
  refine ⟨_, S.rest_exchangingCode x q family seen _, ?_⟩
  cases hrow : d.findCode (S.keys.digest q.presented) with
  | none => exact .ended trivial
  | some row =>
    cases claimed with
    | true =>
      show S.Moves x _ _ _ _ (S.exchangingCode x q family seen
        (if (row.read .database).expiresAt ≤ x.now then .expired else .fresh (row.read .database))) _ _
      split
      · exact .ended trivial
      · exact .read hrow
    | false =>
      show S.Moves x _ _ _ _ (S.exchangingCode x q family seen (.replayed (optional row.family))) _ _
      cases hfamily : optional row.family with
      | none => exact .ended trivial
      | some => exact .readReplayed hrow (of_optional hfamily)

theorem goes_finding (client : Client) (presented : String) :
    (S.refreshToken x client presented).run.Goes (S.Next x (.finding client presented)) := by
  refine goes_perform (by trivial) (Prog.Goes.query fun n d => ?_)
  cases hrecord : d.findRefresh S.tokensIn (S.keys.digest presented) with
  | none => exact ⟨.finished _, rfl, .ended trivial⟩
  | some record =>
    refine ⟨_, S.rest_exchangingRefresh x client record d.closed, ?_⟩
    unfold exchangingRefresh
    split
    · exact .foundLeaked hrecord
    · rename_i hclient
      split
      · exact .foundLeaked hrecord
      · split
        · exact .ended trivial
        · rename_i hrevoked
          split
          · exact .ended trivial
          · exact .found hrecord (not_not.mp hclient) (Bool.not_eq_true _ ▸ hrevoked)

theorem goes_rest (s : Stage) : (S.rest x s).Goes (S.Next x s) := by
  cases s with
  | consuming q => exact S.goes_consuming x q
  | reading q claimed family seen => exact S.goes_reading x q claimed family seen
  | finding client presented => exact S.goes_finding x client presented
  | rotating client record seen =>
    refine goes_perform (by trivial) (Prog.Goes.tryUpdate (fun n d y hy => ?_) fun n d hy => ?_)
    · split at hy <;> cases hy
      exact ⟨.renewing client record seen, rfl, .rotated⟩
    · exact ⟨.revokingAccess record.family lostError, rfl, .lost⟩
  | renewing client record seen =>
    exact goes_perform (by trivial) (goes_write fun n d => ⟨_, S.rest_renewed x client record seen, .renewed⟩)
  | storingAccess g =>
    exact goes_perform (by trivial) (goes_insert fun n d => ⟨_, S.rest_storedAccess x g n, .storedAccess⟩)
  | storingRefresh =>
    exact goes_perform (by trivial) (goes_insert fun n d => ⟨.finished _, rfl, .storedRefresh⟩)
  | revokingAccess family error =>
    refine goes_attempt (fun hfault n d => ?_) (goes_write fun n d => ?_)
    · exact ⟨.finished (.error (.leaked error family)), rfl, .notRevokedAccess hfault⟩
    · exact ⟨.revokingRefresh family error, rfl, .revokedAccess⟩
  | revokingRefresh family error =>
    refine goes_attempt (fun hfault n d => ?_) (goes_write fun n d => ?_)
    · exact ⟨.finished (.error (.leaked error family)), rfl, .notRevokedRefresh hfault⟩
    · exact ⟨.finished (.error (.leaked error family)), rfl, .revokedRefresh⟩
  | checking presented =>
    refine goes_perform (by trivial) (Prog.Goes.query fun n d => ?_)
    cases S.validateBearer d presented x.now with
    | error e => exact ⟨.finished (.error (.refused e)), rfl, .ended trivial⟩
    | ok token => exact ⟨.finished (.ok (.bearer token)), rfl, .ended trivial⟩
  | purgingCodes =>
    exact goes_perform (by trivial) (goes_purgeRows fun n d => ⟨.purgingAccess _, rfl, .purgedCodes _ _⟩)
  | purgingAccess =>
    exact goes_perform (by trivial) (goes_purgeRows fun n d => ⟨.purgingRefresh _, rfl, .purgedAccess _ _⟩)
  | purgingRefresh =>
    exact goes_perform (by trivial) (goes_purgeRows fun n d => ⟨.finished (.ok (.purged _)), rfl, .purgedRefresh _ _⟩)
  | asking a user =>
    refine goes_attempt (fun _ n d => ⟨.finished (.ok (.consentPage a)), rfl, .ended trivial⟩)
      (Prog.Goes.query fun n d => ?_)
    cases d.findGrant S.consentIn a.client.id user with
    | none => exact ⟨.finished (.ok (.consentPage a)), rfl, .ended trivial⟩
    | some grant =>
      show S.Next x _ _ n d (ExceptT.run (if grant.scopes.covers a.scopes then S.issueCode x a user
        else return .consentPage a)) n d
      split
      · exact ⟨.storingCode a user, rfl, .asked⟩
      · exact ⟨.finished (.ok (.consentPage a)), rfl, .ended trivial⟩
  | recording a user =>
    refine goes_attempt (fun _ n d => ⟨.storingCode a user, rfl, .notRecorded⟩) (goes_write fun n d => ?_)
    exact ⟨.storingCode a user, rfl, .recorded _⟩
  | storingCode =>
    exact goes_perform (by trivial) (goes_insert fun n d => ⟨.finished _, rfl, .storedCode⟩)
  | finished => trivial

theorem finished_of_rest {r : Except Failure Reply} (h : S.rest x s = .ret r) : s = .finished r := by
  have hnot : ∀ {α : Type} {l failure} {body : ExceptT Failure (Tx World Write) α} {f : α → Op Reply},
      ((x.perform l failure body) >>= f).run ≠ .ret r := by
    intro α l failure body f hret
    unfold perform at hret
    split at hret <;> cases hret
  have hnot' : ∀ {α : Type} {l} {default : α} {body : ExceptT Failure (Tx World Write) α} {f : α → Op Reply},
      ((x.attempt l default body) >>= f).run ≠ .ret r := by
    intro α l default body f hret
    unfold attempt at hret
    split at hret <;> cases hret
  cases s with
  | finished =>
    cases h
    rfl
  | consuming q =>
    have h' : (S.authorizationCode x q).run = .ret r := h
    unfold authorizationCode at h'
    cases hdriver : S.codesIn with
    | memory | database => rw [hdriver] at h'; exact absurd h' hnot
  | revokingAccess | revokingRefresh | asking | recording => exact absurd h hnot'
  | _ => exact absurd h hnot

end

/-! ## What a move does

  Each table and each part of the history, one by one: a record was there before, or
  the move is the one that makes it. -/

namespace Moves

def Spends (S : Setting) (s : Stage) (n : Nat) (d : World) (n' : Nat) (d' : World)
    (code : AuthorizationCode) : Prop :=
  ∃ q, s = .consuming q ∧ code ∈ d.codes ∧ code.hash = S.keys.digest q.presented ∧
    code.family = none ∧ n' = n + 1 ∧ d' = d.claim code (S.keys.family n)

variable {S : Setting} {x : Request} {s s' : Stage} {l : Point} {n n' : Nat} {d d' : World}
  (h : S.Moves x s l n d s' n' d')

include h

theorem next_le : n ≤ n' := by
  cases h with
  | consumed | claimed | unclaimed | storedAccess | storedRefresh | storedCode => exact Nat.le_succ n
  | _ => exact Nat.le_refl n

theorem access {t : AccessToken} (ht : t ∈ d'.access) : (∃ t0 ∈ d.access, t0.Later t) ∨
      ∃ g, s = .storingAccess g ∧ l = .storeAccess g.family g.seen ∧ t = S.accessToken x g n ∧ n' = n + 1 := by
  cases h with
  | renewed => exact .inl (mem_revokeAccess ht)
  | storedAccess =>
    rcases mem_append.mp ht with ht | ht
    · exact .inl ⟨t, ht, .refl t⟩
    · exact .inr ⟨_, rfl, rfl, mem_singleton.mp ht, rfl⟩
  | revokedAccess =>
    obtain ⟨t0, ht0, hlater, -⟩ := mem_revokeFamilyAccess ht
    exact .inl ⟨t0, ht0, hlater⟩
  | purgedAccess => exact .inl ⟨t, (mem_filter.mp ht).1, .refl t⟩
  | _ => exact .inl ⟨t, ht, .refl t⟩

theorem refresh {t : RefreshToken} (ht : t ∈ d'.refresh) :
    (∃ t0 ∈ d.refresh, t0.Later t) ∨ ∃ g family m, s = .storingRefresh g family m ∧ l = .storeRefresh family g.seen ∧
        t = S.refreshTokenOf x g family m n := by
  cases h with
  | rotated => exact .inl (mem_rotate ht)
  | storedRefresh =>
    rcases mem_append.mp ht with ht | ht
    · exact .inl ⟨t, ht, .refl t⟩
    · exact .inr ⟨_, _, _, rfl, rfl, mem_singleton.mp ht⟩
  | revokedRefresh =>
    obtain ⟨t0, ht0, hlater, -⟩ := mem_revokeFamilyRefresh ht
    exact .inl ⟨t0, ht0, hlater⟩
  | purgedRefresh => exact .inl ⟨t, (mem_filter.mp ht).1, .refl t⟩
  | _ => exact .inl ⟨t, ht, .refl t⟩

theorem spent : d'.spent = d.spent ∧ (∀ row ∈ d'.codes, row ∈ d.codes ∨
      ∃ a user, s = .storingCode a user ∧ row = S.issuedCode x a user n ∧ n' = n + 1) ∨
    ∃ code, Spends S s n d n' d' code := by
  cases h with
  | consumed _ hcode hunspent =>
    obtain ⟨hmem, hhash⟩ := mem_of_findCode hcode
    exact .inr ⟨_, _, rfl, hmem, hhash, hunspent, rfl, rfl⟩
  | claimed hcode =>
    obtain ⟨hmem, hhash, hunspent⟩ := mem_of_unspentCode hcode
    exact .inr ⟨_, _, rfl, hmem, hhash, hunspent, rfl, rfl⟩
  | purgedCodes => exact .inl ⟨rfl, fun row hrow => .inl (mem_filter.mp hrow).1⟩
  | storedCode =>
    refine .inl ⟨rfl, fun row hrow => ?_⟩
    rcases mem_append.mp hrow with hrow | hrow
    · exact .inl hrow
    · exact .inr ⟨_, _, rfl, mem_singleton.mp hrow, rfl⟩
  | _ => exact .inl ⟨rfl, fun row hrow => .inl hrow⟩

theorem issued : d'.issued = d.issued ∨ ∃ a user, s = .storingCode a user ∧ n' = n + 1 ∧
      d' = d.storeCode (S.issuedCode x a user n) := by
  cases h with
  | storedCode => exact .inr ⟨_, _, rfl, rfl, rfl⟩
  | _ => exact .inl rfl

theorem condemned : d'.condemned = d.condemned ∨
      ∃ family error, s = .revokingAccess family error ∧ d' = d.revokeFamilyAccess family := by
  cases h with
  | revokedAccess => exact .inr ⟨_, _, rfl, rfl⟩
  | _ => exact .inl rfl

theorem closed : d'.closed = d.closed ∨
      ∃ family error, s = .revokingRefresh family error ∧ d' = d.revokeFamilyRefresh family := by
  cases h with
  | revokedRefresh => exact .inr ⟨_, _, rfl, rfl⟩
  | _ => exact .inl rfl

theorem spent_subset : d.spent ⊆ d'.spent := by
  obtain ⟨heq, -⟩ | ⟨code, q, -, -, -, -, -, rfl⟩ := h.spent
  · exact heq ▸ List.Subset.refl _
  · exact subset_append_left ..

theorem condemned_subset : d.condemned ⊆ d'.condemned := by
  obtain heq | ⟨family, error, -, rfl⟩ := h.condemned
  · exact heq ▸ List.Subset.refl _
  · exact subset_append_left ..

theorem closed_subset : d.closed ⊆ d'.closed := by
  obtain heq | ⟨family, error, -, rfl⟩ := h.closed
  · exact heq ▸ List.Subset.refl _
  · exact subset_append_left ..

end Moves

end Setting

def staging (S : Setting) (allowed : Request → Prop) (cond : Request → Point → World → Prop) :
    Staging (system S allowed cond) Stage where
  prog := S.rest
  start := S.start
  Moves := S.Moves
  program_eq x := (S.rest_start x).symm
  goes := S.goes_rest

end Rustlavel.OAuth
