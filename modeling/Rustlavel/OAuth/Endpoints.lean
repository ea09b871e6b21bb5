/-
  The endpoints of the authorisation server as calls on its stores: `/authorize` in both halves, `/token` with
  its three grants, the check of a bearer token and the purge.
-/

import Rustlavel.OAuth.Stores

namespace Rustlavel.OAuth

open Transact Tx

structure Setting where
  keys : Secrets
  clients : Registry
  codesIn : Driver
  tokensIn : Driver
  consentIn : Driver
  codeTtl : Nat := 60
  codeRetention : Nat := 600
  accessTtl : Nat := 3600
  refreshTtl : Nat := 30 * 24 * 3600

def Secrets.plaintext (keys : Secrets) (n : Nat) : String := keys.generate (2 * n)

def Secrets.family (keys : Secrets) (n : Nat) : String := keys.generate (2 * n + 1)

theorem Secrets.family_inj {keys : Secrets} {m n : Nat} (h : keys.family m = keys.family n) : m = n := by
  have hdraw := keys.distinct (congrArg keys.digest h)
  omega

theorem Secrets.digest_inj {keys : Secrets} {m n : Nat}
    (h : keys.digest (keys.plaintext m) = keys.digest (keys.plaintext n)) : m = n := by
  have hdraw : 2 * m = 2 * n := keys.distinct h
  omega

/-! ## Requests and answers -/

inductive Point where
  | consume
  | claim
  | readCode
  | findRefresh
  | rotate
  | revokeAccess
  | storeAccess (family : Option String) (seen : List String)
  | storeRefresh (family : String) (seen : List String)
  | revokeFamilyAccess
  | revokeFamilyRefresh
  | findAccess
  | purgeCodes
  | purgeAccess
  | purgeRefresh
  | findGrant
  | record
  | storeCode

inductive Call where
  | showConsent (params : Params) (user : Option String)
  | decideConsent (params : Params) (user : Option String)
  | token (basic : Option Basic) (params : Params)
  | validateBearer (presented : String)
  | purge

structure Request where
  call : Call
  now : Nat
  /-- The clock when something is issued, at the end of the request. -/
  issuedAt : Nat := now
  fault : Point → Bool := fun _ => false
  /-- The client store fails. -/
  clientFault : Bool := false

inductive Failure where
  | refused (error : OAuthError)
  | leaked (error : OAuthError) (family : String)
  | denied (refusal : Refusal)
  | store

structure TokenResponse where
  accessToken : String
  tokenType : String := "Bearer"
  expiresIn : Nat
  scope : Scopes
  refreshToken : Option String

inductive Reply where
  | tokens (response : TokenResponse) (family : String)
  | bearer (token : AccessToken)
  | redirect (uri code : String) (state : Option String)
  | consentPage (authorization : Authorization)
  | signIn
  | purged (removed : Nat)

abbrev Op (α : Type) := ExceptT Failure (Prog Point World Write) α

def Request.perform {α : Type} (x : Request) (l : Point) (failure : Failure)
    (body : ExceptT Failure (Tx World Write) α) : Op α :=
  if x.fault l then Prog.statement l (throw failure) else Prog.statement l body

/-- An access to a store; if the store fails, the request goes on with `default`. -/
def Request.attempt {α : Type} (x : Request) (l : Point) (default : α)
    (body : ExceptT Failure (Tx World Write) α) : Op α :=
  if x.fault l then Prog.statement l (pure default) else Prog.statement l body

/-! ## Issuing -/

/-- What is issued, and into which family; a family that is not given is drawn with the access token. -/
structure Issue where
  clientId : String
  userId : Option String
  scopes : Scopes
  family : Option String
  withRefresh : Bool
  seen : List String

def storeFailed : Failure := .refused (.serverError "the token could not be issued")

namespace Setting

variable (S : Setting) (x : Request)

def client (id : String) : Option Client := if x.clientFault then none else S.clients.find id

variable (g : Issue)

def familyOf (n : Nat) : String := g.family.getD (S.keys.family n)

def accessToken (n : Nat) : AccessToken where
  id := S.keys.identifier n
  hash := S.keys.digest (S.keys.plaintext n)
  clientId := g.clientId
  userId := g.userId
  scopes := g.scopes
  family := S.familyOf g n
  issuedAt := x.issuedAt
  expiresAt := saturatingAdd x.issuedAt S.accessTtl

/-- The refresh token drawn with `m`, alongside the access token drawn with `n`. -/
def refreshTokenOf (family : String) (n m : Nat) : RefreshToken where
  id := S.keys.identifier m
  hash := S.keys.digest (S.keys.plaintext m)
  clientId := g.clientId
  userId := g.userId
  scopes := g.scopes
  family := family
  accessTokenId := S.keys.identifier n
  issuedAt := x.issuedAt
  expiresAt := saturatingAdd x.issuedAt S.refreshTtl

def tokenResponse (n : Nat) (m : Option Nat) : TokenResponse where
  accessToken := S.keys.plaintext n
  expiresIn := S.accessTtl
  scope := g.scopes
  refreshToken := m.map S.keys.plaintext

def storeRefresh (g : Issue) (family : String) (n : Nat) : Op Reply := do
  let drawn ← x.perform (.storeRefresh family g.seen) storeFailed
    (tryInsert fun m _ => some (.storeRefresh (S.refreshTokenOf x g family n m)))
  return .tokens (S.tokenResponse g n (some drawn.1)) family

def issue : Op Reply := do
  let drawn ← x.perform (.storeAccess g.family g.seen) storeFailed
    (tryInsert fun n _ => some (.storeAccess (S.accessToken x g n)))
  if g.withRefresh then S.storeRefresh x g (S.familyOf g drawn.1) drawn.1
  else return .tokens (S.tokenResponse g drawn.1 none) (S.familyOf g drawn.1)

end Setting

/-! ## Revoking -/

def revokeFamilyRefresh (x : Request) (family : String) (error : OAuthError) : Op Reply := do
  let _ ← x.attempt .revokeFamilyRefresh false (tryUpdate fun _ => some (.revokeFamilyRefresh family))
  throw (.leaked error family)

def revokeFamily (x : Request) (family : String) (error : OAuthError) : Op Reply := do
  if ← x.attempt .revokeFamilyAccess false (tryUpdate fun _ => some (.revokeFamilyAccess family))
  then revokeFamilyRefresh x family error
  else throw (.leaked error family)

/-! ## Codes -/

inductive Consumption where
  | fresh (code : AuthorizationCode)
  | replayed (family : Option String)
  | expired
  | unknown
  deriving DecidableEq

def replayedError : OAuthError := .invalidGrant
  ("this authorization code has already been used. Every token issued from it has " ++
    "been revoked, because a code presented twice is a code that leaked.")

namespace Setting

variable (S : Setting) (x : Request) (q : CodeRequest)

def consumeInMemory (hash : String) : ExceptT Failure (Tx World Write) (Consumption × String × List String) := do
  let found ← query fun d => (d.findCode hash, d.closed)
  match found with
  | (none, seen) => return (.unknown, "", seen)
  | (some code, seen) =>
    if code.family.isSome then return (.replayed code.family, "", seen)
    else if code.expiresAt ≤ x.now then return (.expired, "", seen)
    else
      let drawn ← tryInsert fun n _ => some (.claim code (S.keys.family n))
      let family := S.keys.family drawn.1
      return (.fresh { code with family := some family }, family, seen)

def claimCode (hash : String) : ExceptT Failure (Tx World Write) (Bool × String × List String) := do
  let seen ← query fun d => d.closed
  let drawn ← tryInsert fun n d => (d.unspentCode hash).map (.claim · (S.keys.family n))
  return (drawn.2, S.keys.family drawn.1, seen)

def consumption (claimed : Bool) (row : Option AuthorizationCode) : Consumption :=
  match row with
  | none => .unknown
  | some row =>
    let code := row.read .database
    if !claimed then .replayed code.family
    else if code.expiresAt ≤ x.now then .expired
    else .fresh code

def params : Params :=
  match x.call with
  | .showConsent params _ | .decideConsent params _ | .token _ params => params
  | .validateBearer _ | .purge => ⟨[]⟩

def redeem (code : AuthorizationCode) (family : String) (seen : List String) : Except OAuthError Issue := do
  if code.clientId ≠ q.client.id then
    throw (.invalidGrant "this authorization code was issued to a different client")
  if code.redirectUri ≠ q.redirectUri then
    throw (.invalidGrant "the `redirect_uri` does not match the one this code was issued for")
  if !verify S.keys q.verifier code.challenge code.challengeMethod then
    throw (.invalidGrant "the `code_verifier` does not match the `code_challenge` this code was issued with")
  let scopes ← narrowed (params x) code.scopes
  return { clientId := q.client.id, userId := some code.userId, scopes, family := some family,
           withRefresh := true, seen }

def exchangeCode (family : String) (seen : List String) : Consumption → Op Reply
  | .fresh code =>
    match S.redeem x q code family seen with
    | .error e => throw (.refused e)
    | .ok g => S.issue x g
  | .replayed (some family) => revokeFamily x family replayedError
  | .replayed none => throw (.refused replayedError)
  | .expired => throw (.refused (.invalidGrant "this authorization code has expired"))
  | .unknown => throw (.refused (.invalidGrant "no such authorization code"))

def codeUnread : Failure := .refused (.serverError "the authorization code could not be read")

def readCode (q : CodeRequest) (claimed : Bool) (family : String) (seen : List String) : Op Reply := do
  let row ← x.perform .readCode codeUnread (query fun d => d.findCode (S.keys.digest q.presented))
  S.exchangeCode x q family seen (consumption x claimed row)

def authorizationCode : Op Reply :=
  match S.codesIn with
  | .memory => do
    let consumed ← x.perform .consume codeUnread (S.consumeInMemory x (S.keys.digest q.presented))
    S.exchangeCode x q consumed.2.1 consumed.2.2 consumed.1
  | .database => do
    let claimed ← x.perform .claim codeUnread (S.claimCode (S.keys.digest q.presented))
    S.readCode x q claimed.1 claimed.2.1 claimed.2.2

/-! ## Refresh tokens -/

def renewal (client : Client) (record : RefreshToken) (scopes : Scopes) (seen : List String) : Issue where
  clientId := client.id
  userId := record.userId
  scopes := scopes
  family := some record.family
  withRefresh := true
  seen := seen

variable (client : Client) (record : RefreshToken) (seen : List String)

def renew : Op Reply := do
  let _ ← x.perform .revokeAccess storeFailed (tryUpdate fun _ => some (.revokeAccess record.accessTokenId))
  match narrowed (params x) record.scopes with
  | .error e => throw (.refused e)
  | .ok scopes => S.issue x (renewal client record scopes seen)

def lostError : OAuthError := .invalidGrant
  ("this refresh token has already been exchanged. Every token in its family has been " ++ "revoked.")

def rotate : Op Reply := do
  let rotated ← x.perform .rotate storeFailed
    (tryUpdate fun d => if d.rotatable record.id then some (.rotate record.id) else none)
  if rotated then S.renew x client record seen else revokeFamily x record.family lostError

def otherClientError : OAuthError := .invalidGrant "this refresh token was issued to a different client"

def reusedError : OAuthError := .invalidGrant
  ("this refresh token has already been exchanged. Every token in its family has been " ++
    "revoked, because two parties holding one refresh token means it leaked.")

def exchangeRefresh : Op Reply :=
  if record.clientId ≠ client.id then revokeFamily x record.family otherClientError
  else if record.rotated then revokeFamily x record.family reusedError
  else if record.revoked then throw (.refused (.invalidGrant "this refresh token has been revoked"))
  else if record.expiresAt ≤ x.now then
    throw (.refused (.invalidGrant "this refresh token has expired"))
  else S.rotate x client record seen

def refreshToken (client : Client) (presented : String) : Op Reply := do
  let found ← x.perform .findRefresh (.refused (.serverError "the refresh token could not be read"))
    (query fun d => (d.findRefresh S.tokensIn (S.keys.digest presented), d.closed))
  match found with
  | (none, _) => throw (.refused (.invalidGrant "no such refresh token"))
  | (some record, seen) => S.exchangeRefresh x client record seen

def clientCredentials (client : Client) (scopes : Scopes) : Op Reply :=
  S.issue x { clientId := client.id, userId := none, scopes, family := none, withRefresh := false, seen := [] }

/-! ## The endpoints -/

def tokenRequestOf (basic : Option Basic) (params : Params) : Except OAuthError TokenRequest :=
  tokenRequest S.keys (S.client x) basic params

def exchange (basic : Option Basic) (params : Params) : Op Reply :=
  match S.tokenRequestOf x basic params with
  | .error e => throw (.refused e)
  | .ok (.code q) => S.authorizationCode x q
  | .ok (.refresh client presented) => S.refreshToken x client presented
  | .ok (.credentials client scopes) => S.clientCredentials x client scopes

variable (a : Authorization) (user : String) (params : Params)

def issuedCode (n : Nat) : AuthorizationCode where
  hash := S.keys.digest (S.keys.plaintext n)
  clientId := a.client.id
  redirectUri := a.redirectUri
  userId := user
  scopes := a.scopes
  challenge := a.challenge
  challengeMethod := a.challengeMethod
  issuedAt := x.issuedAt
  expiresAt := saturatingAdd x.issuedAt S.codeTtl

def issueCode : Op Reply := do
  let drawn ← x.perform .storeCode (.denied (.redirect a.redirectUri
      ((OAuthError.serverError "the authorization code could not be stored").withState a.state)))
    (tryInsert fun n _ => some (.storeCode (S.issuedCode x a user n)))
  return .redirect a.redirectUri (S.keys.plaintext drawn.1) a.state

def askConsent : Op Reply := do
  let grant ← x.attempt .findGrant none (query fun d => d.findGrant S.consentIn a.client.id user)
  match grant with
  | some grant => if grant.scopes.covers a.scopes then S.issueCode x a user else return .consentPage a
  | none => return .consentPage a

def showConsent (user : Option String) : Op Reply :=
  match validate (S.client x) params with
  | .error refusal => throw (.denied refusal)
  | .ok a =>
    match user with
    | none => return .signIn
    | some user => if a.client.firstParty then S.askConsent x a user else return .consentPage a

def recordConsent : Op Reply := do
  let _ ← x.attempt .record false (tryUpdate fun _ => some (.record
    { clientId := a.client.id, userId := user, scopes := a.scopes, grantedAt := x.now }))
  S.issueCode x a user

def approved : Bool :=
  match params.get "approve" with
  | .ok (some answer) => answer == "yes"
  | _ => false

def decideConsent (user : Option String) : Op Reply :=
  match validate (S.client x) params with
  | .error refusal => throw (.denied refusal)
  | .ok a =>
    match user with
    | none => return .signIn
    | some user =>
      if approved params then S.recordConsent x a user
      else throw (.denied (.redirect a.redirectUri
        ((OAuthError.because .accessDenied "the user declined").withState a.state)))

def validateBearer (d : World) (presented : String) (now : Nat) : Except OAuthError AccessToken :=
  let unusable := OAuthError.because .invalidToken "the access token is invalid, expired, or has been revoked"
  match d.findAccess S.tokensIn (S.keys.digest presented) with
  | none => throw unusable
  | some token => if token.isLive now then return token else throw unusable

def bearer (presented : String) : Op Reply := do
  let validated ← x.perform .findAccess
    (.refused (.because .invalidToken "the access token is invalid, expired, or has been revoked"))
    (query fun d => S.validateBearer d presented x.now)
  match validated with
  | .error e => throw (.refused e)
  | .ok token => return .bearer token

def purgeRows (count : World → Nat) (w : Write) : ExceptT Failure (Tx World Write) Nat := do
  let removed ← query count
  let _ ← tryUpdate fun _ => some w
  return removed

def purgeRefresh (removed : Nat) : Op Reply := do
  let keep := keptUntil x.now S.tokensIn
  let more ← x.perform .purgeRefresh .store
    (purgeRows (fun d => d.refresh.countP fun t => !keep t.expiresAt) (.purgeRefresh keep))
  return .purged (removed + more)

def purgeAccess (removed : Nat) : Op Reply := do
  let keep := keptUntil x.now S.tokensIn
  let more ← x.perform .purgeAccess .store
    (purgeRows (fun d => d.access.countP fun t => !keep t.expiresAt) (.purgeAccess keep))
  S.purgeRefresh x (removed + more)

def purge : Op Reply := do
  let keep := AuthorizationCode.kept S.codeRetention x.now S.codesIn
  let removed ← x.perform .purgeCodes .store
    (purgeRows (fun d => d.codes.countP fun code => !keep code) (.purgeCodes keep))
  S.purgeAccess x removed

def program : Prog Point World Write (Except Failure Reply) :=
  match x.call with
  | .showConsent params user => (S.showConsent x params user).run
  | .decideConsent params user => (S.decideConsent x params user).run
  | .token basic params => (S.exchange x basic params).run
  | .validateBearer presented => (S.bearer x presented).run
  | .purge => (S.purge x).run

end Setting

def system (S : Setting) (allowed : Request → Prop) (cond : Request → Point → World → Prop) :
    System Request Point World Write (Except Failure Reply) where
  program := S.program
  allowed := allowed
  cond := cond

instance (S : Setting) (allowed : Request → Prop) (cond : Request → Point → World → Prop)
    [DecidablePred allowed] : DecidablePred (system S allowed cond).allowed :=
  fun x => inferInstanceAs (Decidable (allowed x))

instance (S : Setting) (allowed : Request → Prop) (cond : Request → Point → World → Prop)
    [∀ x l d, Decidable (cond x l d)] (x : Request) (l : Point) (d : World) :
    Decidable ((system S allowed cond).cond x l d) := inferInstanceAs (Decidable (cond x l d))

end Rustlavel.OAuth
