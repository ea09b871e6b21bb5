/-
  What the endpoints of the authorisation server make of a request before they touch a store of codes or tokens:
  the parameters, the client and its credentials, the checks of an authorisation request in their order, and the
  three grants.
-/

import Rustlavel.OAuth.Scopes

namespace Rustlavel.OAuth

open Scopes

/-! ## Errors -/

inductive OAuthErrorCode where
  | invalidRequest
  | invalidClient
  | invalidGrant
  | unauthorizedClient
  | unsupportedGrantType
  | invalidScope
  | accessDenied
  | unsupportedResponseType
  | serverError
  | invalidToken
  deriving DecidableEq

structure OAuthError where
  code : OAuthErrorCode
  description : String
  /-- Echoed on a redirect. -/
  state : Option String := none
  deriving DecidableEq

namespace OAuthError

def because (code : OAuthErrorCode) (description : String) : OAuthError := { code, description }

variable (description : String)

def invalidRequest : OAuthError := because .invalidRequest description

def invalidGrant : OAuthError := because .invalidGrant description

def invalidScope : OAuthError := because .invalidScope description

def serverError : OAuthError := because .serverError description

def withState (e : OAuthError) (state : Option String) : OAuthError := { e with state }

end OAuthError

/-! ## Parameters -/

structure Params where
  pairs : List (String × String)

namespace Params

def get (params : Params) (name : String) : Except OAuthError (Option String) :=
  match (params.pairs.filter (·.1 = name)).map (·.2) with
  | [] => .ok none
  | [value] => .ok (if value = "" then none else some value)
  | _ => .error (.invalidRequest (s!"the `{name}` parameter was sent more than once. RFC 6749 §3.1 forbids that, " ++
        "because which copy each layer reads is exactly the ambiguity an attacker needs."))

def required (params : Params) (name : String) : Except OAuthError String := do
  match ← params.get name with
  | some value => return value
  | none => throw (.invalidRequest s!"the `{name}` parameter is required")

end Params

/-! ## Clients -/

structure Secrets where
  /-- The `n`-th value drawn. -/
  generate : Nat → String
  identifier : Nat → String
  /-- The digest a credential is kept under. -/
  digest : String → String
  s256 : String → String
  distinct : Function.Injective fun n => digest (generate n)
  nonempty : ∀ n, generate n ≠ ""

structure Client where
  id : String
  secretHash : Option String
  redirectUris : List String
  scopes : Scopes
  firstParty : Bool := false

variable (client : Client)

def Client.isConfidential : Bool := client.secretHash.isSome

variable (keys : Secrets) (lookup : String → Option Client)

def Client.verifySecret (client : Client) (presented : String) : Bool :=
  match client.secretHash with
  | some stored => keys.digest presented == stored
  | none => false

def Client.allowsRedirect (uri : String) : Bool := client.redirectUris.any (· == uri)

structure Registry where
  find : String → Option Client
  id_eq : ∀ {id client}, find id = some client → client.id = id

/-! ### Credentials -/

structure Credentials where
  id : String
  secret : Option String

abbrev Basic := Except Unit Credentials

def presented (basic : Option Basic) (params : Params) : Except OAuthError Credentials := do
  let basic ← match basic with
    | none => pure none
    | some (.ok credentials) => pure (some credentials)
    | some (.error _) => throw (.because .invalidClient
        "the Authorization header is not a readable HTTP Basic credential")
  let bodyId ← params.get "client_id"
  let bodySecret ← params.get "client_secret"
  match basic, bodyId, bodySecret with
  | some _, _, some _ => throw (.because .invalidClient
      ("credentials were sent both in the Authorization header and in the body. RFC 6749 " ++
        "§2.3 allows exactly one method per request; send only the header."))
  | some basic, some id, none =>
    if basic.id ≠ id then throw (.because .invalidClient
      "the `client_id` in the body does not match the one in the Authorization header")
    else return basic
  | some basic, none, none => return basic
  | none, some id, secret => return { id, secret }
  | none, none, _ => throw (.because .invalidClient
      "no client credentials were presented: send HTTP Basic, or `client_id` in the body")

def authenticate (credentials : Credentials) : Except OAuthError Client :=
  let refused := OAuthError.because .invalidClient "client authentication failed: unknown client, or the wrong secret"
  match lookup credentials.id with
  | none => throw refused
  | some client =>
    match credentials.secret, client.isConfidential with
    | some secret, true => if client.verifySecret keys secret then return client else throw refused
    | none, true => throw refused
    | none, false => return client
    | some _, false => throw (.because .invalidClient
        "this client is registered as public and has no secret; do not send `client_secret`")

/-! ## PKCE -/

inductive ChallengeMethod where
  | s256
  | plain
  deriving DecidableEq

def ChallengeMethod.parse (raw : String) : Option ChallengeMethod :=
  if raw = "S256" then some .s256 else if raw = "plain" then some .plain else none

/-- 43 to 128 characters from `[A-Za-z0-9-._~]`. -/
def validVerifier (verifier : String) : Bool := 43 ≤ verifier.utf8ByteSize && verifier.utf8ByteSize ≤ 128 &&
    verifier.toList.all fun c => c.isAlphanum || c == '-' || c == '.' || c == '_' || c == '~'

def verify (verifier challenge : String) (method : ChallengeMethod) : Bool :=
  validVerifier verifier && (match method with
      | .s256 => keys.s256 verifier
      | .plain => verifier) == challenge

variable (params : Params)

def pkce : Except OAuthError (String × ChallengeMethod) := do
  match ← params.get "code_challenge" with
  | none => throw (.invalidRequest
      ("a `code_challenge` is required. OAuth 2.1 §4.1.1 makes PKCE mandatory for every " ++
        "client: without it, anything that intercepts the authorization code can redeem it."))
  | some challenge =>
    match ← params.get "code_challenge_method" with
    | none => throw (.invalidRequest
        ("a `code_challenge_method` is required, and must be `S256`. It is not defaulted, " ++
          "because RFC 7636 §4.3 defaults it to `plain` — which would let a client turn PKCE " ++
          "off by omitting a parameter."))
    | some raw =>
      match ChallengeMethod.parse raw with
      | some .s256 => return (challenge, .s256)
      | some .plain => throw (.invalidRequest
          ("`code_challenge_method=plain` is not accepted. A plain challenge is the verifier " ++
            "itself, written into the URL, so whoever intercepts the code has the verifier " ++
            "too. Use `S256`."))
      | none => throw (.invalidRequest
          ("unknown `code_challenge_method`: " ++ raw.quote ++ ". This server accepts `S256`."))

/-! ## Authorisation requests -/

inductive Refusal where
  | locally (error : OAuthError)
  | redirect (uri : String) (error : OAuthError)
  deriving DecidableEq

structure Authorization where
  client : Client
  redirectUri : String
  scopes : Scopes
  state : Option String
  challenge : String
  challengeMethod : ChallengeMethod

def responseType : Except OAuthError Unit := do
  let responseType ← params.required "response_type"
  if responseType ≠ "code" then
    if "token".toList <:+: responseType.toList then
      throw (.because .unsupportedResponseType
        ("the implicit flow (`response_type=token`) was removed in OAuth 2.1: it returns " ++
          "an access token in a URL fragment, where it lands in browser history and in " ++
          "every script on the page. Use `response_type=code` with PKCE."))
    else
      throw (.because .unsupportedResponseType "this server supports `response_type=code` only")

def registeredScopes (requested : Scopes) : Except OAuthError Scopes :=
  let beyond := requested.beyond client.scopes
  if beyond.isEmpty then return requested.intersect client.scopes
  else throw (.invalidScope s!"this client is not registered for: {beyond}")

def requestedScopes : Except OAuthError Scopes := do
  match ← params.get "scope" with
  | some raw => registeredScopes client (parse raw)
  | none => registeredScopes client new

def validateFor (redirectUri : String) (params : Params) : Except Refusal Authorization :=
  match params.get "state" with
  | .error e => throw (.redirect redirectUri e)
  | .ok state => Except.mapError (fun e => .redirect redirectUri (e.withState state)) do
      responseType params
      let (challenge, challengeMethod) ← pkce params
      let scopes ← requestedScopes client params
      return { client, redirectUri, scopes, state, challenge, challengeMethod }

/-- Validate an authorisation request: nothing is redirected before the client and its redirect URI are known. -/
def validate (params : Params) : Except Refusal Authorization :=
  match params.required "client_id" with
  | .error e => throw (.locally e)
  | .ok clientId =>
    match lookup clientId with
    | none => throw (.locally (.because .invalidClient "unknown client_id"))
    | some client =>
      match params.required "redirect_uri" with
      | .error e => throw (.locally e)
      | .ok requestedUri =>
        if client.allowsRedirect requestedUri then validateFor client requestedUri params
        else throw (.locally (.invalidRequest
          ("the `redirect_uri` is not one this client registered. It is compared byte for " ++
            "byte: a trailing slash, an added query string or a different port makes it a " ++
            "different URI.")))

section

variable {client : Client} {params : Params} {a : Authorization}

theorem registeredScopes_ok {requested scopes : Scopes} (hrequested : requested.Plain)
    (h : registeredScopes client requested = .ok scopes) : scopes ⊆ client.scopes ∧ scopes.Plain := by
  unfold registeredScopes at h
  dsimp only at h
  split at h
  · cases h
    exact ⟨intersect_subset_allowed _ _, hrequested.subset (intersect_subset _ _)⟩
  · cases h

theorem requestedScopes_ok {scopes : Scopes} (h : requestedScopes client params = .ok scopes) :
    scopes ⊆ client.scopes ∧ scopes.Plain := by
  unfold requestedScopes at h
  cases hget : params.get "scope" with
  | error =>
    rw [hget] at h
    cases h
  | ok raw =>
    rw [hget] at h
    cases raw with
    | none => exact registeredScopes_ok plain_new h
    | some raw => exact registeredScopes_ok (plain_parse raw) h

theorem validateFor_ok {uri : String} (h : validateFor client uri params = .ok a) :
    a.client = client ∧ a.redirectUri = uri ∧ a.scopes ⊆ client.scopes ∧ a.scopes.Plain := by
  unfold validateFor at h
  split at h
  · cases h
  · simp only [bind, Except.bind, pure, Except.pure] at h
    -- the three checks one after the other: the last is the one that matters
    split at h
    · cases h
    · split at h
      · cases h
      · split at h
        · cases h
        · rename_i hscopes
          cases h
          exact ⟨rfl, rfl, requestedScopes_ok hscopes⟩

theorem validate_ok {lookup : String → Option Client} (h : validate lookup params = .ok a) :
    ∃ id, lookup id = some a.client ∧ a.client.allowsRedirect a.redirectUri = true ∧
      a.scopes ⊆ a.client.scopes ∧ a.scopes.Plain := by
  unfold validate at h
  split at h
  · cases h
  · rename_i clientId _
    split at h
    · cases h
    · rename_i client hclient
      split at h
      · cases h
      · split at h
        · rename_i hallows
          obtain ⟨rfl, rfl, hscopes, hplain⟩ := validateFor_ok h
          exact ⟨clientId, hclient, hallows, hscopes, hplain⟩
        · cases h

end

/-! ## Token requests -/

/-- A requested `scope`, refused if it asks for anything beyond `granted`. -/
def narrowed (granted : Scopes) : Except OAuthError Scopes := do
  match ← params.get "scope" with
  | none => return granted
  | some raw =>
    let requested := parse raw
    let beyond := requested.beyond granted
    if beyond.isEmpty then return requested
    else throw (.invalidScope (s!"this grant does not cover: {beyond}. A `scope` at the token endpoint may only " ++
        "narrow what was already granted."))

theorem narrowed_ok {params : Params} {granted scopes : Scopes} (h : narrowed params granted = .ok scopes) :
    scopes ⊆ granted ∧ (granted.Plain → scopes.Plain) := by
  unfold narrowed at h
  cases hget : params.get "scope" with
  | error =>
    rw [hget] at h
    cases h
  | ok raw =>
    rw [hget] at h
    simp only [bind, Except.bind, pure, Except.pure] at h
    split at h
    · cases h
      exact ⟨fun _ h => h, id⟩
    · split at h
      · rename_i hbeyond
        cases h
        exact ⟨subset_of_beyond hbeyond, fun _ => plain_parse _⟩
      · cases h

structure CodeRequest where
  client : Client
  presented : String
  redirectUri : String
  verifier : String

inductive TokenRequest where
  | code (q : CodeRequest)
  | refresh (client : Client) (presented : String)
  | credentials (client : Client) (scopes : Scopes)

def codeRequest : Except OAuthError CodeRequest := do
  let presented ← params.required "code"
  let redirectUri ← params.required "redirect_uri"
  match ← params.get "code_verifier" with
  | some verifier => return { client, presented, redirectUri, verifier }
  | none => throw (.invalidRequest
      ("a `code_verifier` is required: every code this server issues is bound to a PKCE " ++
        "challenge (OAuth 2.1 §4.1.1)"))

def credentialsRequest : Except OAuthError Scopes := do
  if !client.isConfidential then
    throw (.because .unauthorizedClient
      ("`client_credentials` needs a client that can authenticate, and this one is public. " ++
        "Its id is printed in every redirect URL its users see."))
  narrowed params client.scopes

def tokenRequest (basic : Option Basic) (params : Params) : Except OAuthError TokenRequest := do
  let credentials ← presented basic params
  let client ← authenticate keys lookup credentials
  let grantType ← params.required "grant_type"
  if grantType = "authorization_code" then return .code (← codeRequest client params)
  else if grantType = "refresh_token" then
    return .refresh client (← params.required "refresh_token")
  else if grantType = "client_credentials" then
    return .credentials client (← credentialsRequest client params)
  else if grantType = "password" then
    throw (.because .unsupportedGrantType
      ("the `password` grant was removed in OAuth 2.1. It requires the user to hand their " ++
        "password to the client, which cannot carry a second factor and gives the client a " ++
        "credential that works everywhere. Use `authorization_code` with PKCE."))
  else if grantType = "implicit" ∨ grantType = "token" then
    throw (.because .unsupportedGrantType
      ("the implicit flow was removed in OAuth 2.1: it delivers the access token in a URL " ++
        "fragment, where it reaches browser history and every script on the page. Use " ++
        "`authorization_code` with PKCE."))
  else
    throw (.because .unsupportedGrantType
      ("unsupported grant_type " ++ grantType.quote ++ ". This server supports " ++
        "`authorization_code`, `refresh_token` and `client_credentials`."))

end Rustlavel.OAuth
