/-
  The codes, tokens and consents an authorisation server keeps, and the two kinds of store it keeps them in.
-/

import Rustlavel.Lib.Transact
import Rustlavel.OAuth.Requests

namespace Rustlavel.OAuth

open Transact List Option

/-! ## Records -/

structure AuthorizationCode where
  hash : String
  clientId : String
  redirectUri : String
  userId : String
  scopes : Scopes
  challenge : String
  challengeMethod : ChallengeMethod
  issuedAt : Nat
  expiresAt : Nat
  /-- Set when the code is spent. -/
  family : Option String := none
  deriving DecidableEq

structure AccessToken where
  id : String
  hash : String
  clientId : String
  /-- `none` for a token with no user behind it. -/
  userId : Option String
  scopes : Scopes
  family : String
  issuedAt : Nat
  expiresAt : Nat
  revoked : Bool := false

structure RefreshToken where
  id : String
  hash : String
  clientId : String
  userId : Option String
  scopes : Scopes
  family : String
  /-- The access token minted alongside. -/
  accessTokenId : String
  issuedAt : Nat
  expiresAt : Nat
  revoked : Bool := false
  /-- Set once the token has been exchanged. -/
  rotated : Bool := false

structure Grant where
  clientId : String
  userId : String
  scopes : Scopes
  grantedAt : Nat

def AuthorizationCode.unspent (code : AuthorizationCode) : AuthorizationCode := { code with family := none }

def AccessToken.isLive (token : AccessToken) (now : Nat) : Bool := !token.revoked && decide (now < token.expiresAt)

def saturatingAdd (a b : Nat) : Nat := min (a + b) (2 ^ 64 - 1)

/-! ## Drivers -/

inductive Driver where
  | memory
  | database
  deriving DecidableEq

def asI64 (x : Nat) : Int := if x < 2 ^ 63 then x else (x : Int) - 2 ^ 64

/-- A `u64` written to a column and read back. -/
def number (x : Nat) : Nat := (asI64 x).toNat

def optional (text : Option String) : Option String := text.filter (· ≠ "")

theorem optional_some {text : String} (h : text ≠ "") : optional (some text) = some text := by
  unfold optional
  rw [filter_some, if_pos (by simpa using h)]

theorem of_optional {text : Option String} {value : String} (h : optional text = some value) :
    text = some value := (filter_eq_some_iff.mp h).1

def AuthorizationCode.read : Driver → AuthorizationCode → AuthorizationCode
  | .memory, code => code
  | .database, code =>
    { code with
      scopes := .parse code.scopes.display
      issuedAt := number code.issuedAt
      expiresAt := number code.expiresAt
      family := optional code.family }

def AccessToken.read : Driver → AccessToken → AccessToken
  | .memory, token => token
  | .database, token =>
    { token with
      userId := optional token.userId
      scopes := .parse token.scopes.display
      issuedAt := number token.issuedAt
      expiresAt := number token.expiresAt }

def RefreshToken.read : Driver → RefreshToken → RefreshToken
  | .memory, token => token
  | .database, token =>
    { token with
      userId := optional token.userId
      scopes := .parse token.scopes.display
      issuedAt := number token.issuedAt
      expiresAt := number token.expiresAt }

def Grant.read : Driver → Grant → Grant
  | .memory, grant => grant
  | .database, grant =>
    { grant with scopes := .parse grant.scopes.display, grantedAt := number grant.grantedAt }

/-- What a purge of the codes leaves: the memory store keeps a code for a while after it has expired. -/
def AuthorizationCode.kept (retention now : Nat) : Driver → AuthorizationCode → Bool
  | .memory, code => decide (now < saturatingAdd code.expiresAt retention)
  | .database, code => !decide (asI64 code.expiresAt < asI64 now)

def keptUntil (now : Nat) : Driver → Nat → Bool
  | .memory, expiresAt => decide (now < expiresAt)
  | .database, expiresAt => !decide (asI64 expiresAt < asI64 now)

section

variable (driver : Driver) {t : RefreshToken}

@[simp] theorem AccessToken.read_revoked (t : AccessToken) : (t.read driver).revoked = t.revoked := by
  cases driver <;> rfl

@[simp] theorem AccessToken.read_family (t : AccessToken) : (t.read driver).family = t.family := by
  cases driver <;> rfl

@[simp] theorem RefreshToken.read_family (t : RefreshToken) : (t.read driver).family = t.family := by
  cases driver <;> rfl

@[simp] theorem RefreshToken.read_revoked (t : RefreshToken) : (t.read driver).revoked = t.revoked := by
  cases driver <;> rfl

@[simp] theorem RefreshToken.read_clientId (t : RefreshToken) : (t.read driver).clientId = t.clientId := by
  cases driver <;> rfl

theorem RefreshToken.read_scopes (h : t.scopes.Plain) : (t.read driver).scopes = t.scopes := by
  cases driver with
  | memory => rfl
  | database => exact Scopes.parse_display h

theorem AuthorizationCode.read_scopes {code : AuthorizationCode} (h : code.scopes.Plain) :
    (code.read driver).scopes = code.scopes := by
  cases driver with
  | memory => rfl
  | database => exact Scopes.parse_display h

theorem RefreshToken.read_userId {user : String} (h : t.userId = some user)
    (hkept : driver = .memory ∨ user ≠ "") : (t.read driver).userId = some user := by
  cases driver with
  | memory => exact h
  | database =>
    obtain hmemory | huser := hkept
    · cases hmemory
    · show optional t.userId = some user
      rw [h, optional_some huser]

end

/-! ## The world -/

structure World where
  codes : List AuthorizationCode := []
  access : List AccessToken := []
  refresh : List RefreshToken := []
  consent : List Grant := []
  issued : List AuthorizationCode := []
  spent : List (AuthorizationCode × String) := []
  condemned : List String := []
  closed : List String := []

def AccessToken.Later (t t' : AccessToken) : Prop :=
  { t' with revoked := t.revoked } = t ∧ (t.revoked = true → t'.revoked = true)

def RefreshToken.Later (t t' : RefreshToken) : Prop :=
  { t' with revoked := t.revoked, rotated := t.rotated } = t ∧ (t.revoked = true → t'.revoked = true)

theorem AccessToken.Later.refl (t : AccessToken) : t.Later t := ⟨rfl, fun h => h⟩

theorem RefreshToken.Later.refl (t : RefreshToken) : t.Later t := ⟨rfl, fun h => h⟩

theorem AccessToken.Later.family {t t' : AccessToken} (h : t.Later t') : t'.family = t.family := by
  rw [← h.1]

theorem RefreshToken.Later.family {t t' : RefreshToken} (h : t.Later t') : t'.family = t.family := by
  rw [← h.1]

theorem AccessToken.later_revoked (t : AccessToken) : t.Later { t with revoked := true } := ⟨rfl, fun _ => rfl⟩

theorem RefreshToken.later_revoked (t : RefreshToken) : t.Later { t with revoked := true } := ⟨rfl, fun _ => rfl⟩

namespace World

variable (d : World)

/-! ### Codes -/

def findCode (hash : String) : Option AuthorizationCode := d.codes.find? (·.hash = hash)

def unspentCode (hash : String) : Option AuthorizationCode :=
  d.codes.find? fun code => code.hash = hash ∧ code.family = none

def storeCode (code : AuthorizationCode) : World :=
  { d with codes := d.codes ++ [code], issued := d.issued ++ [code] }

def claim (code : AuthorizationCode) (family : String) : World := { d with
    codes := d.codes.map fun row =>
      if row.hash = code.hash ∧ row.family = none then { row with family := some family } else row
    spent := d.spent ++ [(code, family)] }

def purgeCodes (keep : AuthorizationCode → Bool) : World := { d with codes := d.codes.filter keep }

/-! ### Tokens -/

variable (driver : Driver)

def findAccess (hash : String) : Option AccessToken :=
  (d.access.find? (·.hash = hash)).map (·.read driver)

def findRefresh (hash : String) : Option RefreshToken :=
  (d.refresh.find? (·.hash = hash)).map (·.read driver)

def storeAccess (token : AccessToken) : World := { d with access := d.access ++ [token] }

def storeRefresh (token : RefreshToken) : World := { d with refresh := d.refresh ++ [token] }

def rotatable (id : String) : Bool := d.refresh.any fun token => token.id = id ∧ token.rotated = false

def rotate (id : String) : World := { d with refresh := d.refresh.map fun token =>
      if token.id = id then { token with rotated := true } else token }

def revokeAccess (id : String) : World := { d with access := d.access.map fun token =>
      if token.id = id then { token with revoked := true } else token }

def revokeFamilyAccess (family : String) : World := { d with
    access := d.access.map fun token =>
      if token.family = family then { token with revoked := true } else token
    condemned := d.condemned ++ [family] }

def revokeFamilyRefresh (family : String) : World := { d with
    refresh := d.refresh.map fun token =>
      if token.family = family then { token with revoked := true } else token
    closed := d.closed ++ [family] }

def purgeAccess (keep : Nat → Bool) : World := { d with access := d.access.filter fun token => keep token.expiresAt }

def purgeRefresh (keep : Nat → Bool) : World :=
  { d with refresh := d.refresh.filter fun token => keep token.expiresAt }

/-! ### Consent -/

def findGrant (clientId userId : String) : Option Grant :=
  (d.consent.find? fun grant => grant.clientId = clientId ∧ grant.userId = userId).map (·.read driver)

def record (grant : Grant) : World := { d with
    consent := d.consent.filter (fun other =>
      ¬(other.clientId = grant.clientId ∧ other.userId = grant.userId)) ++ [grant] }

/-! ### What is found -/

variable {d}

variable {hash family id : String} {code : AuthorizationCode} {t : RefreshToken} {driver : Driver}

theorem mem_of_findCode (h : d.findCode hash = some code) : code ∈ d.codes ∧ code.hash = hash :=
  ⟨mem_of_find?_eq_some h, by simpa using find?_some h⟩

theorem mem_of_unspentCode (h : d.unspentCode hash = some code) :
    code ∈ d.codes ∧ code.hash = hash ∧ code.family = none :=
  ⟨mem_of_find?_eq_some h, by simpa using find?_some h⟩

theorem mem_of_findAccess {token : AccessToken}
    (h : d.findAccess driver hash = some token) : ∃ row ∈ d.access, row.read driver = token := by
  obtain ⟨row, hrow, rfl⟩ := map_eq_some_iff.mp h
  exact ⟨row, mem_of_find?_eq_some hrow, rfl⟩

theorem mem_of_findRefresh {token : RefreshToken}
    (h : d.findRefresh driver hash = some token) : ∃ row ∈ d.refresh, row.read driver = token := by
  obtain ⟨row, hrow, rfl⟩ := map_eq_some_iff.mp h
  exact ⟨row, mem_of_find?_eq_some hrow, rfl⟩

/-! ### What the writes leave -/

theorem mem_claim {row : AuthorizationCode} (h : row ∈ (d.claim code family).codes) :
    ∃ row0 ∈ d.codes, row.unspent = row0.unspent ∧ (row = row0 ∧ ¬(row0.hash = code.hash ∧ row0.family = none) ∨
        row.family = some family ∧ row.hash = code.hash) := by
  obtain ⟨row0, hrow0, rfl⟩ := mem_map.mp h
  refine ⟨row0, hrow0, ?_⟩
  by_cases hmatch : row0.hash = code.hash ∧ row0.family = none
  · rw [if_pos hmatch]
    exact ⟨rfl, .inr ⟨rfl, hmatch.1⟩⟩
  · rw [if_neg hmatch]
    exact ⟨rfl, .inl ⟨rfl, hmatch⟩⟩

theorem mem_map_if {α : Type} {rows : List α} {p : α → Prop} [DecidablePred p] {f : α → α} {row : α}
    (h : row ∈ rows.map fun row => if p row then f row else row) :
    ∃ row0 ∈ rows, (p row0 ∧ row = f row0) ∨ (¬p row0 ∧ row = row0) := by
  obtain ⟨row0, hrow0, rfl⟩ := mem_map.mp h
  refine ⟨row0, hrow0, ?_⟩
  by_cases hp : p row0
  · exact .inl ⟨hp, if_pos hp⟩
  · exact .inr ⟨hp, if_neg hp⟩

theorem mem_rotate (h : t ∈ (d.rotate id).refresh) : ∃ t0 ∈ d.refresh, t0.Later t := by
  obtain ⟨t0, ht0, ⟨-, rfl⟩ | ⟨-, rfl⟩⟩ := mem_map_if h
  · exact ⟨t0, ht0, rfl, fun h => h⟩
  · exact ⟨t, ht0, .refl t⟩

theorem mem_revokeAccess {t : AccessToken} (h : t ∈ (d.revokeAccess id).access) : ∃ t0 ∈ d.access, t0.Later t := by
  obtain ⟨t0, ht0, ⟨-, rfl⟩ | ⟨-, rfl⟩⟩ := mem_map_if h
  · exact ⟨t0, ht0, t0.later_revoked⟩
  · exact ⟨t, ht0, .refl t⟩

theorem mem_revokeFamilyAccess {t : AccessToken} (h : t ∈ (d.revokeFamilyAccess family).access) :
    ∃ t0 ∈ d.access, t0.Later t ∧ (t.family = family → t.revoked = true) := by
  obtain ⟨t0, ht0, ⟨-, rfl⟩ | ⟨hother, rfl⟩⟩ := mem_map_if h
  · exact ⟨t0, ht0, t0.later_revoked, fun _ => rfl⟩
  · exact ⟨t, ht0, .refl t, fun hfamily => absurd hfamily hother⟩

theorem mem_revokeFamilyRefresh (h : t ∈ (d.revokeFamilyRefresh family).refresh) :
    ∃ t0 ∈ d.refresh, t0.Later t ∧ (t.family = family → t.revoked = true) := by
  obtain ⟨t0, ht0, ⟨-, rfl⟩ | ⟨hother, rfl⟩⟩ := mem_map_if h
  · exact ⟨t0, ht0, t0.later_revoked, fun _ => rfl⟩
  · exact ⟨t, ht0, .refl t, fun hfamily => absurd hfamily hother⟩

end World

/-! ## Writes -/

inductive Write where
  | storeCode (code : AuthorizationCode)
  | claim (code : AuthorizationCode) (family : String)
  | purgeCodes (keep : AuthorizationCode → Bool)
  | storeAccess (token : AccessToken)
  | storeRefresh (token : RefreshToken)
  | rotate (id : String)
  | revokeAccess (id : String)
  | revokeFamilyAccess (family : String)
  | revokeFamilyRefresh (family : String)
  | purgeAccess (keep : Nat → Bool)
  | purgeRefresh (keep : Nat → Bool)
  | record (grant : Grant)

instance : Store World Write where
  apply
    | .storeCode code, d => d.storeCode code
    | .claim code family, d => d.claim code family
    | .purgeCodes keep, d => d.purgeCodes keep
    | .storeAccess token, d => d.storeAccess token
    | .storeRefresh token, d => d.storeRefresh token
    | .rotate id, d => d.rotate id
    | .revokeAccess id, d => d.revokeAccess id
    | .revokeFamilyAccess family, d => d.revokeFamilyAccess family
    | .revokeFamilyRefresh family, d => d.revokeFamilyRefresh family
    | .purgeAccess keep, d => d.purgeAccess keep
    | .purgeRefresh keep, d => d.purgeRefresh keep
    | .record grant, d => d.record grant

end Rustlavel.OAuth
