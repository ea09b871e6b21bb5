/-
  A refresh token whose request is refused for its scope.
-/

import Rustlavel.OAuth.Revocation

namespace Rustlavel.OAuth

open Transact Setting Prog

variable {S : Setting} {x : Request} {client : Client} {presented : String} {d : World} {n : Nat}
  {record : RefreshToken}

theorem perform_of_no_fault (hx : ∀ l, x.fault l = false) {α : Type} (l : Point) (failure : Failure)
    (body : ExceptT Failure (Tx World Write) α) : x.perform l failure body = statement l body :=
  if_neg (by rw [hx]; exact Bool.false_ne_true)

theorem attempt_of_no_fault (hx : ∀ l, x.fault l = false) {α : Type} (l : Point) (default : α)
    (body : ExceptT Failure (Tx World Write) α) : x.attempt l default body = statement l body :=
  if_neg (by rw [hx]; exact Bool.false_ne_true)

theorem alone_update (l : Point) {w : World → Option Write} {write : Write} (hw : w d = some write)
    (k : Bool → Op Reply) :
    (statement l (Tx.tryUpdate w) >>= k : Op Reply).run.alone n d = (k true).run.alone n (Store.apply write d) := by
  have hupdate := alone_tryUpdate (ε := Failure) l w n d
  rw [hw] at hupdate
  rw [ExceptT.run_bind, alone_bind, hupdate]

theorem alone_refreshToken (hx : ∀ l, x.fault l = false)
    (hfound : d.findRefresh S.tokensIn (S.keys.digest presented) = some record) :
    (S.refreshToken x client presented).run.alone n d = (S.exchangeRefresh x client record d.closed).run.alone n d := by
  rw [refreshToken, perform_of_no_fault hx, alone_query, hfound]

theorem alone_revokeFamily (hx : ∀ l, x.fault l = false) (family : String) (error : OAuthError) :
    (revokeFamily x family error).run.alone n d =
      (.error (.leaked error family), n, (d.revokeFamilyAccess family).revokeFamilyRefresh family) := by
  simp only [revokeFamily, revokeFamilyRefresh, attempt_of_no_fault hx]
  rfl

theorem alone_rotate (hx : ∀ l, x.fault l = false) (hrotatable : d.rotatable record.id = true) {e : OAuthError}
    (hscope : narrowed (params x) record.scopes = .error e) (seen : List String) :
    (S.rotate x client record seen).run.alone n d =
      (.error (.refused e), n, (d.rotate record.id).revokeAccess record.accessTokenId) := by
  rw [rotate, perform_of_no_fault hx, alone_update _ (if_pos hrotatable), if_pos rfl, renew,
    perform_of_no_fault hx, alone_update _ rfl, hscope]
  rfl

theorem findRefresh_rotate {driver : Driver} {hash : String} (hfound : d.findRefresh driver hash = some record)
    (id : String) : ((d.rotate record.id).revokeAccess id).findRefresh driver hash =
      some { record with rotated := true } := by
  obtain ⟨row, hrow, hread⟩ := Option.map_eq_some_iff.mp hfound
  have hid : row.id = record.id := by rw [← hread]; cases driver <;> rfl
  have hrotated : ((d.rotate record.id).revokeAccess id).refresh.find? (·.hash = hash) =
      some { row with rotated := true } := by
    show (d.refresh.map _).find? _ = _
    rw [List.find?_map]
    have hsame : ((fun token : RefreshToken => decide (token.hash = hash)) ∘ fun token : RefreshToken =>
        if token.id = record.id then { token with rotated := true } else token) =
          fun token => decide (token.hash = hash) := by
      funext token
      show decide ((if token.id = record.id then { token with rotated := true } else token).hash = hash) = _
      split <;> rfl
    rw [hsame, hrow, Option.map_some, if_pos hid]
  rw [World.findRefresh, hrotated, Option.map_some, ← hread]
  cases driver <;> rfl

/-- Refused for its scope, a token is left rotated and its access token revoked; nothing is issued, and the next
    request with it revokes the family. -/
theorem scope_refusal_rotates (S : Setting) (x y : Request) (client : Client) (presented : String) (n : Nat) (d : World)
    (record : RefreshToken) (e : OAuthError) (hx : ∀ l, x.fault l = false) (hy : ∀ l, y.fault l = false)
    (hfound : d.findRefresh S.tokensIn (S.keys.digest presented) = some record) (hclient : record.clientId = client.id)
    (hlive : record.rotated = false ∧ record.revoked = false ∧ x.now < record.expiresAt)
    (hscope : narrowed (params x) record.scopes = .error e) :
    let d' := (d.rotate record.id).revokeAccess record.accessTokenId
    (S.refreshToken x client presented).run.alone n d = (.error (.refused e), n, d') ∧
      (S.refreshToken y client presented).run.alone n d' = (.error (.leaked reusedError record.family), n,
        (d'.revokeFamilyAccess record.family).revokeFamilyRefresh record.family) := by
  intro d'
  obtain ⟨hrotated, hrevoked, hexpires⟩ := hlive
  have hrotatable : d.rotatable record.id = true := by
    obtain ⟨row, hrow, hread⟩ := World.mem_of_findRefresh hfound
    refine List.any_eq_true.mpr ⟨row, hrow, decide_eq_true ?_⟩
    rw [← hrotated, ← hread]
    cases S.tokensIn <;> exact ⟨rfl, rfl⟩
  constructor
  · rw [alone_refreshToken hx hfound, exchangeRefresh, if_neg (not_not_intro hclient),
      if_neg (Bool.eq_false_iff.mp hrotated), if_neg (Bool.eq_false_iff.mp hrevoked), if_neg (Nat.not_le.mpr hexpires)]
    exact alone_rotate hx hrotatable hscope d.closed
  · rw [alone_refreshToken hy (findRefresh_rotate hfound _), exchangeRefresh, if_neg (not_not_intro hclient),
      if_pos rfl]
    exact alone_revokeFamily hy record.family reusedError

/-- A server with one pair of tokens for the scope `read`. -/
def onePair : World where
  access := [{ id := "i", hash := "a", clientId := "app", userId := some "7", scopes := .of ["read"], family := "f",
               issuedAt := 0, expiresAt := 3600 }]
  refresh := [{ id := "j", hash := "r", clientId := "app", userId := some "7", scopes := .of ["read"], family := "f",
                accessTokenId := "i", issuedAt := 0, expiresAt := 7200 }]

def widening : Request := { call := .token none ⟨[("scope", "write")]⟩, now := 0 }

theorem scope_refusal_rotates_of_write :
    ∃ e, (refreshToken (server .memory) widening reader "r").run.alone 0 onePair =
      (.error (.refused e), 0, (onePair.rotate "j").revokeAccess "i") :=
  ⟨_, (scope_refusal_rotates (server .memory) widening widening reader "r" 0 onePair _ _ (fun _ => rfl)
    (fun _ => rfl) rfl rfl
    ⟨rfl, rfl, by decide⟩ rfl).1⟩

/-- Refused for its scope, the token is no longer good for a request without one. -/
theorem refused_token_lost :
    let refused := (refreshToken (server .memory) widening reader "r").run.alone 0 onePair
    let again := (refreshToken (server .memory) (refreshWith "r") reader "r").run.alone 0 refused.2.2
    refused.2.2.access.map (·.revoked) = [true] ∧ leakOf again.1 = some "f" := by
  decide +kernel

end Rustlavel.OAuth
