/-
  A family that was taken down because a credential leaked is meant to stay down.
-/

import Rustlavel.OAuth.Families

namespace Rustlavel.OAuth

open Transact List Setting Option String AccessToken

/-- When a token is stored, every revocation of its family was over before the exchange read its credential. -/
def Settled (x : Request) : Point → World → Prop
  | .storeAccess (some family) seen, d => family ∈ d.condemned → family ∈ seen
  | .storeRefresh family seen, d => family ∈ d.condemned → family ∈ seen
  | .revokeFamilyAccess, _ => x.fault .revokeFamilyAccess = false
  | .revokeFamilyRefresh, _ => x.fault .revokeFamilyRefresh = false
  | _, _ => True

/-- The access tokens of a family are revoked once its revocation has begun, the refresh tokens once it is over. -/
structure Down (d : World) : Prop where
  access : ∀ t ∈ d.access, t.family ∈ d.condemned → t.revoked = true
  refresh : ∀ t ∈ d.refresh, t.family ∈ d.closed → t.revoked = true

/-- An exchange read its credential when the family was not down, and a refusal for a leak has taken it down. -/
def Unseen : Stage → World → Prop
  | .reading _ claimed family seen, _ => claimed = true → family ∉ seen
  | .rotating _ record seen, _ => record.family ∉ seen
  | .renewing _ record seen, _ => record.family ∉ seen
  | .storingAccess g, _ => ∀ f, g.family = some f → f ∉ g.seen
  | .storingRefresh g family _, _ => family ∉ g.seen
  | .finished (.error (.leaked _ family)), d => family ∈ d.closed
  | _, _ => True

section

variable {S : Setting} {x : Request} {s s' : Stage} {l : Point} {n n' : Nat} {d d' : World}

theorem unseen_quiet {r : Except Failure Reply} (hr : Quiet r) : Unseen (.finished r) d := by
  match r, hr with
  | .error (.refused _), _ | .error (.denied _), _ | .error .store, _ => trivial
  | .ok _, _ => trivial

theorem unseen_start (S : Setting) (x : Request) (d : World) : Unseen (S.start x) d := by
  unfold start
  cases x.call with
  | showConsent params user | decideConsent params user =>
    refine S.startConsent_rule x (P := (Unseen · d)) (fun _ => unseen_quiet) fun _ _ _ _ => ?_
    split <;> trivial
  | token basic params =>
    dsimp only
    cases S.tokenRequestOf x basic params with
    | error => trivial
    | ok r =>
      cases r with
      | credentials => exact fun f hf => by cases hf
      | code | refresh => trivial
  | validateBearer | purge => trivial

theorem Unseen.mono {t : Stage} (ht : Unseen t d) (h : S.Moves x s l n d s' n' d') : Unseen t d' := by
  cases t with
  | finished r =>
    match r, ht with
    | .error (.leaked _ family), ht => exact h.closed_subset ht
    | .error (.refused _), _ | .error (.denied _), _ | .error .store, _ => trivial
    | .ok _, _ => trivial
  | _ => exact ht

theorem unseen_redeeming {q : CodeRequest} {code : AuthorizationCode} {family : String}
    {seen : List String} (hfamily : family ∉ seen) : Unseen (S.redeeming x q code family seen) d := by
  refine redeeming_rule (P := (Unseen · d)) (fun _ => trivial) fun g hg f hf => ?_
  rw [hg.family] at hf
  cases hf
  rwa [hg.seen]

theorem Unseen.move (hinv : Drawn S n d) (hdown : Down d) (hheld : Held S x s d) (hs : Unseen s d)
    (hcond : Settled x l d) (h : S.Moves x s l n d s' n' d') : Unseen s' d' := by
  -- a family drawn now has not been taken down
  have hfresh : S.keys.family n ∉ d.closed := fun hclosed => hinv.fresh (hinv.condemned (hinv.closed hclosed))
  cases h with
  | ended hr => exact unseen_quiet hr
  | consumed => exact unseen_redeeming hfresh
  | claimed => exact fun _ => hfresh
  | unclaimed => exact fun h => by cases h
  | read => exact unseen_redeeming (hs rfl)
  | found hrecord _ hrevoked =>
    obtain ⟨row, hrow, rfl⟩ := World.mem_of_findRefresh hrecord
    intro hclosed
    rw [RefreshToken.read_family] at hclosed
    rw [RefreshToken.read_revoked, hdown.refresh row hrow hclosed] at hrevoked
    cases hrevoked
  | rotated => exact hs
  | @renewed client record seen =>
    obtain ⟨e, heq⟩ | ⟨scopes, heq, -⟩ := renewed_cases x client record seen
    · rw [heq]
      trivial
    · rw [heq]
      intro f hf
      cases hf
      exact hs
  | @storedAccess g =>
    unfold storedAccess
    split
    · rename_i hrefresh
      obtain ⟨f, hf⟩ := isSome_iff_exists.mp (hheld.2.1 hrefresh)
      rw [familyOf_eq hf]
      exact hs f hf
    · trivial
  | revokedRefresh => exact mem_append_right _ mem_cons_self
  | notRevokedAccess hfault | notRevokedRefresh hfault => exact absurd (hfault.symm.trans hcond) (by decide)
  | replayed | readReplayed | foundLeaked | lost | storedRefresh | revokedAccess | purgedCodes
  | purgedAccess | purgedRefresh | asked | recorded | notRecorded | storedCode => trivial

theorem not_condemned_of_storeAccess {g : Issue} (hinv : Drawn S n d) (hs : Unseen (.storingAccess g) d)
    (hcond : Settled x (.storeAccess g.family g.seen) d) : S.familyOf g n ∉ d.condemned := by
  intro hcondemned
  cases hfamily : g.family with
  | none =>
    refine hinv.fresh (hinv.condemned ?_)
    unfold familyOf at hcondemned
    rwa [hfamily] at hcondemned
  | some f =>
    rw [familyOf_eq hfamily] at hcondemned
    rw [hfamily] at hcond
    exact hs f hfamily (hcond hcondemned)

theorem Down.move (hinv : Drawn S n d) (hdown : Down d) (hs : Unseen s d) (hcond : Settled x l d)
    (h : S.Moves x s l n d s' n' d') : Down d' := by
  refine ⟨fun t ht hfamily => ?_, fun t ht hfamily => ?_⟩
  · obtain heq | ⟨family, error, rfl, rfl⟩ := h.condemned
    · rw [heq] at hfamily
      obtain ⟨t0, ht0, hlater⟩ | ⟨g, rfl, rfl, rfl, -⟩ := h.access ht
      · rw [hlater.family] at hfamily
        exact hlater.2 (hdown.access t0 ht0 hfamily)
      · exact absurd hfamily (not_condemned_of_storeAccess hinv hs hcond)
    · obtain ⟨t0, ht0, hlater, hrevoked⟩ := World.mem_revokeFamilyAccess ht
      rcases mem_append.mp hfamily with hfamily | hfamily
      · rw [hlater.family] at hfamily
        exact hlater.2 (hdown.access t0 ht0 hfamily)
      · exact hrevoked (mem_singleton.mp hfamily)
  · obtain heq | ⟨family, error, rfl, rfl⟩ := h.closed
    · rw [heq] at hfamily
      obtain ⟨t0, ht0, hlater⟩ | ⟨g, family, m, rfl, rfl, rfl⟩ := h.refresh ht
      · rw [hlater.family] at hfamily
        exact hlater.2 (hdown.refresh t0 ht0 hfamily)
      · exact absurd (hcond (hinv.closed hfamily)) hs
    · obtain ⟨t0, ht0, hlater, hrevoked⟩ := World.mem_revokeFamilyRefresh ht
      rcases mem_append.mp hfamily with hfamily | hfamily
      · rw [hlater.family] at hfamily
        exact hlater.2 (hdown.refresh t0 ht0 hfamily)
      · exact hrevoked (mem_singleton.mp hfamily)

theorem tokens_not_condemned {response : TokenResponse} {f : String} (hinv : Drawn S n d)
    (hs : Unseen s d) (hcond : Settled x l d)
    (h : S.Moves x s l n d (.finished (.ok (.tokens response f))) n' d') : f ∉ d.condemned := by
  generalize hs' : Stage.finished (.ok (.tokens response f)) = s' at h
  cases h with
  | ended hr =>
    cases hs'
    exact hr.elim
  | consumed | read =>
    -- a code is never answered at once
    exact absurd hs' (redeeming_rule (P := (_ ≠ ·)) (fun _ => nofun) fun _ _ => nofun)
  | @renewed client record seen =>
    obtain ⟨_, heq⟩ | ⟨scopes, heq, -⟩ := renewed_cases x client record seen <;>
    · rw [heq] at hs'
      cases hs'
  | storedAccess =>
    unfold storedAccess at hs'
    split at hs'
    · cases hs'
    · cases hs'
      exact not_condemned_of_storeAccess hinv hs hcond
  | storedRefresh =>
    cases hs'
    exact fun hcondemned => hs (hcond hcondemned)
  | _ => cases hs'

end

def revocations (S : Setting) (allowed : Request → Prop) : Outline (staging S allowed Settled) :=
  (families S allowed Settled).strengthen (fun _ => Down) (fun _ => Unseen) (fun _ _ _ => unseen_start S _ _)
    (fun hinv hheld hdown hs hcond h => ⟨hdown.move hinv hs hcond h, hs.move hinv hdown hheld hcond h⟩)
    (fun _ _ _ _ _ _ ht _ h => ht.mono h)

theorem revocations_init (S : Setting) (allowed : Request → Prop) : (revocations S allowed).inv 0 {} := by
  refine ⟨⟨fun f hf => ?_, fun row hrow => ?_, fun t ht => ?_, fun f hf => ?_, fun f hf => ?_⟩,
    fun t ht => ?_, fun t ht => ?_⟩
  · cases hf
  · cases hrow
  · cases ht
  · cases hf
  · cases hf
  · cases ht
  · cases ht

theorem not_down_of_validateBearer {S : Setting} {d : World} {presented : String} {now : Nat}
    {t : AccessToken} (hdown : Down d) (h : S.validateBearer d presented now = .ok t) : t.family ∉ d.condemned := by
  unfold validateBearer at h
  split at h
  · cases h
  · rename_i token hfound
    split at h
    · rename_i hlive
      cases h
      obtain ⟨row, hrow, rfl⟩ := World.mem_of_findAccess hfound
      intro hcondemned
      rw [read_family] at hcondemned
      unfold isLive at hlive
      rw [read_revoked, hdown.access row hrow hcondemned] at hlive
      cases hlive
    · cases h

/-- Once a credential of a family has leaked, none of its access tokens is accepted and no further exchange answers
    with its tokens. -/
theorem family_stays_down (S : Setting) {c c' : Config Request Point World Write (Except Failure Reply)}
    (hc : (system S (fun _ => True) Settled).Reachable {} c) {i : Nat} {x : Request} {e : OAuthError}
    {f : String} (hleaked : c.calls[i]? = some (x, .ret (.error (.leaked e f))))
    (hrun : (system S (fun _ => True) Settled).Run c c') :
    (∀ presented now t, S.validateBearer c'.db presented now = .ok t → t.family ≠ f) ∧
    ∀ (j : Nat) y response, c'.calls[j]? = some (y, .ret (.ok (.tokens response f))) →
      c.calls[j]? = some (y, .ret (.ok (.tokens response f))) := by
  let O := revocations S fun _ => True
  obtain ⟨a, ha, rfl⟩ := (staging S (fun _ => True) Settled).of_reachable hc
  have hfits : O.Fits a := O.fits_of_reachable (revocations_init S _) ha
  obtain ⟨a', ha', rfl⟩ := (staging S (fun _ => True) Settled).of_run hrun
  have hfits' : O.Fits a' := hfits.run O ha'
  -- the family is down now, and stays so
  have hclosed : f ∈ a.db.condemned := by
    obtain ⟨s, hget, hrest⟩ := (staging S (fun _ => True) Settled).of_call hleaked
    obtain rfl := S.finished_of_rest x hrest
    exact hfits.inv.1.closed (hfits.holds hget).2
  have hlater : ∀ {y s l n d s' n' d'}, f ∈ d.condemned → S.Moves y s l n d s' n' d' →
      f ∈ d'.condemned := fun hf h => h.condemned_subset hf
  refine ⟨fun presented now t ht htf => ?_, fun j y response hj => ?_⟩
  · have hclosed' := ha'.keeps (Q := fun d => f ∈ d.condemned) hclosed hlater
    exact not_down_of_validateBearer hfits'.inv.2 ht (htf ▸ hclosed')
  · obtain ⟨_, hget', hrest'⟩ := (staging S (fun _ => True) Settled).of_call hj
    obtain rfl := S.finished_of_rest y hrest'
    -- the tokens were answered before, or while the family was down
    have heach := hfits.each O ha' (Q := fun d => f ∈ d.condemned)
      (P := fun _ s => ∀ response, s ≠ .finished (.ok (.tokens response f))) hclosed hlater
      (fun z response hz => by
        have := (held_start S z {}).2
        rw [show S.start z = _ from hz] at this
        cases this)
      (fun hinv hholds hf hcond hmove _ response hs' => by
        subst hs'
        exact tokens_not_condemned hinv.1 hholds.2 hcond hmove hf) hget'
    obtain hnone | ⟨s0, hget, hsome⟩ := heach
    · exact absurd rfl (hnone response)
    · obtain ⟨response', rfl⟩ : ∃ response', s0 = .finished (.ok (.tokens response' f)) := by
        by_contra hnone
        exact hsome fun response' hs0 => hnone ⟨response', hs0⟩
      have hbefore : ((staging S (fun _ => True) Settled).config a).calls[j]? =
          some (y, .ret (.ok (.tokens response' f))) := by
        simp only [Staging.config, getElem?_map, hget, map_some]
        rfl
      have hafter := hrun.returned hbefore
      rw [hj] at hafter
      cases hafter
      exact hbefore

/-! ## A server with one client -/

/-- Values drawn in unary: the `n`-th has `n + 1` letters. -/
def unaryKeys : Secrets where
  generate n := ofList (replicate (n + 1) 'x')
  identifier n := ofList (replicate (n + 1) 'i')
  digest text := text
  s256 text := text
  distinct m n h := Words.unary_injective 'x' h
  nonempty n h := by
    have hnil := congrArg String.toList h
    rw [toList_ofList] at hnil
    cases hnil

def reader : Client where
  id := "app"
  secretHash := none
  redirectUris := ["https://a.test/cb"]
  scopes := .of ["read"]

def oneClient : Registry where
  find id := if id = "app" then some reader else none
  id_eq {id client} h := by
    split at h
    · cases h
      exact Eq.symm ‹_›
    · cases h

def server (driver : Driver) : Setting where
  keys := unaryKeys
  clients := oneClient
  codesIn := driver
  tokensIn := driver
  consentIn := driver

def verifierOf : String := ofList (replicate 43 'v')

def agree (user : String) : Request where
  call := .decideConsent ⟨[("client_id", "app"), ("redirect_uri", "https://a.test/cb"),
    ("response_type", "code"), ("code_challenge", verifierOf), ("code_challenge_method", "S256"),
    ("scope", "read"), ("approve", "yes")]⟩ (some user)
  now := 0

def redeemCode (code : String) : Request where
  call := .token none ⟨[("client_id", "app"), ("grant_type", "authorization_code"), ("code", code),
    ("redirect_uri", "https://a.test/cb"), ("code_verifier", verifierOf)]⟩
  now := 0

def refreshWith (token : String) : Request where
  call := .token none ⟨[("client_id", "app"), ("grant_type", "refresh_token"), ("refresh_token", token)]⟩
  now := 0

def leakOf : Except Failure Reply → Option String
  | .error (.leaked _ family) => some family
  | _ => none

theorem exists_leaked {c : Config Request Point World Write (Except Failure Reply)} {i : Nat} {f : String}
    (h : ((c.calls[i]?).bind fun y => y.2.result.bind leakOf) = some f) :
    ∃ x e, c.calls[i]? = some (x, .ret (.error (.leaked e f))) := by
  obtain ⟨⟨x, _⟩, hget, hp⟩ := bind_eq_some_iff.mp h
  obtain ⟨r, hr, hleak⟩ := bind_eq_some_iff.mp hp
  obtain rfl := Prog.eq_ret_of_result hr
  match r, hleak with
  | .error (.leaked e _), hleak =>
    cases hleak
    exact ⟨x, e, hget⟩

instance (x : Request) (l : Point) (d : World) : Decidable (Settled x l d) :=
  match l with
  | .storeAccess (some family) seen => inferInstanceAs (Decidable (family ∈ d.condemned → family ∈ seen))
  | .storeRefresh family seen => inferInstanceAs (Decidable (family ∈ d.condemned → family ∈ seen))
  | .revokeFamilyAccess => inferInstanceAs (Decidable (x.fault .revokeFamilyAccess = false))
  | .revokeFamilyRefresh => inferInstanceAs (Decidable (x.fault .revokeFamilyRefresh = false))
  | .storeAccess none _ | .consume | .claim | .readCode | .findRefresh | .rotate | .revokeAccess
  | .findAccess | .purgeCodes | .purgeAccess | .purgeRefresh | .findGrant | .record | .storeCode =>
    isTrue trivial

theorem family_stays_down_of_replay : ∃ c, (system (server .memory) (fun _ => True) Settled).Reachable {} c ∧
      (∃ x e, c.calls[2]? = some (x, .ret (.error (.leaked e "xxxx")))) ∧
      ∀ presented now t, (server .memory).validateBearer c.db presented now = .ok t → t.family ≠ "xxxx" := by
  let sys := system (server .memory) (fun _ => True) Settled
  obtain ⟨c, hc, hleak⟩ := sys.play_reachable [.call (agree "7"), .advance 0, .advance 0,
      .call (redeemCode "x"), .advance 1, .advance 1, .advance 1,
      .call (redeemCode "x"), .advance 2, .advance 2, .advance 2] {}
    (fun c => (c.calls[2]?).bind fun y => y.2.result.bind leakOf)
    (v := some "xxxx") (by decide +kernel)
  obtain ⟨x, e, hget⟩ := exists_leaked hleak
  exact ⟨c, hc, ⟨x, e, hget⟩, (family_stays_down (server .memory) hc hget .refl).1⟩

/-- Two requests bring one code; the second is told that its tokens are revoked; then the first stores them. -/
theorem family_comes_back : ∃ c c', (system (server .memory) (fun _ => True) fun _ _ _ => True).Reachable {} c ∧
      (system (server .memory) (fun _ => True) fun _ _ _ => True).Run c c' ∧
      ∃ (i : Nat) (x : Request) (e : OAuthError) (f : String), c.calls[i]? = some (x, .ret (.error (.leaked e f))) ∧
        ∃ presented now t, (server .memory).validateBearer c'.db presented now = .ok t ∧ t.family = f := by
  let sys := system (server .memory) (fun _ => True) fun _ _ _ => True
  obtain ⟨c, c', hc, hrun, hv⟩ := sys.play_then sys [.call (agree "7"), .advance 0, .advance 0,
      .call (redeemCode "x"), .advance 1,
      .call (redeemCode "x"), .advance 2, .advance 2, .advance 2]
    [.advance 1, .advance 1] {}
    (fun c c' => ((c.calls[2]?).bind fun y => y.2.result.bind leakOf,
      ((server .memory).validateBearer c'.db "xxxxx" 0).toOption.map (·.family)))
    (v := (some "xxxx", some "xxxx")) (by decide +kernel)
  obtain ⟨hleak, haccepted⟩ := Prod.mk.inj hv
  obtain ⟨x, e, hget⟩ := exists_leaked hleak
  obtain ⟨t, ht, hfamily⟩ := map_eq_some_iff.mp haccepted
  refine ⟨c, c', hc, hrun, 2, x, e, "xxxx", hget, "xxxxx", 0, t, ?_, hfamily⟩
  cases hvalid : (server .memory).validateBearer c'.db "xxxxx" 0 with
  | error =>
    rw [hvalid] at ht
    cases ht
  | ok =>
    rw [hvalid] at ht
    exact congrArg Except.ok (some.inj ht)

end Rustlavel.OAuth
