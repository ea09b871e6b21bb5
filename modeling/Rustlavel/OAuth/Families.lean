/-
  Token families over whole runs of the server.
-/

import Rustlavel.OAuth.Steps

namespace Rustlavel.OAuth

open Transact List Setting World

def World.families (d : World) : List String := d.spent.map (·.2)

def TokenRequest.codeRequest : TokenRequest → Option CodeRequest
  | .code q => some q
  | _ => none

def Setting.codeOf (S : Setting) (x : Request) : Option CodeRequest :=
  match x.call with
  | .token basic params =>
    match S.tokenRequestOf x basic params with
    | .ok r => r.codeRequest
    | .error _ => none
  | _ => none

theorem Setting.codeOf_eq {S : Setting} {x : Request} {basic : Option Basic} {params : Params}
    {r : TokenRequest} (hcall : x.call = .token basic params)
    (hrequest : S.tokenRequestOf x basic params = .ok r) : S.codeOf x = r.codeRequest := by
  unfold codeOf
  rw [hcall]
  dsimp only
  rw [hrequest]

section

variable {S : Setting} {x : Request} {q : CodeRequest} {code : AuthorizationCode} {family : String}
  {seen : List String} {g : Issue}

structure Redeemed (S : Setting) (q : CodeRequest) (code : AuthorizationCode) (family : String)
    (seen : List String) (g : Issue) : Prop where
  client : code.clientId = q.client.id
  redirectUri : code.redirectUri = q.redirectUri
  verifier : verify S.keys q.verifier code.challenge code.challengeMethod = true
  clientId : g.clientId = q.client.id
  userId : g.userId = some code.userId
  scopes : g.scopes ⊆ code.scopes
  plain : code.scopes.Plain → g.scopes.Plain
  family : g.family = some family
  withRefresh : g.withRefresh = true
  seen : g.seen = seen

theorem redeem_ok (h : S.redeem x q code family seen = .ok g) : Redeemed S q code family seen g := by
  unfold redeem at h
  by_cases hclient : code.clientId ≠ q.client.id
  · rw [if_pos hclient] at h
    cases h
  by_cases huri : code.redirectUri ≠ q.redirectUri
  · rw [if_neg hclient, if_pos huri] at h
    cases h
  by_cases hverify : verify S.keys q.verifier code.challenge code.challengeMethod = true
  · rw [if_neg hclient, if_neg huri, hverify] at h
    cases hscopes : narrowed (params x) code.scopes with
    | error =>
      rw [hscopes] at h
      cases h
    | ok =>
      rw [hscopes] at h
      cases h
      obtain ⟨hsubset, hplain⟩ := narrowed_ok hscopes
      exact ⟨not_not.mp hclient, not_not.mp huri, hverify, rfl, rfl, hsubset, hplain, rfl, rfl, rfl⟩
  · rw [if_neg hclient, if_neg huri, Bool.eq_false_iff.mpr hverify] at h
    cases h

theorem redeeming_rule {S : Setting} {x : Request} {q : CodeRequest} {code : AuthorizationCode} {family : String}
    {seen : List String} {P : Stage → Prop} (hrefused : ∀ e, P (.finished (.error (.refused e))))
    (hissue : ∀ g, Redeemed S q code family seen g → P (.storingAccess g)) : P (S.redeeming x q code family seen) := by
  unfold redeeming
  cases hredeem : S.redeem x q code family seen with
  | error e => exact hrefused e
  | ok g => exact hissue g (redeem_ok hredeem)

theorem renewed_cases (x : Request) (client : Client) (record : RefreshToken) (seen : List String) :
    (∃ e, renewed x client record seen = .finished (.error (.refused e))) ∨
      ∃ scopes, renewed x client record seen = .storingAccess (renewal client record scopes seen) ∧
        narrowed (params x) record.scopes = .ok scopes := by
  unfold renewed
  cases hscopes : narrowed (params x) record.scopes with
  | error e => exact .inl ⟨e, rfl⟩
  | ok scopes => exact .inr ⟨scopes, rfl, rfl⟩

end

/-! ## Families are drawn with codes -/

/-- Every family of a spent code, of a refresh token and of a revocation was drawn for a code. -/
structure Drawn (S : Setting) (n : Nat) (d : World) : Prop where
  spent : ∀ f ∈ d.families, ∃ m < n, f = S.keys.family m
  codes : ∀ row ∈ d.codes, ∀ f, row.family = some f → f ∈ d.families
  refresh : ∀ t ∈ d.refresh, t.family ∈ d.families
  condemned : d.condemned ⊆ d.families
  closed : d.closed ⊆ d.condemned

theorem Drawn.fresh {S : Setting} {n : Nat} {d : World} (h : Drawn S n d) : S.keys.family n ∉ d.families := by
  intro hmem
  obtain ⟨_, _, heq⟩ := h.spent _ hmem
  have := Secrets.family_inj heq
  omega

def Held (S : Setting) (x : Request) : Stage → World → Prop
  | .consuming q, _ => S.codeOf x = some q
  | .reading q claimed family _, d => S.codeOf x = some q ∧ (claimed = true → family ∈ d.families)
  | .finding .., _ => S.codeOf x = none
  | .rotating _ record _, d => S.codeOf x = none ∧ record.family ∈ d.families
  | .renewing _ record _, d => S.codeOf x = none ∧ record.family ∈ d.families
  | .storingAccess g, d =>
    (∀ f, g.family = some f → f ∈ d.families) ∧ (g.withRefresh = true → g.family.isSome) ∧
      ((S.codeOf x).isSome → g.withRefresh = true)
  | .storingRefresh g family _, d => g.family = some family ∧ family ∈ d.families
  | .revokingAccess family _, d => family ∈ d.families
  | .revokingRefresh family _, d => family ∈ d.condemned
  | .finished (.ok (.tokens _ family)), d => (S.codeOf x).isSome → family ∈ d.families
  | _, _ => True

def Stage.family : Stage → Option String
  | .reading _ true family _ => some family
  | .storingAccess g => g.family
  | .storingRefresh _ family _ => some family
  | .finished (.ok (.tokens _ family)) => some family
  | _ => none

def own (S : Setting) (x : Request) (s : Stage) : Option String :=
  if (S.codeOf x).isSome then s.family else none

section

variable {S : Setting} {x : Request} {s s' : Stage} {l : Point} {n n' : Nat} {d d' : World}
  {r : Except Failure Reply} {f family : String} {code : AuthorizationCode} {q : CodeRequest}
  {seen : List String}

theorem held_quiet (hr : Quiet r) : Held S x (.finished r) d := by
  cases r with
  | error => trivial
  | ok reply =>
    cases reply with
    | tokens => exact hr.elim
    | _ => trivial

theorem family_quiet (hr : Quiet r) : (Stage.finished r).family = none := by
  cases r with
  | error => rfl
  | ok reply =>
    cases reply with
    | tokens => exact hr.elim
    | _ => rfl

theorem own_eq_some : own S x s = some f ↔ (S.codeOf x).isSome ∧ s.family = some f := by
  unfold own
  split
  · exact ⟨fun h => ⟨‹_›, h⟩, And.right⟩
  · exact ⟨fun h => (by cases h), fun h => absurd h.1 ‹_›⟩

theorem mem_families_of_own (h : Held S x s d) (hown : own S x s = some f) : f ∈ d.families := by
  obtain ⟨hcode, hfamily⟩ := own_eq_some.mp hown
  cases s with
  | reading q claimed =>
    cases claimed with
    | true =>
      cases hfamily
      exact h.2 rfl
    | false => cases hfamily
  | storingAccess => exact h.1 f hfamily
  | storingRefresh =>
    cases hfamily
    exact h.2
  | finished r =>
    cases r with
    | error => cases hfamily
    | ok reply =>
      cases reply with
      | tokens =>
        cases hfamily
        exact h hcode
      | _ => cases hfamily
  | _ => cases hfamily

theorem held_start (S : Setting) (x : Request) (d : World) : Held S x (S.start x) d ∧ (S.start x).family = none := by
  unfold start
  cases hcall : x.call with
  | showConsent params user | decideConsent params user =>
    refine S.startConsent_rule x (P := fun s => Held S x s d ∧ s.family = none)
      (fun _ hr => ⟨held_quiet hr, family_quiet hr⟩) fun _ _ _ _ => ?_
    split <;> exact ⟨trivial, rfl⟩
  | token basic params =>
    dsimp only
    cases hrequest : S.tokenRequestOf x basic params with
    | error => exact ⟨trivial, rfl⟩
    | ok r =>
      have hcode := codeOf_eq hcall hrequest
      cases r with
      | code | refresh => exact ⟨hcode, rfl⟩
      | credentials =>
        refine ⟨⟨fun f hf => (by cases hf), fun h => (by cases h), fun h => ?_⟩, rfl⟩
        rw [hcode] at h
        cases h
  | validateBearer | purge => exact ⟨trivial, rfl⟩

theorem families_subset (h : S.Moves x s l n d s' n' d') : d.families ⊆ d'.families := map_subset _ h.spent_subset

theorem Held.mono {y : Request} {t : Stage} (ht : Held S y t d) (h : S.Moves x s l n d s' n' d') : Held S y t d' := by
  have hfamilies := families_subset h
  cases t with
  | reading => exact ⟨ht.1, fun hclaimed => hfamilies (ht.2 hclaimed)⟩
  | rotating | renewing | storingRefresh =>
    exact ⟨ht.1, hfamilies ht.2⟩
  | storingAccess => exact ⟨fun f hf => hfamilies (ht.1 f hf), ht.2⟩
  | revokingAccess => exact hfamilies ht
  | revokingRefresh => exact h.condemned_subset ht
  | finished r =>
    cases r with
    | error => trivial
    | ok reply =>
      cases reply with
      | tokens => exact fun hcode => hfamilies (ht hcode)
      | _ => trivial
  | _ => exact ht

theorem mem_families_claim : family ∈ (d.claim code family).families :=
  mem_map.mpr ⟨(code, family), mem_append_right _ mem_cons_self, rfl⟩

theorem held_redeeming (hfamily : family ∈ d.families) : Held S x (S.redeeming x q code family seen) d := by
  refine redeeming_rule (P := (Held S x · d)) (fun _ => trivial) fun g hg => ?_
  refine ⟨fun f hf => ?_, fun _ => by rw [hg.family]; rfl, fun _ => hg.withRefresh⟩
  rw [hg.family] at hf
  cases hf
  exact hfamily

theorem family_redeeming (h : (S.redeeming x q code family seen).family = some f) : f = family := by
  refine redeeming_rule (P := (·.family = some f → f = family)) (fun _ => nofun) (fun g hg h => ?_) h
  exact Option.some.inj (h.symm.trans hg.family)

theorem familyOf_eq {g : Issue} (h : g.family = some f) : S.familyOf g n = f := by
  unfold familyOf
  rw [h]
  rfl

theorem Held.move (hinv : Drawn S n d) (hs : Held S x s d) (h : S.Moves x s l n d s' n' d') : Held S x s' d' := by
  cases h with
  | ended hr => exact held_quiet hr
  | consumed => exact held_redeeming mem_families_claim
  | replayed hcode hfamily => exact hinv.codes _ (mem_of_findCode hcode).1 _ hfamily
  | claimed => exact ⟨hs, fun _ => mem_families_claim⟩
  | unclaimed => exact ⟨hs, fun h => by cases h⟩
  | read => exact held_redeeming (hs.2 rfl)
  | readReplayed hrow hfamily => exact hinv.codes _ (mem_of_findCode hrow).1 _ hfamily
  | found hrecord =>
    obtain ⟨row, hrow, rfl⟩ := mem_of_findRefresh hrecord
    exact ⟨hs, RefreshToken.read_family _ row ▸ hinv.refresh row hrow⟩
  | foundLeaked hrecord =>
    obtain ⟨row, hrow, rfl⟩ := mem_of_findRefresh hrecord
    exact RefreshToken.read_family S.tokensIn row ▸ hinv.refresh row hrow
  | rotated => exact hs
  | lost => exact hs.2
  | @renewed client record seen =>
    obtain ⟨e, heq⟩ | ⟨scopes, heq, -⟩ := renewed_cases x client record seen
    · rw [heq]
      trivial
    · rw [heq]
      refine ⟨fun f hf => ?_, fun _ => rfl, fun _ => rfl⟩
      cases hf
      exact hs.2
  | @storedAccess g =>
    unfold storedAccess
    split
    · rename_i hrefresh
      obtain ⟨f, hf⟩ := Option.isSome_iff_exists.mp (hs.2.1 hrefresh)
      rw [familyOf_eq hf]
      exact ⟨hf, hs.1 f hf⟩
    · rename_i hrefresh
      exact fun hcode => absurd (hs.2.2 hcode) hrefresh
  | storedRefresh => exact fun _ => hs.2
  | revokedAccess => exact mem_append_right _ mem_cons_self
  | revokedRefresh | notRevokedAccess | notRevokedRefresh | purgedRefresh | storedCode | purgedCodes
  | purgedAccess | asked | recorded | notRecorded => trivial

theorem own_move (hs : Held S x s d) (h : S.Moves x s l n d s' n' d')
    (hown : own S x s' = some f) : own S x s = some f ∨ f = S.keys.family n := by
  obtain ⟨hcode, hfamily⟩ := own_eq_some.mp hown
  cases h with
  | ended hr =>
    rw [family_quiet hr] at hfamily
    cases hfamily
  | consumed => exact .inr (family_redeeming hfamily)
  | claimed =>
    cases hfamily
    exact .inr rfl
  | read =>
    rw [family_redeeming hfamily]
    exact .inl (own_eq_some.mpr ⟨hcode, rfl⟩)
  | renewed =>
    -- a request with a refresh token has no code
    rw [hs.1] at hcode
    cases hcode
  | storedAccess =>
    have hrefresh := hs.2.2 hcode
    obtain ⟨_, hf'⟩ := Option.isSome_iff_exists.mp (hs.2.1 hrefresh)
    unfold storedAccess at hfamily
    rw [if_pos hrefresh, familyOf_eq hf'] at hfamily
    cases hfamily
    exact .inl (own_eq_some.mpr ⟨hcode, hf'⟩)
  | storedRefresh =>
    cases hfamily
    exact .inl (own_eq_some.mpr ⟨hcode, rfl⟩)
  | replayed | unclaimed | readReplayed | found | foundLeaked | rotated | lost | revokedAccess
  | revokedRefresh | notRevokedAccess | notRevokedRefresh | purgedCodes | purgedAccess
  | purgedRefresh | asked | recorded | notRecorded | storedCode => cases hfamily

theorem Drawn.move (hinv : Drawn S n d) (hs : Held S x s d) (h : S.Moves x s l n d s' n' d') : Drawn S n' d' := by
  have hfamilies := families_subset h
  refine ⟨fun f hf => ?_, fun row hrow f hf => ?_, fun t ht => ?_, fun f hf => ?_, fun f hf => ?_⟩
  · obtain ⟨heq, -⟩ | ⟨code, q, -, -, -, -, rfl, rfl⟩ := h.spent
    · obtain ⟨m, hm, hf⟩ := hinv.spent f (by unfold families at hf ⊢; rwa [heq] at hf)
      exact ⟨m, Nat.lt_of_lt_of_le hm h.next_le, hf⟩
    · obtain ⟨_, hp, rfl⟩ := mem_map.mp hf
      rcases mem_append.mp hp with hp | hp
      · obtain ⟨m, hm, hf⟩ := hinv.spent _ (mem_map_of_mem hp)
        exact ⟨m, Nat.lt_succ_of_lt hm, hf⟩
      · rw [mem_singleton.mp hp]
        exact ⟨n, Nat.lt_succ_self n, rfl⟩
  · obtain ⟨-, hcodes⟩ | ⟨code, q, -, -, -, -, -, rfl⟩ := h.spent
    · obtain hrow | ⟨a, user, -, rfl, -⟩ := hcodes row hrow
      · exact hfamilies (hinv.codes row hrow f hf)
      · cases hf
    · obtain ⟨_, hrow0, -, ⟨rfl, -⟩ | ⟨hfamily, -⟩⟩ := mem_claim hrow
      · exact hfamilies (hinv.codes row hrow0 f hf)
      · rw [hfamily] at hf
        cases hf
        exact mem_families_claim
  · obtain ⟨t0, ht0, hlater⟩ | ⟨g, family, m, rfl, -, rfl⟩ := h.refresh ht
    · rw [hlater.family]
      exact hfamilies (hinv.refresh t0 ht0)
    · exact hfamilies hs.2
  · obtain heq | ⟨family, error, rfl, rfl⟩ := h.condemned
    · rw [heq] at hf
      exact hfamilies (hinv.condemned hf)
    · rcases mem_append.mp hf with hf | hf
      · exact hfamilies (hinv.condemned hf)
      · rw [mem_singleton.mp hf]
        exact hs
  · obtain heq | ⟨family, error, rfl, rfl⟩ := h.closed
    · rw [heq] at hf
      exact h.condemned_subset (hinv.closed hf)
    · rcases mem_append.mp hf with hf | hf
      · exact hinv.closed hf
      · rw [mem_singleton.mp hf]
        exact hs

end

def families (S : Setting) (allowed : Request → Prop) (cond : Request → Point → World → Prop) :
    Outline (staging S allowed cond) where
  inv := Drawn S
  Holds := Held S
  Apart x s y t := ∀ f, own S x s = some f → own S y t ≠ some f
  symm h f ht hs := h f hs ht
  start {n d x} _ _ := by
    obtain ⟨hheld, hfamily⟩ := held_start S x d
    refine ⟨hheld, fun y t f hf => ?_⟩
    have hsome : (S.start x).family = some f := (own_eq_some.mp hf).2
    rw [hfamily] at hsome
    cases hsome
  move hinv hs _ h := ⟨hinv.move hs h, hs.move hinv h⟩
  others hinv hs ht hapart _ h := by
    refine ⟨ht.mono h, fun f hf hother => ?_⟩
    obtain hbefore | rfl := own_move hs h hf
    · exact hapart f hbefore hother
    · exact hinv.fresh (mem_families_of_own ht hother)

end Rustlavel.OAuth
