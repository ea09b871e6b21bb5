/-
  What an authorisation code leads to, over whole runs of the server: it is spent once, by the client it was
  issued to, and every token that descends from it, through any number of refreshes, has its client, its user
  and no scope beyond its own (`code_redeemed_once`).
-/

import Rustlavel.OAuth.Revocation

namespace Rustlavel.OAuth

open Transact List Setting World RefreshToken Nat

def Identified (S : Setting) (x : Request) : Prop :=
  match x.call with
  | .showConsent _ (some user) | .decideConsent _ (some user) => S.tokensIn = .memory ∨ user ≠ ""
  | _ => True

structure Registered (S : Setting) (k : AuthorizationCode) : Prop where
  client : ∃ client, S.clients.find k.clientId = some client ∧
    client.allowsRedirect k.redirectUri = true ∧ k.scopes ⊆ client.scopes
  plain : k.scopes.Plain
  user : S.tokensIn = .memory ∨ k.userId ≠ ""
  unspent : k.family = none

structure Within (clientId : String) (userId : Option String) (scopes : Scopes) (k : AuthorizationCode) : Prop where
  client : clientId = k.clientId
  user : userId = some k.userId
  scopes : scopes ⊆ k.scopes

/-- A request brings a code that was issued to its client, with the redirect URI and a verifier of the code. -/
structure Redeems (S : Setting) (q : CodeRequest) (k : AuthorizationCode) : Prop where
  hash : k.hash = S.keys.digest q.presented
  client : k.clientId = q.client.id
  redirectUri : k.redirectUri = q.redirectUri
  verifier : verify S.keys q.verifier k.challenge k.challengeMethod = true

/-! ## The invariant -/

structure Lineage (S : Setting) (n : Nat) (d : World) : Prop where
  issued_drawn : ∀ k ∈ d.issued, ∃ m < n, k.hash = S.keys.digest (S.keys.plaintext m)
  issued_inj : ∀ k ∈ d.issued, ∀ k' ∈ d.issued, k.hash = k'.hash → k = k'
  registered : ∀ k ∈ d.issued, Registered S k
  codes : ∀ row ∈ d.codes, row.unspent ∈ d.issued
  unspent : ∀ row ∈ d.codes, row.family = none → ∀ p ∈ d.spent, p.1.hash ≠ row.hash
  spent_issued : ∀ p ∈ d.spent, p.1 ∈ d.issued
  spent_hash : ∀ p ∈ d.spent, ∀ p' ∈ d.spent, p.1.hash = p'.1.hash → p = p'
  spent_family : ∀ p ∈ d.spent, ∀ p' ∈ d.spent, p.2 = p'.2 → p = p'
  access_drawn : ∀ t ∈ d.access, ∃ m < n, t.family = S.keys.family m
  access : ∀ t ∈ d.access, ∀ p ∈ d.spent, p.2 = t.family → Within t.clientId t.userId t.scopes p.1
  refresh : ∀ t ∈ d.refresh, ∃ k, (k, t.family) ∈ d.spent ∧ Within t.clientId t.userId t.scopes k

structure Checked (S : Setting) (a : Authorization) (user : String) : Prop where
  client : S.clients.find a.client.id = some a.client
  redirectUri : a.client.allowsRedirect a.redirectUri = true
  scopes : a.scopes ⊆ a.client.scopes
  plain : a.scopes.Plain
  user : S.tokensIn = .memory ∨ user ≠ ""

def Descends (S : Setting) (x : Request) (g : Issue) (family : String) (d : World) : Prop :=
  ∃ k, (k, family) ∈ d.spent ∧ Within g.clientId g.userId g.scopes k ∧ ∀ q, S.codeOf x = some q → Redeems S q k

def Entitled (S : Setting) (x : Request) : Stage → World → Prop
  | .reading q claimed family _, d => claimed = true → ∃ k, (k, family) ∈ d.spent ∧ k.hash = S.keys.digest q.presented
  | .rotating client record _, d => ∃ k, (k, record.family) ∈ d.spent ∧ Within client.id record.userId record.scopes k
  | .renewing client record _, d => ∃ k, (k, record.family) ∈ d.spent ∧ Within client.id record.userId record.scopes k
  | .storingAccess g, d => ∀ f, g.family = some f → Descends S x g f d
  | .storingRefresh g family _, d => Descends S x g family d
  | .asking a user, _ => Checked S a user
  | .recording a user, _ => Checked S a user
  | .storingCode a user, _ => Checked S a user
  | .finished (.ok (.tokens _ family)), d => ∀ q, S.codeOf x = some q → ∃ k, (k, family) ∈ d.spent ∧ Redeems S q k
  | _, _ => True

section

variable {S : Setting} {x : Request} {s s' : Stage} {l : Point} {n n' : Nat} {d d' : World}

theorem entitled_quiet {r : Except Failure Reply} (hr : Quiet r) : Entitled S x (.finished r) d := by
  cases r with
  | error => trivial
  | ok reply =>
    cases reply with
    | tokens => exact hr.elim
    | _ => trivial

variable {a : Authorization} {user family : String} {y : Request} {code k : AuthorizationCode}

theorem checked_of_validate {params : Params}
    (h : validate (S.client x) params = .ok a) (huser : S.tokensIn = .memory ∨ user ≠ "") : Checked S a user := by
  obtain ⟨_, hclient, hredirect, hscopes, hplain⟩ := validate_ok h
  unfold client at hclient
  split at hclient
  · cases hclient
  · have hid := S.clients.id_eq hclient
    rw [← hid] at hclient
    exact ⟨hclient, hredirect, hscopes, hplain, huser⟩

theorem entitled_start (hx : Identified S x) : Entitled S x (S.start x) d := by
  unfold Identified at hx
  unfold start
  cases hcall : x.call with
  | showConsent params user | decideConsent params user =>
    rw [hcall] at hx
    refine S.startConsent_rule x (P := (Entitled S x · d)) (fun _ => entitled_quiet) fun a u hvalidate hu => ?_
    subst hu
    split
    · exact checked_of_validate hvalidate hx
    · trivial
  | token basic params =>
    dsimp only
    cases S.tokenRequestOf x basic params with
    | error => trivial
    | ok r =>
      cases r with
      | credentials => exact fun f hf => by cases hf
      | code | refresh => trivial
  | validateBearer | purge => trivial

theorem Descends.mono {g : Issue} (hg : Descends S y g family d)
    (h : d.spent ⊆ d'.spent) : Descends S y g family d' := by
  obtain ⟨k, hk, hwithin⟩ := hg
  exact ⟨k, h hk, hwithin⟩

theorem Entitled.mono {t : Stage} (ht : Entitled S y t d) (h : S.Moves x s l n d s' n' d') : Entitled S y t d' := by
  have hspent := h.spent_subset
  cases t with
  | reading =>
    intro hclaimed
    obtain ⟨k, hk, hhash⟩ := ht hclaimed
    exact ⟨k, hspent hk, hhash⟩
  | rotating | renewing =>
    obtain ⟨k, hk, hwithin⟩ := ht
    exact ⟨k, hspent hk, hwithin⟩
  | storingAccess => exact fun f hf => (ht f hf).mono hspent
  | storingRefresh => exact Descends.mono ht hspent
  | finished r =>
    cases r with
    | error => trivial
    | ok reply =>
      cases reply with
      | tokens =>
        intro q hq
        obtain ⟨k, hk, hredeems⟩ := ht q hq
        exact ⟨k, hspent hk, hredeems⟩
      | _ => trivial
  | _ => exact ht

theorem entitled_redeeming {q : CodeRequest}
    {seen : List String} (hq : S.codeOf x = some q) (hk : (k, family) ∈ d.spent)
    (hhash : k.hash = S.keys.digest q.presented) (hclient : code.clientId = k.clientId)
    (huri : code.redirectUri = k.redirectUri) (huser : code.userId = k.userId)
    (hchallenge : code.challenge = k.challenge) (hmethod : code.challengeMethod = k.challengeMethod)
    (hscopes : code.scopes = k.scopes) : Entitled S x (S.redeeming x q code family seen) d := by
  refine redeeming_rule (P := (Entitled S x · d)) (fun _ => trivial) fun g hg => ?_
  intro f hf
  rw [hg.family] at hf
  cases hf
  refine ⟨k, hk, ⟨?_, ?_, ?_⟩, fun q' hq' => ?_⟩
  · rw [hg.clientId, ← hg.client, hclient]
  · rw [hg.userId, huser]
  · rw [← hscopes]
    exact hg.scopes
  · rw [hq] at hq'
    cases hq'
    refine ⟨hhash, ?_, ?_, ?_⟩
    · rw [← hclient, hg.client]
    · rw [← huri, hg.redirectUri]
    · rw [← hchallenge, ← hmethod]
      exact hg.verifier

theorem unspent_eq_self (h : k.family = none) : k.unspent = k := by
  cases k
  cases h
  rfl

theorem mem_spent_claim : (code, family) ∈ (d.claim code family).spent := mem_append_right _ mem_cons_self

theorem Lineage.row_eq (hinv : Lineage S n d) {row : AuthorizationCode}
    (hrow : row ∈ d.codes) (hk : (k, family) ∈ d.spent) (hhash : row.hash = k.hash) : row.unspent = k :=
  hinv.issued_inj _ (hinv.codes row hrow) _ (hinv.spent_issued _ hk) hhash

theorem Entitled.move (hinv : Lineage S n d) (hheld : Held S x s d) (hs : Entitled S x s d)
    (h : S.Moves x s l n d s' n' d') : Entitled S x s' d' := by
  cases h with
  | ended hr => exact entitled_quiet hr
  | consumed _ hcode =>
    obtain ⟨-, hhash⟩ := mem_of_findCode hcode
    exact entitled_redeeming hheld mem_spent_claim hhash rfl rfl rfl rfl rfl rfl
  | claimed hcode =>
    obtain ⟨-, hhash, -⟩ := mem_of_unspentCode hcode
    exact fun _ => ⟨_, mem_spent_claim, hhash⟩
  | unclaimed => exact fun h => by cases h
  | read hrow =>
    obtain ⟨k, hk, hhash⟩ := hs rfl
    obtain ⟨hmem, hrowhash⟩ := mem_of_findCode hrow
    obtain rfl := hinv.row_eq hmem hk (hrowhash.trans hhash.symm)
    have hplain := (hinv.registered _ (hinv.spent_issued _ hk)).plain
    exact entitled_redeeming hheld.1 hk hhash rfl rfl rfl rfl rfl (AuthorizationCode.read_scopes .database hplain)
  | found hrecord hclient =>
    obtain ⟨row, hrow, rfl⟩ := mem_of_findRefresh hrecord
    obtain ⟨k, hk, hwithin⟩ := hinv.refresh row hrow
    have hregistered := hinv.registered k (hinv.spent_issued _ hk)
    rw [read_clientId] at hclient
    refine ⟨k, (read_family _ row).symm ▸ hk, ?_, ?_, ?_⟩
    · rw [← hclient, hwithin.client]
    · exact read_userId _ hwithin.user hregistered.user
    · rw [read_scopes _ (hregistered.plain.subset hwithin.scopes)]
      exact hwithin.scopes
  | rotated | asked | recorded | notRecorded => exact hs
  | @renewed client record seen =>
    obtain ⟨e, heq⟩ | ⟨scopes, heq, hnarrowed⟩ := renewed_cases x client record seen
    · rw [heq]
      trivial
    · rw [heq]
      obtain ⟨k, hk, hwithin⟩ := hs
      intro f hf
      cases hf
      refine ⟨k, hk, ⟨hwithin.client, hwithin.user, ?_⟩, fun q hq => ?_⟩
      · exact Scopes.subset_trans (narrowed_ok hnarrowed).1 hwithin.scopes
      · rw [hheld.1] at hq
        cases hq
  | @storedAccess g =>
    unfold storedAccess
    split
    · rename_i hrefresh
      obtain ⟨f, hf⟩ := Option.isSome_iff_exists.mp (hheld.2.1 hrefresh)
      rw [familyOf_eq hf]
      exact hs f hf
    · rename_i hrefresh
      intro q hq
      exact absurd (hheld.2.2 (by rw [hq]; rfl)) hrefresh
  | storedRefresh =>
    obtain ⟨k, hk, -, hredeems⟩ := hs
    exact fun q hq => ⟨k, hk, hredeems q hq⟩
  | replayed | readReplayed | foundLeaked | lost | revokedAccess | revokedRefresh | notRevokedAccess
  | notRevokedRefresh | purgedCodes | purgedAccess | purgedRefresh | storedCode => trivial

/-! ### The three ways the history goes on -/

theorem Lineage.storeCode (hinv : Lineage S n d)
    (ha : Checked S a user) : Lineage S (n + 1) (d.storeCode (S.issuedCode x a user n)) := by
  -- nobody has seen the digest of a code drawn now
  have hfresh : ∀ k ∈ d.issued, k.hash ≠ (S.issuedCode x a user n).hash := by
    intro k hk heq
    obtain ⟨m, hm, hhash⟩ := hinv.issued_drawn k hk
    have := Secrets.digest_inj (hhash.symm.trans heq)
    omega
  have hissued : ∀ k ∈ (d.storeCode (S.issuedCode x a user n)).issued,
      k ∈ d.issued ∨ k = S.issuedCode x a user n := fun k hk =>
    (mem_append.mp hk).imp_right mem_singleton.mp
  refine ⟨fun k hk => ?_, fun k hk k' hk' heq => ?_, fun k hk => ?_, fun row hrow => ?_,
    fun row hrow hunspent p hp => ?_, fun p hp => ?_, hinv.spent_hash, hinv.spent_family,
    fun t ht => ?_, hinv.access, hinv.refresh⟩
  · obtain hk | rfl := hissued k hk
    · obtain ⟨m, hm, hhash⟩ := hinv.issued_drawn k hk
      exact ⟨m, lt_succ_of_lt hm, hhash⟩
    · exact ⟨n, lt_succ_self n, rfl⟩
  · obtain hk | rfl := hissued k hk
    · obtain hk' | rfl := hissued k' hk'
      · exact hinv.issued_inj k hk k' hk' heq
      · exact absurd heq (hfresh k hk)
    · obtain hk' | rfl := hissued k' hk'
      · exact absurd heq.symm (hfresh k' hk')
      · rfl
  · obtain hk | rfl := hissued k hk
    · exact hinv.registered k hk
    · exact ⟨⟨a.client, ha.client, ha.redirectUri, ha.scopes⟩, ha.plain, ha.user, rfl⟩
  · rcases mem_append.mp hrow with hrow | hrow
    · exact mem_append_left _ (hinv.codes row hrow)
    · rw [mem_singleton.mp hrow]
      exact mem_append_right _ mem_cons_self
  · rcases mem_append.mp hrow with hrow | hrow
    · exact hinv.unspent row hrow hunspent p hp
    · rw [mem_singleton.mp hrow]
      exact hfresh p.1 (hinv.spent_issued p hp)
  · exact mem_append_left _ (hinv.spent_issued p hp)
  · obtain ⟨m, hm, hfamily⟩ := hinv.access_drawn t ht
    exact ⟨m, lt_succ_of_lt hm, hfamily⟩

theorem Lineage.claim (hinv : Lineage S n d) (hdrawn : Drawn S n d)
    (hcode : code ∈ d.codes) (hunspent : code.family = none) :
    Lineage S (n + 1) (d.claim code (S.keys.family n)) := by
  have hspent : ∀ p ∈ (d.claim code (S.keys.family n)).spent, p ∈ d.spent ∨ p = (code, S.keys.family n) := fun p hp =>
    (mem_append.mp hp).imp_right mem_singleton.mp
  have hnew := hinv.unspent code hcode hunspent
  have hfresh : ∀ p ∈ d.spent, p.2 ≠ S.keys.family n := fun p hp heq =>
    hdrawn.fresh (heq ▸ mem_map_of_mem hp)
  refine ⟨fun k hk => ?_, hinv.issued_inj, hinv.registered, fun row hrow => ?_,
    fun row hrow hnone p hp => ?_, fun p hp => ?_, fun p hp p' hp' heq => ?_,
    fun p hp p' hp' heq => ?_, fun t ht => ?_, fun t ht p hp heq => ?_, fun t ht => ?_⟩
  · obtain ⟨m, hm, hhash⟩ := hinv.issued_drawn k hk
    exact ⟨m, lt_succ_of_lt hm, hhash⟩
  · obtain ⟨row0, hrow0, heq, -⟩ := mem_claim hrow
    exact heq ▸ hinv.codes row0 hrow0
  · -- a row that is still unspent is not one of the code
    obtain ⟨_, hrow0, -, ⟨rfl, hother⟩ | ⟨hfamily, -⟩⟩ := mem_claim hrow
    · obtain hp | rfl := hspent p hp
      · exact hinv.unspent row hrow0 hnone p hp
      · exact fun hhash => hother ⟨hhash.symm, hnone⟩
    · rw [hfamily] at hnone
      cases hnone
  · obtain hp | rfl := hspent p hp
    · exact hinv.spent_issued p hp
    · exact unspent_eq_self hunspent ▸ hinv.codes code hcode
  · obtain hp | rfl := hspent p hp
    · obtain hp' | rfl := hspent p' hp'
      · exact hinv.spent_hash p hp p' hp' heq
      · exact absurd heq (hnew p hp)
    · obtain hp' | rfl := hspent p' hp'
      · exact absurd heq.symm (hnew p' hp')
      · rfl
  · obtain hp | rfl := hspent p hp
    · obtain hp' | rfl := hspent p' hp'
      · exact hinv.spent_family p hp p' hp' heq
      · exact absurd heq (hfresh p hp)
    · obtain hp' | rfl := hspent p' hp'
      · exact absurd heq.symm (hfresh p' hp')
      · rfl
  · obtain ⟨m, hm, hfamily⟩ := hinv.access_drawn t ht
    exact ⟨m, lt_succ_of_lt hm, hfamily⟩
  · obtain hp | rfl := hspent p hp
    · exact hinv.access t ht p hp heq
    · -- the tokens that are there are older than the family
      obtain ⟨_, _, hfamily⟩ := hinv.access_drawn t ht
      have := Secrets.family_inj (heq.trans hfamily)
      omega
  · obtain ⟨k, hk, hwithin⟩ := hinv.refresh t ht
    exact ⟨k, mem_append_left _ hk, hwithin⟩

theorem Within.later_access {t0 t : AccessToken} (hlater : t0.Later t)
    (h : Within t0.clientId t0.userId t0.scopes k) : Within t.clientId t.userId t.scopes k := by
  rw [← hlater.1] at h
  exact h

theorem Within.later_refresh {t0 t : RefreshToken} (hlater : t0.Later t)
    (h : Within t0.clientId t0.userId t0.scopes k) : Within t.clientId t.userId t.scopes k := by
  rw [← hlater.1] at h
  exact h

theorem Lineage.tokens (hinv : Lineage S n d) (hdrawn : Drawn S n d) (hs : Entitled S x s d)
    (hheld : Held S x s d) (h : S.Moves x s l n d s' n' d') (hissued : d'.issued = d.issued)
    (hspent : d'.spent = d.spent) (hcodes : d'.codes ⊆ d.codes) : Lineage S n' d' := by
  have hlater : ∀ {P : Nat → Prop}, (∃ m < n, P m) → ∃ m < n', P m := fun ⟨m, hm, hP⟩ =>
    ⟨m, lt_of_lt_of_le hm h.next_le, hP⟩
  refine ⟨fun k hk => ?_, ?_, ?_, fun row hrow => ?_, fun row hrow hunspent => ?_, ?_, ?_, ?_,
    fun t ht => ?_, fun t ht p hp heq => ?_, fun t ht => ?_⟩
  · exact hlater (hinv.issued_drawn k (hissued ▸ hk))
  · rw [hissued]
    exact hinv.issued_inj
  · rw [hissued]
    exact hinv.registered
  · rw [hissued]
    exact hinv.codes row (hcodes hrow)
  · rw [hspent]
    exact hinv.unspent row (hcodes hrow) hunspent
  · rw [hspent, hissued]
    exact hinv.spent_issued
  · rw [hspent]
    exact hinv.spent_hash
  · rw [hspent]
    exact hinv.spent_family
  · obtain ⟨t0, ht0, hsame⟩ | ⟨g, rfl, -, rfl, rfl⟩ := h.access ht
    · rw [hsame.family]
      exact hlater (hinv.access_drawn t0 ht0)
    · show ∃ m < n + 1, S.familyOf g n = S.keys.family m
      cases hfamily : g.family with
      | none => exact ⟨n, lt_succ_self n, by unfold familyOf; rw [hfamily]; rfl⟩
      | some f =>
        obtain ⟨m, hm, hf⟩ := hdrawn.spent f (hheld.1 f hfamily)
        exact ⟨m, lt_succ_of_lt hm, (familyOf_eq hfamily).trans hf⟩
  · rw [hspent] at hp
    obtain ⟨t0, ht0, hsame⟩ | ⟨g, rfl, -, rfl, -⟩ := h.access ht
    · rw [hsame.family] at heq
      exact (hinv.access t0 ht0 p hp heq).later_access hsame
    · change p.2 = S.familyOf g n at heq
      cases hfamily : g.family with
      | none =>
        unfold familyOf at heq
        rw [hfamily] at heq
        have hfresh := mem_map.mpr ⟨p, hp, heq⟩
        exact absurd hfresh hdrawn.fresh
      | some f =>
        rw [familyOf_eq hfamily] at heq
        obtain ⟨k, hk, hwithin, -⟩ := hs f hfamily
        obtain rfl := hinv.spent_family p hp _ hk heq
        exact hwithin
  · rw [hspent]
    obtain ⟨t0, ht0, hsame⟩ | ⟨g, family, m, rfl, -, rfl⟩ := h.refresh ht
    · obtain ⟨k, hk, hwithin⟩ := hinv.refresh t0 ht0
      exact ⟨k, hsame.family ▸ hk, hwithin.later_refresh hsame⟩
    · obtain ⟨k, hk, hwithin, -⟩ := hs
      exact ⟨k, hk, hwithin⟩

theorem Lineage.move (hinv : Lineage S n d) (hdrawn : Drawn S n d) (hheld : Held S x s d)
    (hs : Entitled S x s d) (h : S.Moves x s l n d s' n' d') : Lineage S n' d' := by
  obtain hissued | ⟨a, user, rfl, rfl, rfl⟩ := h.issued
  · obtain ⟨hspent, hcodes⟩ | ⟨code, q, rfl, hcode, -, hunspent, rfl, rfl⟩ := h.spent
    · refine hinv.tokens hdrawn hs hheld h hissued hspent fun row hrow => ?_
      obtain hrow | ⟨a, user, rfl, -, rfl⟩ := hcodes row hrow
      · exact hrow
      · -- a code that is stored is issued
        cases h with
        | storedCode =>
          have hlength := congrArg List.length hissued
          rw [show (d.storeCode _).issued = d.issued ++ [_] from rfl, length_append] at hlength
          exact absurd hlength (by simp)
    · exact hinv.claim hdrawn hcode hunspent
  · exact hinv.storeCode hs

end

def lineage (S : Setting) (cond : Request → Point → World → Prop) : Outline (staging S (Identified S) cond) :=
  (families S (Identified S) cond).strengthen (Lineage S) (Entitled S) (fun hx _ _ => entitled_start hx)
    (fun hdrawn hheld hinv hs _ h => ⟨hinv.move hdrawn hheld hs h, hs.move hinv hheld h⟩)
    (fun _ _ _ _ _ _ ht _ h => ht.mono h)

theorem lineage_init (S : Setting) (cond : Request → Point → World → Prop) : (lineage S cond).inv 0 {} := by
  refine ⟨⟨?_, ?_, ?_, ?_, ?_⟩, ⟨?_, ?_, ?_, ?_, ?_, ?_, ?_, ?_, ?_, ?_, ?_⟩⟩ <;>
  · intro k hk
    cases hk

/-- A code is redeemed at most once, by its client, with its redirect URI and a verifier; the tokens of its family
    have its client and user, and scopes among its own. -/
theorem code_redeemed_once (S : Setting) {c : Config Request Point World Write (Except Failure Reply)}
    (hc : (system S (Identified S) fun _ _ _ => True).Reachable {} c) :
    (∀ (i j : Nat) x y q q' response response' f f',
      c.calls[i]? = some (x, .ret (.ok (.tokens response f))) → S.codeOf x = some q →
      c.calls[j]? = some (y, .ret (.ok (.tokens response' f'))) → S.codeOf y = some q' →
      S.keys.digest q.presented = S.keys.digest q'.presented → i = j) ∧
    (∀ (i : Nat) x q response f, c.calls[i]? = some (x, .ret (.ok (.tokens response f))) →
      S.codeOf x = some q → ∃ k ∈ c.db.issued, (k, f) ∈ c.db.spent ∧ Redeems S q k) ∧
    ∀ k f, (k, f) ∈ c.db.spent → Registered S k ∧
      (∀ t ∈ c.db.access, t.family = f → Within t.clientId t.userId t.scopes k) ∧
      ∀ t ∈ c.db.refresh, t.family = f → Within t.clientId t.userId t.scopes k := by
  let σ := staging S (Identified S) fun _ _ _ => True
  let O := lineage S fun _ _ _ => True
  obtain ⟨a, ha, rfl⟩ := σ.of_reachable hc
  have hfits : O.Fits a := O.fits_of_reachable (lineage_init S _) ha
  have hinv := hfits.inv.2
  -- a call that has answered with tokens stands in the last stage
  have hstage : ∀ {i : Nat} {x : Request} {response f},
      (σ.config a).calls[i]? = some (x, .ret (.ok (.tokens response f))) →
      a.calls[i]? = some (x, .finished (.ok (.tokens response f))) := by
    intro i x response f hcall
    obtain ⟨_, hget, hrest⟩ := σ.of_call hcall
    obtain rfl := S.finished_of_rest x hrest
    exact hget
  refine ⟨?_, ?_, fun k f hk => ⟨?_, fun t ht htf => ?_, fun t ht htf => ?_⟩⟩
  · intro i j x y q q' response response' f f' hi hq hj hq' hdigest
    obtain ⟨k, hk, hredeems⟩ := (hfits.holds (hstage hi)).2 q hq
    obtain ⟨k', hk', hredeems'⟩ := (hfits.holds (hstage hj)).2 q' hq'
    have hhash : k.hash = k'.hash := by rw [hredeems.hash, hredeems'.hash, hdigest]
    cases hinv.spent_hash _ hk _ hk' hhash
    -- two requests never draw the same family
    by_contra hij
    refine hfits.apart hij (hstage hi) (hstage hj) f (own_eq_some.mpr ⟨?_, rfl⟩) (own_eq_some.mpr ⟨?_, rfl⟩)
    · rw [hq]
      rfl
    · rw [hq']
      rfl
  · intro i x q response f hi hq
    obtain ⟨k, hk, hredeems⟩ := (hfits.holds (hstage hi)).2 q hq
    exact ⟨k, hinv.spent_issued _ hk, hk, hredeems⟩
  · exact hinv.registered k (hinv.spent_issued _ hk)
  · exact hinv.access t ht (k, f) hk htf.symm
  · obtain ⟨_, hk', hwithin⟩ := hinv.refresh t ht
    obtain ⟨rfl, -⟩ := Prod.mk.inj (hinv.spent_family _ hk' _ hk htf)
    exact hwithin

instance (S : Setting) : DecidablePred (Identified S) := fun x =>
  match h : x.call with
  | .showConsent _ (some user) =>
    decidable_of_iff (S.tokensIn = .memory ∨ user ≠ "") (by unfold Identified; rw [h])
  | .decideConsent _ (some user) =>
    decidable_of_iff (S.tokensIn = .memory ∨ user ≠ "") (by unfold Identified; rw [h])
  | .showConsent _ none | .decideConsent _ none | .token .. | .validateBearer _ | .purge =>
    isTrue (by unfold Identified; rw [h]; trivial)

theorem code_redeemed_once_of_refresh :
    ∃ c, (system (server .database) (Identified (server .database)) fun _ _ _ => True).Reachable {} c ∧
      ∃ k, (k, "xxxx") ∈ c.db.spent ∧ c.db.access.length = 2 ∧
        ∀ t ∈ c.db.access, t.family = "xxxx" → Within t.clientId t.userId t.scopes k := by
  let sys := system (server .database) (Identified (server .database)) fun _ _ _ => True
  obtain ⟨c, hc, hfamilies, hlength⟩ : ∃ c, sys.Reachable {} c ∧
      c.db.families = ["xxxx"] ∧ c.db.access.length = 2 := by
    obtain ⟨c, hc, h⟩ := sys.play_reachable [.call (agree "7"), .advance 0, .advance 0,
        .call (redeemCode "x"), .advance 1, .advance 1, .advance 1, .advance 1,
        .call (refreshWith "xxxxxxx"), .advance 2, .advance 2, .advance 2, .advance 2, .advance 2] {}
      (fun c => (c.db.families, c.db.access.length)) (v := (["xxxx"], 2)) (by decide +kernel)
    exact ⟨c, hc, Prod.mk.inj h⟩
  have hmem : "xxxx" ∈ c.db.families := by
    rw [hfamilies]
    exact mem_cons_self
  obtain ⟨⟨k, _⟩, hk, rfl⟩ := mem_map.mp hmem
  exact ⟨c, hc, k, hk, hlength, ((code_redeemed_once (server .database) hc).2.2 k _ hk).2.1⟩

/-- The same for a user whose id is empty: the second access token has no user. -/
theorem user_lost : ∃ c, (system (server .database) (fun _ => True) fun _ _ _ => True).Reachable {} c ∧
      ∃ k f, (k, f) ∈ c.db.spent ∧ ∃ t ∈ c.db.access, t.family = f ∧ t.userId ≠ some k.userId := by
  let sys := system (server .database) (fun _ => True) fun _ _ _ => True
  obtain ⟨c, hc, h⟩ := sys.play_reachable [.call (agree ""), .advance 0, .advance 0,
      .call (redeemCode "x"), .advance 1, .advance 1, .advance 1, .advance 1,
      .call (refreshWith "xxxxxxx"), .advance 2, .advance 2, .advance 2, .advance 2, .advance 2] {}
    (fun c => (c.db.families, c.db.access.map fun t => (t.family, t.userId)))
    (v := (["xxxx"], [("xxxx", some ""), ("xxxx", none)])) (by decide +kernel)
  obtain ⟨hfamilies, haccess⟩ := Prod.mk.inj h
  have hspent : "xxxx" ∈ c.db.families := by
    rw [hfamilies]
    exact mem_cons_self
  have htoken : ("xxxx", none) ∈ c.db.access.map fun t => (t.family, t.userId) := by
    rw [haccess]
    exact mem_cons_of_mem _ mem_cons_self
  obtain ⟨⟨k, _⟩, hk, rfl⟩ := mem_map.mp hspent
  obtain ⟨t, ht, heq⟩ := mem_map.mp htoken
  obtain ⟨hfamily, huser⟩ := Prod.mk.inj heq
  refine ⟨c, hc, k, _, hk, t, ht, hfamily, ?_⟩
  rw [huser]
  exact (Option.some_ne_none _).symm

end Rustlavel.OAuth
