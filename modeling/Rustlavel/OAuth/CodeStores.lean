/-
  The two stores of authorisation codes side by side, each as a machine that answers calls to `store`, `consume`
  and `purge` one after the other.
-/

import Rustlavel.Lib.Machine
import Rustlavel.OAuth.Steps

namespace Rustlavel.OAuth

open List Option Function

abbrev Codes := String → Option AuthorizationCode

def defaultRetention : Nat := 600

/-! ## The stores -/

namespace MemoryCodeStore

def store (codes : Codes) (code : AuthorizationCode) : Codes := update codes code.hash (some code)

def consume (codes : Codes) (hash family : String) (now : Nat) : Codes × Consumption :=
  match codes hash with
  | none => (codes, .unknown)
  | some code =>
    if code.family.isSome then (codes, .replayed code.family)
    else if code.expiresAt ≤ now then (codes, .expired)
    else
      let code := { code with family := some family }
      (update codes hash (some code), .fresh code)

def purge (codes : Codes) (now : Nat) : Codes :=
  fun hash => (codes hash).filter (AuthorizationCode.kept defaultRetention now .memory)

end MemoryCodeStore

namespace DatabaseCodeStore

/-- The digest is unique, so a second insert fails; the family is not among the columns that are written. -/
def store (codes : Codes) (code : AuthorizationCode) : Codes :=
  match codes code.hash with
  | some _ => codes
  | none => update codes code.hash (some code.unspent)

/-- `UPDATE … WHERE consumed_at IS NULL`, and whether it changed a row. -/
def claim (codes : Codes) (hash family : String) : Codes × Bool :=
  match codes hash with
  | some row =>
    if row.family = none then (update codes hash (some { row with family := some family }), true)
    else (codes, false)
  | none => (codes, false)

def consume (codes : Codes) (hash family : String) (now : Nat) : Codes × Consumption :=
  let (codes, claimed) := claim codes hash family
  (codes, Setting.consumption { call := .purge, now } claimed (codes hash))

def purge (codes : Codes) (now : Nat) : Codes :=
  fun hash => (codes hash).filter (AuthorizationCode.kept defaultRetention now .database)

end DatabaseCodeStore

inductive StoreCall where
  | store (code : AuthorizationCode)
  | consume (hash family : String) (now : Nat)
  | purge (now : Nat)

def StoreCall.time : StoreCall → Option Nat
  | .store _ => none
  | .consume _ _ now | .purge now => some now

def memoryStore : Machine (Codes × List String) StoreCall (Option Consumption) where
  step
    | (codes, late), .store code => ((MemoryCodeStore.store codes code, late), none)
    | (codes, late), .consume hash family now =>
      let (codes', answer) := MemoryCodeStore.consume codes hash family now
      ((codes', match answer with
        | .expired => hash :: late
        | _ => late), some answer)
    | (codes, late), .purge now => ((MemoryCodeStore.purge codes now, late), none)

def databaseStore : Machine Codes StoreCall (Option Consumption) where
  step
    | codes, .store code => (DatabaseCodeStore.store codes code, none)
    | codes, .consume hash family now =>
      let (codes, answer) := DatabaseCodeStore.consume codes hash family now
      (codes, some answer)
    | codes, .purge now => (DatabaseCodeStore.purge codes now, none)

/-! ## When they agree -/

structure Storable (code : AuthorizationCode) : Prop where
  plain : code.scopes.Plain
  issuedAt : code.issuedAt < 2 ^ 63
  expiresAt : code.expiresAt < 2 ^ 63

/-- A new code is unspent and not there yet, an expired one is not presented again, and nothing is purged within ten
    minutes of an expiry. -/
def Calm : Codes × List String → StoreCall → Prop
  | (codes, _), .store code => codes code.hash = none ∧ code.family = none ∧ Storable code
  | (_, late), .consume hash family _ => family ≠ "" ∧ hash ∉ late
  | (codes, _), .purge now => now < 2 ^ 63 ∧ ∀ hash code, codes hash = some code →
      now ≤ code.expiresAt ∨ code.expiresAt + defaultRetention ≤ now

/-- A record of the map and its row: the same code, spent for the same family unless it had expired. -/
structure SameCode (late : List String) (hash : String) (code row : AuthorizationCode) : Prop where
  same : row.unspent = code.unspent
  storable : Storable code
  family : ∀ f, code.family = some f → f ≠ ""
  spent : row.family = code.family ∨ code.family = none ∧ hash ∈ late

def SameCodes : Codes × List String → Codes → Prop
  | (codes, late), rows => ∀ hash, codes hash = none ∧ rows hash = none ∨
        ∃ code row, codes hash = some code ∧ rows hash = some row ∧ SameCode late hash code row

theorem number_of_lt {x : Nat} (h : x < 2 ^ 63) : number x = x := by
  unfold number asI64
  rw [if_pos h]
  exact Int.toNat_natCast x

theorem Storable.read {code : AuthorizationCode} (h : Storable code)
    (hfamily : ∀ f, code.family = some f → f ≠ "") : code.read .database = code := by
  have hoptional : optional code.family = code.family := by
    cases hf : code.family with
    | none => rfl
    | some f => exact optional_some (hfamily f hf)
  show { code with scopes := _, issuedAt := _, expiresAt := _, family := _ } = code
  rw [Scopes.parse_display h.plain, number_of_lt h.issuedAt, number_of_lt h.expiresAt, hoptional]

section

variable {codes rows : Codes} {late : List String} {hash family : String} {now : Nat}
  {code row : AuthorizationCode} {s : Codes × List String}

theorem SameCode.eq (h : SameCode late hash code row) (hlate : hash ∉ late) : row = code := by
  have hfamily := h.spent.resolve_right fun hspent => hlate hspent.2
  have hsame := h.same
  cases row
  cases code
  simp only [AuthorizationCode.unspent, AuthorizationCode.mk.injEq] at hsame hfamily ⊢
  tauto

theorem SameCodes.storable (h : SameCodes s rows) (hcode : s.1 hash = some code) : Storable code := by
  obtain ⟨hnone, -⟩ | ⟨code', row, hcode', -, hsame⟩ := h hash
  · cases hcode.symm.trans hnone
  · cases hcode.symm.trans hcode'
    exact hsame.storable

theorem SameCodes.mono {late' : List String} (h : SameCodes (codes, late) rows) (hlate : late ⊆ late') :
    SameCodes (codes, late') rows := by
  intro hash
  obtain hnone | ⟨code, row, hcode, hrow, hsame⟩ := h hash
  · exact .inl hnone
  · exact .inr ⟨code, row, hcode, hrow, hsame.same, hsame.storable, hsame.family,
      hsame.spent.imp_right (And.imp_right (@hlate hash))⟩

theorem SameCodes.update (h : SameCodes (codes, late) rows) (hsame : SameCode late hash code row) :
    SameCodes (update codes hash (some code), late) (update rows hash (some row)) := by
  intro other
  by_cases hother : other = hash
  · subst hother
    exact .inr ⟨code, row, update_self .., update_self .., hsame⟩
  · rw [update_of_ne hother, update_of_ne hother]
    exact h other

theorem SameCodes.store (h : SameCodes (codes, late) rows) (hcalm : Calm (codes, late) (.store code)) :
    SameCodes (MemoryCodeStore.store codes code, late) (DatabaseCodeStore.store rows code) := by
  obtain ⟨hnew, hunspent, hstorable⟩ := hcalm
  have hrow : rows code.hash = none := by
    obtain ⟨-, hnone⟩ | ⟨_, _, hcode, -⟩ := h code.hash
    · exact hnone
    · rw [hnew] at hcode
      cases hcode
  unfold DatabaseCodeStore.store
  rw [hrow]
  have hspent : ∀ f, code.family = some f → f ≠ "" := by
    intro f hf
    rw [hunspent] at hf
    cases hf
  exact h.update ⟨rfl, hstorable, hspent, .inl hunspent.symm⟩

theorem SameCodes.purge (h : SameCodes (codes, late) rows) (hcalm : Calm (codes, late) (.purge now)) :
    SameCodes (MemoryCodeStore.purge codes now, late) (DatabaseCodeStore.purge rows now) := by
  obtain ⟨hnow, hclear⟩ := hcalm
  intro hash
  obtain ⟨hcode, hrow⟩ | ⟨code, row, hcode, hrow, hsame⟩ := h hash
  · refine .inl ⟨?_, ?_⟩
    · show (codes hash).filter _ = none
      rw [hcode]
      rfl
    · show (rows hash).filter _ = none
      rw [hrow]
      rfl
  · -- both keep the code, or neither does
    have hkept : row.kept defaultRetention now .database = code.kept defaultRetention now .memory := by
      have hexpires : row.unspent.expiresAt = code.unspent.expiresAt := by rw [hsame.same]
      change row.expiresAt = code.expiresAt at hexpires
      have hbound := hsame.storable.expiresAt
      have hclear := hclear hash code hcode
      show (!decide (asI64 row.expiresAt < asI64 now)) =
        decide (now < saturatingAdd code.expiresAt defaultRetention)
      rw [hexpires, ← decide_not, decide_eq_decide]
      unfold asI64 saturatingAdd defaultRetention at *
      omega
    by_cases hkeep : code.kept defaultRetention now .memory = true
    · refine .inr ⟨code, row, ?_, ?_, hsame⟩
      · show (codes hash).filter _ = some code
        rw [hcode, filter_some, if_pos hkeep]
      · show (rows hash).filter _ = some row
        rw [hrow, filter_some, if_pos (hkept.trans hkeep)]
    · refine .inl ⟨?_, ?_⟩
      · show (codes hash).filter _ = none
        rw [hcode, filter_some, if_neg hkeep]
      · show (rows hash).filter _ = none
        rw [hrow, filter_some, hkept, if_neg hkeep]

theorem SameCodes.consume (h : SameCodes (codes, late) rows) (hcalm : Calm (codes, late) (.consume hash family now)) :
    SameCodes (memoryStore.step (codes, late) (.consume hash family now)).1
        (DatabaseCodeStore.consume rows hash family now).1 ∧
      (MemoryCodeStore.consume codes hash family now).2 = (DatabaseCodeStore.consume rows hash family now).2 := by
  obtain ⟨hfamily, hlate⟩ := hcalm
  show SameCodes ((MemoryCodeStore.consume codes hash family now).1,
    match (MemoryCodeStore.consume codes hash family now).2 with
    | .expired => hash :: late
    | _ => late) _ ∧ _
  obtain ⟨hcode, hrow⟩ | ⟨code, row, hcode, hrow, hsame⟩ := h hash
  · have hmemory : MemoryCodeStore.consume codes hash family now = (codes, .unknown) := by
      unfold MemoryCodeStore.consume
      rw [hcode]
    have htable : DatabaseCodeStore.consume rows hash family now = (rows, .unknown) := by
      unfold DatabaseCodeStore.consume DatabaseCodeStore.claim
      rw [hrow]
      dsimp only
      rw [hrow]
      rfl
    rw [hmemory, htable]
    exact ⟨h, rfl⟩
  · obtain rfl := hsame.eq hlate
    cases hspent : row.family with
    | some spentFor =>
      have hmemory : MemoryCodeStore.consume codes hash family now = (codes, .replayed (some spentFor)) := by
        unfold MemoryCodeStore.consume
        rw [hcode]
        dsimp only
        rw [hspent]
        rfl
      have htable : DatabaseCodeStore.consume rows hash family now = (rows, .replayed (some spentFor)) := by
        unfold DatabaseCodeStore.consume DatabaseCodeStore.claim
        rw [hrow]
        dsimp only
        rw [if_neg (by rw [hspent]; exact some_ne_none _)]
        dsimp only
        rw [hrow]
        show (rows, Consumption.replayed (optional row.family)) = _
        rw [hspent, optional_some (hsame.family _ hspent)]
      rw [hmemory, htable]
      exact ⟨h, rfl⟩
    | none =>
      have htable : DatabaseCodeStore.consume rows hash family now =
          (Function.update rows hash (some { row with family := some family }),
            if row.expiresAt ≤ now then .expired else .fresh { row with family := some family }) := by
        have hread : ({ row with family := some family } : AuthorizationCode).read .database =
            { row with family := some family } :=
          Storable.read ⟨hsame.storable.plain, hsame.storable.issuedAt, hsame.storable.expiresAt⟩
            fun f hf => by cases hf; exact hfamily
        unfold DatabaseCodeStore.consume DatabaseCodeStore.claim
        rw [hrow]
        dsimp only
        rw [if_pos hspent]
        dsimp only
        rw [Function.update_self]
        show (_, if (AuthorizationCode.read _ _).expiresAt ≤ now then Consumption.expired else .fresh _) = _
        rw [hread]
      have hmemory : MemoryCodeStore.consume codes hash family now =
          if row.expiresAt ≤ now then (codes, .expired)
          else (Function.update codes hash (some { row with family := some family }),
            .fresh { row with family := some family }) := by
        unfold MemoryCodeStore.consume
        rw [hcode]
        dsimp only
        rw [if_neg (by rw [hspent]; exact Bool.false_ne_true)]
      rw [hmemory, htable]
      by_cases hexpired : row.expiresAt ≤ now
      · rw [if_pos hexpired, if_pos hexpired]
        refine ⟨?_, rfl⟩
        -- the table has spent the code, the map has not
        show SameCodes (codes, hash :: late) (Function.update rows hash (some { row with family := some family }))
        intro other
        by_cases hother : other = hash
        · subst hother
          exact .inr ⟨row, { row with family := some family }, hcode, Function.update_self ..,
            rfl, hsame.storable, hsame.family, .inr ⟨hspent, mem_cons_self⟩⟩
        · rw [Function.update_of_ne hother]
          exact h.mono (subset_cons_self hash late) other
      · rw [if_neg hexpired, if_neg hexpired]
        refine ⟨h.update ⟨rfl, ?_, fun f hf => by cases hf; exact hfamily, .inl rfl⟩, rfl⟩
        exact ⟨hsame.storable.plain, hsame.storable.issuedAt, hsame.storable.expiresAt⟩

theorem SameCodes.step {i : StoreCall} (h : SameCodes s rows)
    (hcalm : Calm s i) : SameCodes (memoryStore.step s i).1 (databaseStore.step rows i).1 ∧
      (memoryStore.step s i).2 = (databaseStore.step rows i).2 := by
  obtain ⟨_, _⟩ := s
  cases i with
  | store => exact ⟨h.store hcalm, rfl⟩
  | purge => exact ⟨h.purge hcalm, rfl⟩
  | consume =>
    obtain ⟨hnext, hanswer⟩ := h.consume hcalm
    exact ⟨hnext, congrArg some hanswer⟩

end

/-! ## Whole sequences of calls -/

def noCodes : Codes := fun _ => none

theorem sameCodes_noCodes : SameCodes (noCodes, []) noCodes := fun _ => .inl ⟨rfl, rfl⟩

variable {k : AuthorizationCode} {hash f : String} {now : Nat} {codes : Codes}

theorem spent_kept {mid : List StoreCall} {s : Codes × List String} (hk : s.1 hash = some k) (hf : k.family = some f)
    (hnow : now < saturatingAdd k.expiresAt defaultRetention)
    (hmid : ∀ t, StoreCall.purge t ∈ mid → t ≤ now) (hcalm : memoryStore.Guarded Calm s mid) :
    (memoryStore.after s mid).1 hash = some k := by
  induction mid generalizing s with
  | nil => exact hk
  | cons i mid ih =>
    obtain ⟨codes, late⟩ := s
    refine ih ?_ (fun t ht => hmid t (mem_cons_of_mem i ht)) hcalm.2
    cases i with
    | store code =>
      -- a new code has another digest
      have hne : hash ≠ code.hash := by
        rintro rfl
        have hnew := hcalm.1.1
        rw [show codes code.hash = some k from hk] at hnew
        cases hnew
      show update codes code.hash (some code) hash = some k
      rw [update_of_ne hne]
      exact hk
    | purge t =>
      have ht : t ≤ now := hmid t mem_cons_self
      show (codes hash).filter (AuthorizationCode.kept defaultRetention t .memory) = some k
      rw [show codes hash = some k from hk]
      refine filter_eq_some_iff.mpr ⟨rfl, ?_⟩
      unfold AuthorizationCode.kept
      exact decide_eq_true (Nat.lt_of_le_of_lt ht hnow)
    | consume hash' family t =>
      show (MemoryCodeStore.consume codes hash' family t).1 hash = some k
      unfold MemoryCodeStore.consume
      cases hcode : codes hash' with
      | none => exact hk
      | some code =>
        dsimp only
        split
        · exact hk
        · rename_i hunspent
          split
          · exact hk
          · -- the code that is spent now is another one
            have hne : hash ≠ hash' := by
              rintro rfl
              rw [show codes hash = some k from hk] at hcode
              cases hcode
              rw [hf] at hunspent
              exact hunspent rfl
            show update codes hash' _ hash = some k
            rw [update_of_ne hne]
            exact hk

theorem consume_fresh (h : (MemoryCodeStore.consume codes hash f now).2 = .fresh k) :
    (MemoryCodeStore.consume codes hash f now).1 hash = some k ∧ k.family = some f := by
  unfold MemoryCodeStore.consume at h ⊢
  cases hcode : codes hash with
  | none =>
    rw [hcode] at h
    cases h
  | some code =>
    rw [hcode] at h
    dsimp only at h ⊢
    split at h
    · cases h
    · rename_i hunspent
      split at h
      · cases h
      · rename_i hlive
        cases h
        rw [if_neg hunspent, if_neg hlive]
        exact ⟨update_self .., rfl⟩

theorem consume_spent {f' : String} (hk : codes hash = some k) (hf : k.family = some f) :
    (MemoryCodeStore.consume codes hash f' now).2 = .replayed (some f) := by
  unfold MemoryCodeStore.consume
  rw [hk]
  dsimp only
  rw [hf]
  rfl

/-- On calm calls the two stores answer alike, and a code presented again within ten minutes of its expiry is a
    replay of its family to both. -/
theorem stores_agree (calls : List StoreCall) : (memoryStore.Guarded Calm (noCodes, []) calls →
      memoryStore.outputs (noCodes, []) calls = databaseStore.outputs noCodes calls) ∧
    ∀ (pre mid : List StoreCall) (hash f f' : String) (now now' : Nat) (k : AuthorizationCode),
      let first := StoreCall.consume hash f now
      let again := StoreCall.consume hash f' now'
      memoryStore.Guarded Calm (noCodes, []) ((pre ++ first :: mid) ++ [again]) →
      (((pre ++ first :: mid) ++ [again]).filterMap StoreCall.time).Pairwise (· ≤ ·) →
      (databaseStore.step (databaseStore.after noCodes pre) first).2 = some (.fresh k) →
      now' < k.expiresAt + defaultRetention →
      (databaseStore.step (databaseStore.after noCodes (pre ++ first :: mid)) again).2
        = some (.replayed (some f)) := by
  refine ⟨fun hcalm => (hcalm.lockstep SameCodes.step sameCodes_noCodes).2, ?_⟩
  intro pre mid hash f f' now now' k first again hcalm hclock hfresh hnow'
  obtain ⟨hcalm, hlast⟩ := Machine.guarded_append.mp hcalm
  obtain ⟨hpre, hcalm⟩ := Machine.guarded_append.mp hcalm
  -- the table answers as the map does
  obtain ⟨hsame, -⟩ := hpre.lockstep SameCodes.step sameCodes_noCodes
  obtain ⟨-, hanswer⟩ := hsame.step hcalm.1
  rw [hfresh] at hanswer
  obtain ⟨hk, hf⟩ := consume_fresh (some.inj hanswer)
  -- every purge in between was at a time at which the map keeps the code
  have hpurges : ∀ t, StoreCall.purge t ∈ mid → t ≤ now' := by
    intro t ht
    rw [filterMap_append] at hclock
    refine (pairwise_append.mp hclock).2.2 t ?_ now' mem_cons_self
    exact mem_filterMap.mpr ⟨.purge t, mem_append_right pre (mem_cons_of_mem first ht), rfl⟩
  have hbound : now' < saturatingAdd k.expiresAt defaultRetention := by
    have hexpires := ((hsame.step hcalm.1).1.storable hk).expiresAt
    unfold saturatingAdd defaultRetention at *
    omega
  have hkept := spent_kept (s := (memoryStore.step (memoryStore.after (noCodes, []) pre) first).1) hk hf
    hbound hpurges hcalm.2
  have hboth := Machine.guarded_append.mpr ⟨hpre, hcalm⟩
  obtain ⟨hsame'', -⟩ := hboth.lockstep SameCodes.step sameCodes_noCodes
  obtain ⟨-, hlastAnswer⟩ := hsame''.step hlast.1
  rw [← hlastAnswer]
  refine congrArg some (consume_spent (k := k) ?_ hf)
  rw [Machine.after_append]
  exact hkept

def minuteCode : AuthorizationCode where
  hash := "c"
  clientId := "app"
  redirectUri := "https://a.test/cb"
  userId := "u"
  scopes := .parse "read"
  challenge := "v"
  challengeMethod := .s256
  issuedAt := 0
  expiresAt := 60

theorem minuteCode_storable : Storable minuteCode := ⟨Scopes.plain_parse "read", by decide, by decide⟩

theorem stores_agree_of_early_purge : (databaseStore.step
      (databaseStore.after noCodes [.store minuteCode, .consume "c" "f" 10, .purge 59])
      (.consume "c" "g" 61)).2 = some (.replayed (some "f")) := by
  refine (stores_agree []).2 [.store minuteCode] [.purge 59] "c" "f" "g" 10 61
    { minuteCode with family := some "f" } ?_ (by decide) (by decide +kernel) (by decide)
  refine ⟨⟨rfl, rfl, minuteCode_storable⟩, ⟨by decide, not_mem_nil⟩, ⟨by decide, ?_⟩,
    ⟨by decide, not_mem_nil⟩, trivial⟩
  -- the one code there is good for a second more
  intro hash code hcode
  left
  by_cases hhash : hash = "c"
  · subst hhash
    cases hcode
    decide
  · have hnone : update (update noCodes "c" (some minuteCode)) "c"
        (some { minuteCode with family := some "f" }) hash = some code := hcode
    rw [update_of_ne hhash, update_of_ne hhash] at hnone
    cases hnone

/-- The same with a purge one second after the code expired: the table no longer knows it. -/
theorem stores_differ :
    let calls := [.store minuteCode, .consume "c" "f" 10, .purge 61, .consume "c" "g" 61]
    (calls.filterMap StoreCall.time).Pairwise (· ≤ ·) ∧ memoryStore.outputs (noCodes, []) calls =
        [none, some (.fresh { minuteCode with family := some "f" }), none, some (.replayed (some "f"))] ∧
      databaseStore.outputs noCodes calls =
        [none, some (.fresh { minuteCode with family := some "f" }), none, some .unknown] := by
  decide +kernel

end Rustlavel.OAuth
