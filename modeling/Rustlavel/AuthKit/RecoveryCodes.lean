/-
  Recovery codes under concurrent requests.
-/

import Rustlavel.AuthKit.Mfa
import Rustlavel.Lib.Stages

namespace Rustlavel.AuthKit

open Transact Auth List

/-! ## The row of a code -/

variable {hashes : List String}

theorem not_mem_eraseIdx (hnodup : hashes.Nodup) {i : Nat} (hi : i < hashes.length)
    {x : String} (hx : x ∈ hashes) : x ∉ hashes.eraseIdx i ↔ x = hashes[i] := by
  rw [← hnodup.erase_getElem i hi, hnodup.mem_erase_iff]
  tauto

theorem spent_row {verifyPassword : String → String → Bool} {code : String} {rows : List RecoveryRow}
    (hnodup : (rows.map (·.codeHash)).Nodup)
    (h : consumeRecoveryCode verifyPassword code (rows.map (·.codeHash)) = some hashes) :
    ∃ row ∈ rows, (rows.find? fun row => row.codeHash ∉ hashes) = some row ∧
      verifyPassword (normalise code) row.codeHash = true := by
  unfold consumeRecoveryCode at h
  dsimp only at h
  split at h
  · cases h
  · obtain ⟨i, hfound, rfl⟩ := Option.map_eq_some_iff.mp h
    obtain ⟨hi, hmatch, -⟩ := List.findIdx?_eq_some_iff_getElem.mp hfound
    have hi' : i < rows.length := by rwa [length_map] at hi
    cases hrow : rows.find? fun row => row.codeHash ∉ (rows.map (·.codeHash)).eraseIdx i with
    | none =>
      have hall := List.find?_eq_none.mp hrow rows[i] (getElem_mem hi')
      have hmem : rows[i].codeHash ∈ rows.map (·.codeHash) := mem_map_of_mem (getElem_mem hi')
      refine absurd ?_ hall
      rw [decide_eq_true_iff, not_mem_eraseIdx hnodup hi hmem, getElem_map]
    | some row =>
      have hrows := mem_of_find?_eq_some hrow
      have hgone : row.codeHash ∉ (rows.map (·.codeHash)).eraseIdx i := by
        simpa using List.find?_some hrow
      refine ⟨row, hrows, rfl, ?_⟩
      rw [(not_mem_eraseIdx hnodup hi (mem_map_of_mem hrows)).mp hgone]
      exact hmatch

/-! ## Stages -/

inductive Stage where
  | readingTotp (user : Int) (code : String)
  | recording (user id step : Int)
  | readingCodes (user : Int) (code : String)
  | marking (user : Int) (row : RecoveryRow)
  | admitting (user : Int) (spent : Option Int)
  | finished (r : Reply)

namespace Kit

variable (K : Kit)

def checking (user : Int) (code : String) (now : Nat) : Option TotpRow → Stage
  | none => .finished .toLogin
  | some row =>
    match K.totp row.secretEncrypted with
    | .error message => .finished (.failed message)
    | .ok T =>
      if !T.verify K.hmac code now then .finished (.refused notRight)
      else if row.lastStep.any fun last => decide ((stepOf now T.period : Int) ≤ last) then
        .finished (.refused alreadyUsed)
      else .recording user row.id (stepOf now T.period)

def spending (user : Int) (code : String) (rows : List RecoveryRow) : Stage :=
  match consumeRecoveryCode K.verifyPassword code (rows.map (·.codeHash)) with
  | none => .finished (.refused notValid)
  | some hashes =>
    match rows.find? fun row => row.codeHash ∉ hashes with
    | some row => .marking user row
    | none => .admitting user none

variable (x : Attempt) (cond : Attempt → Point → Accounts → Prop)

def start : Stage :=
  match x.pending, x.call with
  | none, _ => .finished .toLogin
  | some user, .verify code =>
    if x.blocked || x.blockedAgain then .finished (.refused tooMany) else .readingTotp user code
  | some user, .recovery code => .readingCodes user code

def rest : Stage → Prog Point Accounts Write Reply
  | .readingTotp user code => .step .readTotp (.select fun d => .ret (.commit (d.confirmedTotp user)))
      (K.checkCode user code x.now)
  | .recording user id step =>
    .step .recordStep (.update (fun _ => some (.lastStep id step)) fun _ => .ret (.commit ()))
      fun _ => complete user none
  | .readingCodes user code => .step .readCodes (.select fun d => .ret (.commit (d.unusedCodes user)))
      (K.spendCode user code)
  | .marking user row =>
    .step (.markUsed row) (.update (fun _ => some (.used row.id)) fun _ => .ret (.commit ()))
      fun _ => complete user (some row.id)
  | .admitting user spent => complete user spent
  | .finished r => .ret r

inductive Moves (x : Attempt) : Stage → Point → Nat → Accounts → Stage → Nat → Accounts → Prop where
  | totpRead {user code n d} :
      Moves x (.readingTotp user code) .readTotp n d (K.checking user code x.now (d.confirmedTotp user)) n d
  | recorded {user id step n d} :
      Moves x (.recording user id step) .recordStep n d (.admitting user none) n (d.recordStep id step)
  | codesRead {user code n d} :
      Moves x (.readingCodes user code) .readCodes n d (K.spending user code (d.unusedCodes user)) n d
  | marked {user row n d} :
      Moves x (.marking user row) (.markUsed row) n d (.admitting user (some row.id)) n (d.markUsed row.id)
  | found {user spent n d} (h : user ∈ d.users) :
      Moves x (.admitting user spent) .findUser n d (.finished (.admitted spent)) n d
  | unknown {user spent n d} (h : user ∉ d.users) :
      Moves x (.admitting user spent) .findUser n d (.finished .toLogin) n d

theorem rest_checking (user : Int) (code : String) (row : Option TotpRow) :
    K.rest x (K.checking user code x.now row) = K.checkCode user code x.now row := by
  cases row with
  | none => rfl
  | some row =>
    unfold checking checkCode
    dsimp only
    cases K.totp row.secretEncrypted with
    | error => rfl
    | ok =>
      dsimp only
      split
      · rfl
      · split <;> rfl

theorem rest_spending (user : Int) (code : String) (rows : List RecoveryRow) :
    K.rest x (K.spending user code rows) = K.spendCode user code rows := by
  unfold spending spendCode
  cases consumeRecoveryCode K.verifyPassword code (rows.map (·.codeHash)) with
  | none => rfl
  | some hashes =>
    dsimp only
    cases rows.find? fun row => row.codeHash ∉ hashes <;> rfl

theorem rest_start : K.program x = K.rest x (start x) := by
  unfold program start
  cases hcall : x.call with
  | verify =>
    unfold verify
    cases x.pending with
    | none => rfl
    | some =>
      dsimp only
      split <;> rfl
  | recovery =>
    unfold recovery
    cases x.pending <;> rfl

theorem goes_rest (st : Stage) :
    (K.rest x st).Goes fun l n d q n' d' => ∃ st', K.rest x st' = q ∧ K.Moves x st l n d st' n' d' := by
  cases st with
  | readingTotp user code =>
    intro n d b n' d' hrun
    cases hrun
    exact ⟨_, K.rest_checking x user code _, .totpRead⟩
  | recording user =>
    intro n d b n' d' hrun
    cases hrun
    exact ⟨.admitting user none, rfl, .recorded⟩
  | readingCodes user code =>
    intro n d b n' d' hrun
    cases hrun
    exact ⟨_, K.rest_spending x user code _, .codesRead⟩
  | marking user row =>
    intro n d b n' d' hrun
    cases hrun
    exact ⟨.admitting user (some row.id), rfl, .marked⟩
  | admitting user spent =>
    intro n d b n' d' hrun
    cases hrun
    by_cases hfound : user ∈ d.users
    · exact ⟨.finished (.admitted spent), by rw [decide_eq_true hfound]; rfl, .found hfound⟩
    · exact ⟨.finished .toLogin, by rw [decide_eq_false hfound]; rfl, .unknown hfound⟩
  | finished => trivial

abbrev system : System Attempt Point Accounts Write Reply where
  program := K.program
  allowed _ := True
  cond := cond

def staging : Staging (K.system cond) Stage where
  prog := K.rest
  start := start
  Moves := K.Moves
  program_eq := K.rest_start
  goes := K.goes_rest

theorem finished_of_rest {x : Attempt} {st : Stage} {r : Reply} (h : K.rest x st = .ret r) : st = .finished r := by
  cases st with
  | finished => cases h; rfl
  | readingTotp | recording | readingCodes | marking | admitting => cases h

end Kit

/-! ## One request a code -/

def RecoveryRow.code (row : RecoveryRow) : Int × Int × String := (row.id, row.userId, row.codeHash)

def Accounts.Spent (d : Accounts) (id : Int) : Prop := ∃ row ∈ d.recovery, row.id = id ∧ row.used = true

def Stage.spent : Stage → Option Int
  | .admitting _ spent | .finished (.admitted spent) => spent
  | _ => none

namespace Kit

variable (K : Kit)

def Brings (x : Attempt) (row : RecoveryRow) : Prop := ∃ code, x.call = .recovery code ∧ x.pending = some row.userId ∧
    K.verifyPassword (normalise code) row.codeHash = true

def BringsRow (x : Attempt) (id : Int) (d : Accounts) : Prop := ∃ row ∈ d.recovery, row.id = id ∧ K.Brings x row

def Admits (x : Attempt) (d : Accounts) : Option Int → Prop
  | none => ∃ code, x.call = .verify code
  | some id => K.BringsRow x id d ∧ d.Spent id

def Kept (x : Attempt) (d : Accounts) : Stage → Prop
  | .readingTotp .. | .recording .. => ∃ code, x.call = .verify code
  | .readingCodes user code => x.pending = some user ∧ x.call = .recovery code
  | .marking _ row => K.BringsRow x row.id d ∧ row.used = false
  | .admitting _ spent | .finished (.admitted spent) => K.Admits x d spent
  | .finished _ => True

/-- Between a request's SELECT and its UPDATE nobody has changed the row it marks. -/
def AsRead (_ : Attempt) : Point → Accounts → Prop
  | .markUsed row, d => ∀ now ∈ d.recovery, now.id = row.id → now = row
  | _, _ => True

structure Stored (d₀ d : Accounts) : Prop where
  same : d.recovery.map RecoveryRow.code = d₀.recovery.map RecoveryRow.code
  nodup : (d₀.recovery.map fun row => (row.userId, row.codeHash)).Nodup

variable {K} {d₀ d d' : Accounts} {x y : Attempt} {st st' t : Stage} {l : Point} {n n' : Nat}

theorem code_markUsed (id : Int) (row : RecoveryRow) :
    (if row.id = id then { row with used := true } else row).code = row.code := by
  split <;> rfl

theorem Stored.markUsed (h : Stored d₀ d) (id : Int) : Stored d₀ (d.markUsed id) := by
  refine ⟨?_, h.nodup⟩
  show (d.recovery.map _).map RecoveryRow.code = _
  rw [map_map, ← h.same]
  exact map_congr_left fun row _ => code_markUsed id row

theorem Stored.unusedCodes (h : Stored d₀ d) (user : Int) : ((d.unusedCodes user).map (·.codeHash)).Nodup := by
  have hnodup : (d.recovery.map fun row => (row.userId, row.codeHash)).Nodup := by
    have hsame := congrArg (List.map Prod.snd) h.same
    rw [map_map, map_map] at hsame
    exact hsame ▸ h.nodup
  have hsub : ((d.unusedCodes user).map fun row => (row.userId, row.codeHash)).Nodup :=
    hnodup.sublist (filter_sublist.map _)
  refine List.Nodup.of_map (fun hash => (user, hash)) ?_
  rw [map_map]
  refine (map_congr_left fun row hrow => ?_) ▸ hsub
  have huser := (of_decide_eq_true (mem_filter.mp hrow).2).1
  show (row.userId, row.codeHash) = (user, row.codeHash)
  rw [huser]

theorem BringsRow.markUsed {id : Int} (h : K.BringsRow x id d) (id' : Int) : K.BringsRow x id (d.markUsed id') := by
  obtain ⟨_, hrow, hid, hbrings⟩ := h
  refine ⟨_, mem_map_of_mem hrow, ?_, ?_⟩
  · split <;> exact hid
  · split <;> exact hbrings

theorem Spent.markUsed {id : Int} (h : d.Spent id) (id' : Int) : (d.markUsed id').Spent id := by
  obtain ⟨_, hrow, hid, hused⟩ := h
  refine ⟨_, mem_map_of_mem hrow, ?_, ?_⟩
  · split <;> exact hid
  · split
    · rfl
    · exact hused

theorem spent_markUsed {id : Int} (h : K.BringsRow x id d) : (d.markUsed id).Spent id := by
  obtain ⟨_, hrow, hid, -⟩ := h
  refine ⟨_, mem_map_of_mem hrow, ?_, ?_⟩
  · rw [if_pos hid]
    exact hid
  · rw [if_pos hid]

theorem Admits.markUsed {spent : Option Int} (h : K.Admits x d spent) (id : Int) :
    K.Admits x (d.markUsed id) spent := by
  cases spent with
  | none => exact h
  | some => exact ⟨h.1.markUsed id, Spent.markUsed h.2 id⟩

theorem Kept.markUsed (h : K.Kept x d st) (id : Int) : K.Kept x (d.markUsed id) st := by
  cases st with
  | readingTotp | recording | readingCodes => exact h
  | marking => exact ⟨BringsRow.markUsed h.1 id, h.2⟩
  | admitting => exact Admits.markUsed h id
  | finished r =>
    cases r with
    | admitted => exact Admits.markUsed h id
    | toLogin | refused | failed => trivial

theorem Kept.recordStep (h : K.Kept x d st) (id step : Int) : K.Kept x (d.recordStep id step) st := by
  cases st with
  | finished r => cases r <;> exact h
  | readingTotp | recording | readingCodes | marking | admitting => exact h

theorem kept_start (x : Attempt) : K.Kept x d (start x) := by
  unfold start
  cases hpending : x.pending with
  | none => trivial
  | some =>
    cases hcall : x.call with
    | verify code =>
      dsimp only
      split
      · trivial
      · exact ⟨code, hcall⟩
    | recovery => exact ⟨hpending, hcall⟩

theorem kept_checking {user : Int} {code : String} {row : Option TotpRow} (hx : ∃ code, x.call = .verify code) :
    K.Kept x d (K.checking user code x.now row) := by
  cases row with
  | none => trivial
  | some row =>
    unfold checking
    dsimp only
    cases K.totp row.secretEncrypted with
    | error => trivial
    | ok =>
      dsimp only
      split
      · trivial
      · split
        · trivial
        · exact hx

theorem kept_spending {user : Int} {code : String} (hstored : Stored d₀ d) (hpending : x.pending = some user)
    (hcall : x.call = .recovery code) : K.Kept x d (K.spending user code (d.unusedCodes user)) := by
  unfold spending
  cases hconsume : consumeRecoveryCode K.verifyPassword code ((d.unusedCodes user).map (·.codeHash)) with
  | none => trivial
  | some =>
    obtain ⟨row, hrow, hfind, hmatch⟩ := spent_row (hstored.unusedCodes user) hconsume
    obtain ⟨hrecovery, huser⟩ := mem_filter.mp hrow
    dsimp only
    rw [hfind]
    -- only unused rows are selected
    obtain ⟨huser, hunused⟩ := of_decide_eq_true huser
    refine ⟨⟨row, hrecovery, rfl, code, hcall, ?_, hmatch⟩, hunused⟩
    rw [hpending, huser]

theorem Kept.move (hstored : Stored d₀ d) (h : K.Kept x d st) (hmove : K.Moves x st l n d st' n' d') :
    Stored d₀ d' ∧ K.Kept x d' st' := by
  cases hmove with
  | totpRead => exact ⟨hstored, kept_checking h⟩
  | recorded => exact ⟨⟨hstored.same, hstored.nodup⟩, h⟩
  | codesRead => exact ⟨hstored, kept_spending hstored h.1 h.2⟩
  | @marked user row => exact ⟨hstored.markUsed row.id, h.1.markUsed row.id, spent_markUsed h.1⟩
  | found => exact ⟨hstored, h⟩
  | unknown => exact ⟨hstored, trivial⟩

theorem Kept.others (h : K.Kept y d t) (hmove : K.Moves x st l n d st' n' d') : K.Kept y d' t := by
  cases hmove with
  | totpRead | codesRead | found | unknown => exact h
  | recorded => exact h.recordStep _ _
  | marked => exact h.markUsed _

def Apart (st t : Stage) : Prop := ∀ id, st.spent = some id → t.spent ≠ some id

theorem Kept.spent {id : Int} (h : K.Kept x d st) (hid : st.spent = some id) : d.Spent id := by
  cases st with
  | readingTotp | recording | readingCodes | marking => cases hid
  | admitting user spent =>
    obtain rfl : spent = some id := hid
    exact h.2
  | finished r =>
    cases r with
    | toLogin | refused | failed => cases hid
    | admitted spent =>
      obtain rfl : spent = some id := hid
      exact h.2

theorem spent_checking (user : Int) (code : String) (now : Nat) (row : Option TotpRow) :
    (K.checking user code now row).spent = none := by
  cases row with
  | none => rfl
  | some row =>
    unfold checking
    dsimp only
    cases K.totp row.secretEncrypted with
    | error => rfl
    | ok =>
      dsimp only
      split
      · rfl
      · split <;> rfl

theorem spent_spending (user : Int) (code : String) (rows : List RecoveryRow) :
    (K.spending user code rows).spent = none := by
  unfold spending
  cases consumeRecoveryCode K.verifyPassword code (rows.map (·.codeHash)) with
  | none => rfl
  | some hashes =>
    dsimp only
    cases rows.find? fun row => row.codeHash ∉ hashes <;> rfl

theorem spent_start (x : Attempt) : (start x).spent = none := by
  unfold start
  split
  · rfl
  · split <;> rfl
  · rfl

theorem Apart.move (h : K.Kept x d st) (ht : K.Kept y d t) (hapart : Apart st t) (hcond : AsRead x l d)
    (hmove : K.Moves x st l n d st' n' d') : Apart st' t := by
  cases hmove with
  | totpRead =>
    intro id hid
    rw [spent_checking] at hid
    cases hid
  | codesRead =>
    intro id hid
    rw [spent_spending] at hid
    cases hid
  | recorded | unknown =>
    intro id hid
    cases hid
  | marked =>
    rintro id hid hspent
    cases hid
    -- the other request has spent the row, which was unused when this one read it
    obtain ⟨now, hnow, hid, hused⟩ := ht.spent hspent
    rw [hcond now hnow hid, h.2] at hused
    cases hused
  | found => exact hapart

variable (K) in
def outline (d₀ : Accounts) : Outline (K.staging AsRead) where
  inv _ d := Stored d₀ d
  Holds x st d := K.Kept x d st
  Apart _ st _ t := Apart st t
  symm h id hst ht := h id ht hst
  start {_ _ x} _ _ := ⟨kept_start x, fun _ _ _ hid => by cases (spent_start x).symm.trans hid⟩
  move hstored h _ hmove := h.move hstored hmove
  others _ h ht hapart hcond hmove := ⟨ht.others hmove, Apart.move h ht hapart hcond hmove⟩

theorem Stored.row_of_admits {row : RecoveryRow} {spent : Option Int} (hstored : Stored d₀ d)
    (hrow : row ∈ d₀.recovery) (hbrings : K.Brings x row) (h : K.Admits x d spent) : spent = some row.id := by
  obtain ⟨code, hcall, huser, hmatch⟩ := hbrings
  cases spent with
  | none =>
    obtain ⟨_, hverify⟩ := h
    cases hcall.symm.trans hverify
  | some id =>
    obtain ⟨⟨row', hrow', rfl, _, hcall', huser', hmatch'⟩, -⟩ := h
    cases hcall.symm.trans hcall'
    have huser := Option.some.inj (huser.symm.trans huser')
    -- the row it has spent was stored, with the same hash
    have hcode : row'.code ∈ d₀.recovery.map RecoveryRow.code := hstored.same ▸ mem_map_of_mem hrow'
    obtain ⟨row0, hrow0, hsame⟩ := mem_map.mp hcode
    obtain ⟨hid, huser0, hhash0⟩ : row0.id = row'.id ∧ row0.userId = row'.userId ∧
        row0.codeHash = row'.codeHash := by simpa [RecoveryRow.code] using hsame
    have hhash := (eq_of_beq hmatch').trans (eq_of_beq hmatch).symm
    have hrows : row0 = row := inj_on_of_nodup_map hstored.nodup hrow0 hrow
      (Prod.ext (huser0.trans huser.symm) (hhash0.trans hhash))
    rw [← hid, hrows]

variable (K)

/-- Every stored code admits at most one request, as long as no other request changes a row between the SELECT that
    has read it and the UPDATE that marks it. -/
theorem recovery_code_used_once {d₀ : Accounts}
    (hdifferent : (d₀.recovery.map fun row => (row.userId, row.codeHash)).Nodup)
    {c : Config Attempt Point Accounts Write Reply} (hc : (K.system AsRead).Reachable d₀ c)
    {row : RecoveryRow} (hrow : row ∈ d₀.recovery) {i j : Nat} {x y : Attempt} {spent spent' : Option Int}
    (hi : c.calls[i]? = some (x, .ret (.admitted spent))) (hx : K.Brings x row)
    (hj : c.calls[j]? = some (y, .ret (.admitted spent'))) (hy : K.Brings y row) : i = j := by
  obtain ⟨_, hreach, rfl⟩ := (K.staging AsRead).of_reachable hc
  have hfits := (K.outline d₀).fits_of_reachable ⟨rfl, hdifferent⟩ hreach
  obtain ⟨_, hst, hrest⟩ := (K.staging AsRead).of_call hi
  obtain rfl := K.finished_of_rest hrest
  obtain ⟨_, ht, hrest'⟩ := (K.staging AsRead).of_call hj
  obtain rfl := K.finished_of_rest hrest'
  obtain rfl := hfits.inv.row_of_admits hrow hx (hfits.holds hst)
  obtain rfl := hfits.inv.row_of_admits hrow hy (hfits.holds ht)
  by_contra hij
  exact hfits.apart hij hst ht row.id rfl rfl

/-! ## A user with one code -/

def legible : Kit where
  hmac := { mac := fun _ _ _ => List.replicate 20 0, length := fun _ _ _ => le_rfl }
  decrypt := .ok
  hash := id

def oneCode : Accounts where
  users := [7]
  recovery := [{ id := 1, userId := 7, codeHash := "ABCDE-FGHJK", used := false }]

def typed : Attempt where
  pending := some 7
  call := .recovery "abcde fghjk"
  now := 0

instance (x : Attempt) (l : Point) (d : Accounts) : Decidable (AsRead x l d) :=
  match l with
  | .markUsed row => inferInstanceAs (Decidable (∀ now ∈ d.recovery, now.id = row.id → now = row))
  | .readTotp | .recordStep | .readCodes | .findUser => isTrue trivial

theorem typed_brings : legible.Brings typed { id := 1, userId := 7, codeHash := "ABCDE-FGHJK", used := false } :=
  ⟨"abcde fghjk", rfl, rfl, by decide⟩

theorem recovery_code_used_once_of_two : ∃ c, (legible.system AsRead).Reachable oneCode c ∧
      c.calls[0]? = some (typed, .ret (.admitted (some 1))) ∧
      c.calls[1]? = some (typed, .ret (.refused notValid)) ∧
      ∀ (j : Nat) (spent : Option Int), c.calls[j]? = some (typed, .ret (.admitted spent)) → 0 = j := by
  obtain ⟨c, hc, hcalls⟩ := (legible.system AsRead).play_reachable
    [.call typed, .advance 0, .advance 0, .advance 0, .call typed, .advance 1] oneCode
    (fun c => ((c.calls[0]?).map fun x => (x.1, x.2.result), (c.calls[1]?).map fun x => (x.1, x.2.result)))
    (v := (some (typed, some (.admitted (some 1))), some (typed, some (.refused notValid))))
    (by decide)
  obtain ⟨hfirst, hsecond⟩ := Prod.mk.inj hcalls
  have hadmitted := Prog.ret_of_result hfirst
  refine ⟨c, hc, hadmitted, Prog.ret_of_result hsecond, fun j spent hj => ?_⟩
  exact legible.recovery_code_used_once (by decide) hc mem_cons_self hadmitted typed_brings hj typed_brings

/-- Both requests read the code before either marks it. -/
theorem recovery_code_used_twice : ∃ c, (legible.system fun _ _ _ => True).Reachable oneCode c ∧
      c.calls[0]? = some (typed, .ret (.admitted (some 1))) ∧
      c.calls[1]? = some (typed, .ret (.admitted (some 1))) ∧
      ∃ row ∈ oneCode.recovery, legible.Brings typed row := by
  obtain ⟨c, hc, hcalls⟩ := (legible.system fun _ _ _ => True).play_reachable
    [.call typed, .call typed, .advance 0, .advance 1, .advance 0, .advance 1, .advance 0, .advance 1] oneCode
    (fun c => ((c.calls[0]?).map fun x => (x.1, x.2.result), (c.calls[1]?).map fun x => (x.1, x.2.result)))
    (v := (some (typed, some (.admitted (some 1))), some (typed, some (.admitted (some 1)))))
    (by decide)
  obtain ⟨hfirst, hsecond⟩ := Prod.mk.inj hcalls
  exact ⟨c, hc, Prog.ret_of_result hfirst, Prog.ret_of_result hsecond, _, mem_cons_self, typed_brings⟩

end Kit

end Rustlavel.AuthKit
