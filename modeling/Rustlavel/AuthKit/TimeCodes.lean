/-
  Codes from an authenticator app over a sequence of requests of one user.
-/

import Rustlavel.AuthKit.Mfa
import Rustlavel.Lib.Machine

namespace Rustlavel.AuthKit

open Auth List

namespace Accounts

variable (d : Accounts) (id step : Int) (user : Int)

theorem confirmedTotp_recordStep : (d.recordStep id step).confirmedTotp user = (d.confirmedTotp user).map fun row =>
      if row.id = id then { row with lastStep := some step } else row := by
  show List.find? _ (d.totp.map _) = Option.map _ (d.totp.find? _)
  rw [List.find?_map]
  congr 2
  funext row
  show decide ((if row.id = id then { row with lastStep := some step } else row).userId = user ∧
    (if row.id = id then { row with lastStep := some step } else row).confirmed = true) = _
  split <;> rfl

def Reached (user : Int) (step : Int) : Prop :=
  ∃ row last, d.confirmedTotp user = some row ∧ row.lastStep = some last ∧ step ≤ last

end Accounts

namespace Kit

variable (K : Kit)

/-! ## One request -/

def attempts : Machine Accounts Attempt Reply where
  step d x := (((K.program x).alone 0 d).2.2, ((K.program x).alone 0 d).1)

def Presents (user : Int) (x : Attempt) : Prop := x.pending = some user ∧ ∃ code, x.call = .verify code

def codeOf (x : Attempt) : String :=
  match x.call with
  | .verify code | .recovery code => code

def Enrolled (d : Accounts) (user : Int) (T : Totp) : Prop :=
  ∀ row, d.confirmedTotp user = some row → K.totp row.secretEncrypted = .ok T

variable {T : Totp} {code : String} {now : Nat} {x : Attempt} {xs : List Attempt} {d : Accounts} {user : Int}
  (H : Hmac) (lastStep : Option Int)

theorem alone_checkCode (hT : K.Enrolled d user T) :
    let out := (K.checkCode user code now (d.confirmedTotp user)).alone 0 d
    (out.2.2 = d ∧ ∀ spent, out.1 ≠ .admitted spent) ∨
      ∃ row, d.confirmedTotp user = some row ∧ T.verify K.hmac code now = true ∧
        (∀ last, row.lastStep = some last → last < stepOf now T.period) ∧
        out.2.2 = d.recordStep row.id (stepOf now T.period) := by
  cases hrow : d.confirmedTotp user with
  | none => exact .inl ⟨rfl, fun _ => Reply.noConfusion⟩
  | some row =>
    unfold checkCode
    dsimp only
    rw [hT row hrow]
    dsimp only
    split
    · exact .inl ⟨rfl, fun _ => Reply.noConfusion⟩
    · rename_i hverify
      split
      · exact .inl ⟨rfl, fun _ => Reply.noConfusion⟩
      · rename_i hlater
        refine .inr ⟨row, rfl, by simpa using hverify, fun last hlast => ?_, rfl⟩
        simpa [hlast] using hlater

theorem step_attempts (hx : Presents user x) (hT : K.Enrolled d user T) :
    (K.attempts.step d x).1 = d ∧ (∀ spent, (K.attempts.step d x).2 ≠ .admitted spent) ∨
      ∃ row, d.confirmedTotp user = some row ∧ T.verify K.hmac (codeOf x) x.now = true ∧
        (∀ last, row.lastStep = some last → last < stepOf x.now T.period) ∧
        (K.attempts.step d x).1 = d.recordStep row.id (stepOf x.now T.period) := by
  obtain ⟨hpending, code, hcall⟩ := hx
  have hcode : codeOf x = code := by
    unfold codeOf
    rw [hcall]
  have hprogram : K.program x = K.verify x code := by
    unfold program
    rw [hcall]
  have hstep : K.attempts.step d x = (((K.verify x code).alone 0 d).2.2, ((K.verify x code).alone 0 d).1) := by
    rw [← hprogram]
    rfl
  rw [hcode, hstep]
  unfold verify
  rw [hpending]
  dsimp only
  split
  · exact .inl ⟨rfl, fun _ => Reply.noConfusion⟩
  · exact K.alone_checkCode hT

theorem step_keeps (hx : Presents user x) (hT : K.Enrolled d user T) : K.Enrolled (K.attempts.step d x).1 user T ∧
      ∀ step, d.Reached user step → (K.attempts.step d x).1.Reached user step := by
  obtain ⟨hsame, -⟩ | ⟨row, hrow, -, hlater, hnext⟩ := K.step_attempts hx hT
  · rw [hsame]
    exact ⟨hT, fun _ h => h⟩
  · rw [hnext]
    have hnew : (d.recordStep row.id (stepOf x.now T.period)).confirmedTotp user =
        some { row with lastStep := some (stepOf x.now T.period : Int) } := by
      rw [Accounts.confirmedTotp_recordStep, hrow, Option.map_some, if_pos rfl]
    refine ⟨fun row' hrow' => ?_, fun step hreached => ?_⟩
    · cases hnew.symm.trans hrow'
      exact hT row hrow
    · obtain ⟨_, last, hrow', hlast, hle⟩ := hreached
      cases hrow.symm.trans hrow'
      exact ⟨_, _, hnew, rfl, hle.trans (hlater last hlast).le⟩

theorem step_admitted {spent : Option Int}
    (hx : Presents user x) (hT : K.Enrolled d user T) (h : (K.attempts.step d x).2 = .admitted spent) :
    T.verify K.hmac (codeOf x) x.now = true ∧ ¬d.Reached user (stepOf x.now T.period) ∧
      (K.attempts.step d x).1.Reached user (stepOf x.now T.period) := by
  obtain ⟨-, hnot⟩ | ⟨row, hrow, hverify, hlater, hnext⟩ := K.step_attempts hx hT
  · exact absurd h (hnot spent)
  · refine ⟨hverify, fun ⟨row', last, hrow', hlast, hle⟩ => ?_, ?_⟩
    · cases hrow.symm.trans hrow'
      exact absurd (hlater last hlast) (by omega)
    · rw [hnext]
      refine ⟨{ row with lastStep := some (stepOf x.now T.period : Int) }, _, ?_, rfl, le_rfl⟩
      rw [Accounts.confirmedTotp_recordStep, hrow, Option.map_some, if_pos rfl]

/-! ## Whole sequences -/

def admitted (d : Accounts) : List Attempt → List Attempt
  | [] => []
  | x :: xs =>
    match (K.attempts.step d x).2 with
    | .admitted _ => x :: admitted (K.attempts.step d x).1 xs
    | _ => admitted (K.attempts.step d x).1 xs

theorem mem_of_mem_admitted (h : x ∈ K.admitted d xs) : x ∈ xs := by
  induction xs generalizing d with
  | nil => exact h
  | cons y xs ih =>
    unfold admitted at h
    split at h
    · exact (mem_cons.mp h).elim (· ▸ mem_cons_self) fun h => mem_cons_of_mem y (ih h)
    · exact mem_cons_of_mem y (ih h)

theorem admitted_later {step : Int}
    (hxs : ∀ x ∈ xs, Presents user x) (hT : K.Enrolled d user T) (hreached : d.Reached user step) :
    ∀ x ∈ K.admitted d xs, step < stepOf x.now T.period := by
  induction xs generalizing d with
  | nil => exact nofun
  | cons y xs ih =>
    have hy := hxs y mem_cons_self
    obtain ⟨hT', hkeeps⟩ := K.step_keeps hy hT
    have hrest := ih (fun x hx => hxs x (mem_cons_of_mem y hx)) hT' (hkeeps step hreached)
    intro x hx
    unfold admitted at hx
    split at hx
    · rename_i spent hadmitted
      rcases mem_cons.mp hx with rfl | hx
      · obtain ⟨-, hnew, -⟩ := K.step_admitted hy hT hadmitted
        by_contra hle
        obtain ⟨row, last, hrow, hlast, hstep⟩ := hreached
        exact hnew ⟨row, last, hrow, hlast, by omega⟩
      · exact hrest x hx
    · exact hrest x hx

def OnTime (T : Totp) (x : Attempt) : Prop :=
  ∀ step, (T.window x.now).1 ≤ step → step ≤ (T.window x.now).2 → T.atStep K.hmac step = codeOf x →
    step = stepOf x.now T.period

theorem admitted_code (hT : K.Enrolled d user T)
    (hxs : ∀ x ∈ xs, Presents user x) (hontime : ∀ x ∈ xs, K.OnTime T x) :
    ∀ x ∈ K.admitted d xs, codeOf x = T.atStep K.hmac (stepOf x.now T.period) := by
  induction xs generalizing d with
  | nil => exact nofun
  | cons y xs ih =>
    have hy := hxs y mem_cons_self
    have hrest := ih (K.step_keeps hy hT).1 (fun x hx => hxs x (mem_cons_of_mem y hx))
      fun x hx => hontime x (mem_cons_of_mem y hx)
    intro x hx
    unfold admitted at hx
    split at hx
    · rename_i spent hadmitted
      rcases mem_cons.mp hx with rfl | hx
      · obtain ⟨hverify, -, -⟩ := K.step_admitted hy hT hadmitted
        obtain ⟨step, hfirst, hlast, hstep⟩ := Totp.verify_eq_true hverify
        rw [← hontime x mem_cons_self step hfirst hlast hstep, hstep]
      · exact hrest x hx
    · exact hrest x hx

theorem admitted_pairwise (hT : K.Enrolled d user T) (hxs : ∀ x ∈ xs, Presents user x) :
    (K.admitted d xs).Pairwise fun x y => stepOf x.now T.period < stepOf y.now T.period := by
  induction xs generalizing d with
  | nil => exact .nil
  | cons y xs ih =>
    have hy := hxs y mem_cons_self
    have hxs' := fun x hx => hxs x (mem_cons_of_mem y hx)
    obtain ⟨hT', -⟩ := K.step_keeps hy hT
    unfold admitted
    split
    · rename_i spent hadmitted
      obtain ⟨-, -, hreached⟩ := K.step_admitted hy hT hadmitted
      refine pairwise_cons.mpr ⟨fun x hx => ?_, ih hT' hxs'⟩
      exact Int.ofNat_lt.mp (K.admitted_later hxs' hT' hreached x hx)
    · exact ih hT' hxs'

/-- No code is accepted twice, as long as codes of different steps differ and each request brings the code of its
    step, if any of its window. -/
theorem code_used_once (T : Totp) (user : Int) (d : Accounts) (xs : List Attempt)
    (hT : K.Enrolled d user T) (hxs : ∀ x ∈ xs, Presents user x) (hontime : ∀ x ∈ xs, K.OnTime T x)
    (hdiffer : ∀ x ∈ xs, ∀ y ∈ xs, T.atStep K.hmac (stepOf x.now T.period) = T.atStep K.hmac (stepOf y.now T.period) →
        stepOf x.now T.period = stepOf y.now T.period) :
    ((K.admitted d xs).map codeOf).Nodup := by
  refine pairwise_map.mpr ((K.admitted_pairwise hT hxs).imp_of_mem fun {x y} hx hy hlt hsame => ?_)
  rw [K.admitted_code hT hxs hontime x hx, K.admitted_code hT hxs hontime y hy] at hsame
  have hsteps := hdiffer x (K.mem_of_mem_admitted hx) y (K.mem_of_mem_admitted hy) hsame
  omega

/-! ## An application with one user -/

def plain : Kit where
  hmac := H
  decrypt := .ok
  hash := id

def enrolled : Accounts where
  users := [7]
  totp := [{ id := 1, userId := 7, secretEncrypted := "MFRGG", confirmed := true, lastStep }]

def authenticator : Totp := .new [97, 98, 99]

def present (code : String) (now : Nat) : Attempt where
  pending := some 7
  call := .verify code
  now := now

theorem totp_authenticator : (plain H).totp "MFRGG" = .ok authenticator := rfl

theorem enrolled_authenticator : (plain H).Enrolled (enrolled lastStep) 7 authenticator := by
  intro row hrow
  cases hrow
  exact totp_authenticator H

theorem step_present {H : Hmac} {lastStep : Option Int} (hverify : authenticator.verify H code now = true)
    (hnew : (lastStep.any fun last => decide ((stepOf now 30 : Int) ≤ last)) = false) :
    (plain H).attempts.step (enrolled lastStep) (present code now) =
      (enrolled (some (stepOf now 30)), .admitted none) := by
  have hrow : (enrolled lastStep).confirmedTotp 7 =
      some { id := 1, userId := 7, secretEncrypted := "MFRGG", confirmed := true, lastStep } := rfl
  have hcheck : ((plain H).checkCode 7 code now ((enrolled lastStep).confirmedTotp 7)).alone 0
      (enrolled lastStep) = (.admitted none, 0, enrolled (some (stepOf now 30))) := by
    rw [hrow]
    unfold checkCode
    dsimp only
    rw [totp_authenticator]
    dsimp only
    rw [if_neg (by rw [show (plain H).hmac = H from rfl, hverify]; exact Bool.false_ne_true),
      if_neg (by rw [show authenticator.period = 30 from rfl, hnew]; exact Bool.false_ne_true)]
    rfl
  have hstep : (plain H).attempts.step (enrolled lastStep) (present code now) =
      ((((plain H).checkCode 7 code now ((enrolled lastStep).confirmedTotp 7)).alone 0 (enrolled lastStep)).2.2,
        (((plain H).checkCode 7 code now ((enrolled lastStep).confirmedTotp 7)).alone 0 (enrolled lastStep)).1) := rfl
  rw [hstep, hcheck]

def counting : Hmac where
  mac _ _ counter := 0 :: 0 :: 0 :: UInt8.ofNat counter :: List.replicate 16 0
  length _ _ _ := by simp

theorem code_used_once_of_two_steps :
    let xs := [present "000000" 0, present "000001" 30]
    ((plain counting).admitted (enrolled none) xs).length = 2 ∧
      (((plain counting).admitted (enrolled none) xs).map codeOf).Nodup := by
  intro xs
  refine ⟨by decide, ?_⟩
  refine (plain counting).code_used_once authenticator 7 (enrolled none) xs
    (enrolled_authenticator counting none) ?_ ?_ (by decide)
  · intro x hx
    obtain rfl | rfl : x = present "000000" 0 ∨ x = present "000001" 30 := by simpa [xs] using hx
    · exact ⟨rfl, _, rfl⟩
    · exact ⟨rfl, _, rfl⟩
  · intro x hx
    obtain rfl | rfl : x = present "000000" 0 ∨ x = present "000001" 30 := by simpa [xs] using hx
    · intro step _ (hlast : step ≤ 1) hcode
      have hsteps : ∀ step ≤ 1, authenticator.atStep counting step = "000000" → step = 0 := by decide
      exact hsteps step hlast hcode
    · intro step _ (hlast : step ≤ 2) hcode
      have hsteps : ∀ step ≤ 2, authenticator.atStep counting step = "000001" → step = 1 := by decide
      exact hsteps step hlast hcode

theorem admitted_early_and_in_step : (plain H).attempts.outputs (enrolled none)
      [present (authenticator.atStep H 1) 0, present (authenticator.atStep H 1) 30] =
        [.admitted none, .admitted none] := by
  have hearly : authenticator.verify H (authenticator.atStep H 1) 0 = true :=
    Totp.verify_atStep rfl (by decide) (by decide)
  have hown : authenticator.verify H (authenticator.atStep H 1) 30 = true :=
    Totp.verify_atStep rfl (by decide) (by decide)
  show [_, _] = _
  rw [step_present hearly rfl, step_present hown (by decide)]

/-- The code of step 1, in step 0 and in step 1. -/
theorem early_code_used_twice : authenticator.atStep counting 1 = "000001" ∧
    (plain counting).attempts.outputs (enrolled none) [present "000001" 0, present "000001" 30] =
      [.admitted none, .admitted none] := by
  have hcode : authenticator.atStep counting 1 = "000001" := by decide
  refine ⟨hcode, ?_⟩
  exact admitted_early_and_in_step counting

end Kit

end Rustlavel.AuthKit
