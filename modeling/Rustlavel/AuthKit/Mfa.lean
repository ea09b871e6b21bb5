/-
  The second factor of a login, as the application template has it: a code from an authenticator app, or a
  recovery code.
-/

import Rustlavel.Auth.Totp
import Rustlavel.Lib.Transact

namespace Rustlavel.AuthKit

open Transact Auth

/-! ## Tables -/

structure TotpRow where
  id : Int
  userId : Int
  secretEncrypted : String
  confirmed : Bool
  lastStep : Option Int

structure RecoveryRow where
  id : Int
  userId : Int
  codeHash : String
  used : Bool
  deriving DecidableEq

structure Accounts where
  users : List Int
  totp : List TotpRow := []
  recovery : List RecoveryRow := []

inductive Write where
  | lastStep (id step : Int)
  | used (id : Int)

namespace Accounts

variable (d : Accounts)

def confirmedTotp (user : Int) : Option TotpRow := d.totp.find? fun row => row.userId = user ∧ row.confirmed

def unusedCodes (user : Int) : List RecoveryRow := d.recovery.filter fun row => row.userId = user ∧ row.used = false

def recordStep (id step : Int) : Accounts :=
  { d with totp := d.totp.map fun row => if row.id = id then { row with lastStep := some step } else row }

def markUsed (id : Int) : Accounts :=
  { d with recovery := d.recovery.map fun row => if row.id = id then { row with used := true } else row }

instance : Store Accounts Write where
  apply
    | .lastStep id step, d => d.recordStep id step
    | .used id, d => d.markUsed id

end Accounts

/-! ## Requests -/

inductive Call where
  | verify (code : String)
  | recovery (code : String)
  deriving DecidableEq

/-- A request: the user waiting on a second factor, what it asks for and when, and the two looks at the address's
    failures. -/
structure Attempt where
  pending : Option Int
  call : Call
  now : Nat
  blocked : Bool := false
  blockedAgain : Bool := false
  deriving DecidableEq

inductive Reply where
  | toLogin
  | refused (message : String)
  | failed (message : String)
  /-- The user is logged in; with a recovery code, its row. -/
  | admitted (spent : Option Int)
  deriving DecidableEq

inductive Point where
  | readTotp
  | recordStep
  | readCodes
  | markUsed (row : RecoveryRow)
  | findUser

def tooMany : String := "Too many attempts. Wait a few minutes and try again."

def notRight : String := "That code is not right. Codes change every 30 seconds."

def alreadyUsed : String := "That code has already been used. Wait for the next one."

def notValid : String := "That recovery code is not valid."

/-- The HMAC, the decryption of secrets, how far clocks may be apart, and the hashes of recovery codes. -/
structure Kit where
  hmac : Hmac
  decrypt : String → Except String String
  skew : Nat := Totp.defaultSkew
  hash : String → String

namespace Kit

variable (K : Kit)

def verifyPassword (password hash : String) : Bool := hash == K.hash password

def totp (secretEncrypted : String) : Except String Totp := do
  let secret ← K.decrypt secretEncrypted
  return (← Totp.fromBase32 secret).withSkew K.skew

def complete (user : Int) (spent : Option Int) : Prog Point Accounts Write Reply :=
  .step .findUser (.select fun d => .ret (.commit (decide (user ∈ d.users)))) fun found =>
    .ret (if found then .admitted spent else .toLogin)

def checkCode (user : Int) (code : String) (now : Nat) : Option TotpRow → Prog Point Accounts Write Reply
  | none => .ret .toLogin
  | some row =>
    match K.totp row.secretEncrypted with
    | .error message => .ret (.failed message)
    | .ok T =>
      if !T.verify K.hmac code now then .ret (.refused notRight)
      else if row.lastStep.any fun last => decide ((stepOf now T.period : Int) ≤ last) then
        .ret (.refused alreadyUsed)
      else
        .step .recordStep
          (.update (fun _ => some (.lastStep row.id (stepOf now T.period))) fun _ => .ret (.commit ()))
          fun _ => complete user none

def verify (x : Attempt) (code : String) : Prog Point Accounts Write Reply :=
  match x.pending with
  | none => .ret .toLogin
  | some user =>
    if x.blocked || x.blockedAgain then .ret (.refused tooMany)
    else .step .readTotp (.select fun d => .ret (.commit (d.confirmedTotp user))) (K.checkCode user code x.now)

def spendCode (user : Int) (code : String) (rows : List RecoveryRow) : Prog Point Accounts Write Reply :=
  match consumeRecoveryCode K.verifyPassword code (rows.map (·.codeHash)) with
  | none => .ret (.refused notValid)
  | some hashes =>
    match rows.find? fun row => row.codeHash ∉ hashes with
    | some row =>
      .step (.markUsed row) (.update (fun _ => some (.used row.id)) fun _ => .ret (.commit ()))
        fun _ => complete user (some row.id)
    | none => complete user none

def recovery (x : Attempt) (code : String) : Prog Point Accounts Write Reply :=
  match x.pending with
  | none => .ret .toLogin
  | some user => .step .readCodes (.select fun d => .ret (.commit (d.unusedCodes user))) (K.spendCode user code)

def program (x : Attempt) : Prog Point Accounts Write Reply :=
  match x.call with
  | .verify code => K.verify x code
  | .recovery code => K.recovery x code

end Kit

end Rustlavel.AuthKit
