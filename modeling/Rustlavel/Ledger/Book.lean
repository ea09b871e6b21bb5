/-
  The five tables of the ledger and the row writes its statements make.
-/

import Rustlavel.Lib.Double
import Rustlavel.Lib.Rows
import Rustlavel.Lib.Transact

namespace Rustlavel

/-- A message of the framework, or the database's refusal of a taken unique key. -/
inductive Error where
  | msg (text : String)
  | duplicateKey
  deriving DecidableEq

namespace Ledger

/-! ## Rows -/

def systemTopup : String := "system:topup"
def systemConsumption : String := "system:consumption"
def systemExpiry : String := "system:expiry"

structure Account where
  id : String
  owner : String
  unit : String
  balance : Int
  held : Int

namespace Account

def available (a : Account) : Int := a.balance - a.held

/-- A `system:` account is the other side of a movement. -/
def isSystem (a : Account) : Bool := "system:".toList.isPrefixOf a.owner.toList

end Account

inductive TransferKind where
  | topUp | consume | capture | expire | adjust | refund
  deriving DecidableEq

inductive Metadata where
  | null
  | hold (id : String)
  | lot (id : String)
  deriving DecidableEq

structure Transfer where
  id : String
  reference : String
  kind : TransferKind
  fromAccount : String
  toAccount : String
  amount : Int
  createdAt : Nat
  metadata : Metadata
  deriving DecidableEq

structure Entry where
  transferId : String
  accountId : String
  amount : Int
  balanceAfter : Int
  kind : TransferKind
  reference : String
  createdAt : Nat

inductive HoldStatus where
  | held | captured | released
  deriving DecidableEq

def HoldStatus.asStr : HoldStatus → String
  | held => "held"
  | captured => "captured"
  | released => "released"

structure Hold where
  id : String
  accountId : String
  amount : Int
  status : HoldStatus
  reference : String
  createdAt : Nat
  expiresAt : Nat
  deriving DecidableEq

structure Lot where
  id : String
  accountId : String
  transferId : String
  initial : Int
  remaining : Int
  expiresAt : Option Nat
  createdAt : Nat

def Lot.before (a b : Lot) : Bool :=
  match a.expiresAt, b.expiresAt with
  | some x, some y => x ≤ y
  | some _, none => true
  | none, some _ => false
  | none, none => true

/-! ## The tables -/

structure Book where
  accounts : List Account
  transfers : List Transfer
  entries : List Entry
  holds : List Hold
  lots : List Lot

namespace Book

def empty : Book := { accounts := [], transfers := [], entries := [], holds := [], lots := [] }

variable (d : Book)

/-- Move an account's `balance` and `held` by these amounts. -/
@[simps] def adjust (accountId : String) (balance held : Int) : Book := { d with
    accounts := Rows.modify Account.id accountId
      (fun a => { a with balance := a.balance + balance, held := a.held + held }) d.accounts }

@[simps] def setHold (holdId : String) (status : HoldStatus) : Book :=
  { d with holds := Rows.modify Hold.id holdId (fun h => { h with status := status }) d.holds }

@[simps] def drawLot (lotId : String) (take : Int) : Book := { d with
    lots := Rows.modify Lot.id lotId (fun l => { l with remaining := l.remaining - take }) d.lots }

@[simps] def clearLot (lotId : String) : Book :=
  { d with lots := Rows.modify Lot.id lotId (fun l => { l with remaining := 0 }) d.lots }

@[simps] def addAccount (a : Account) : Book := { d with accounts := d.accounts ++ [a] }

@[simps] def addTransfer (t : Transfer) : Book := { d with transfers := d.transfers ++ [t] }

@[simps] def addEntry (e : Entry) : Book := { d with entries := d.entries ++ [e] }

@[simps] def addHold (h : Hold) : Book := { d with holds := d.holds ++ [h] }

@[simps] def addLot (l : Lot) : Book := { d with lots := d.lots ++ [l] }

end Book

/-! ## Writes -/

inductive Write where
  | account (id : String) (balance held : Int)
  | hold (id : String) (status : HoldStatus)
  | drawLot (id : String) (take : Int)
  | clearLot (id : String) (seen : Int)
  | newAccount (a : Account)
  | newTransfer (t : Transfer)
  | newEntry (e : Entry)
  | newHold (h : Hold)
  | newLot (l : Lot)

def Write.apply : Write → Book → Book
  | account id balance held, d => d.adjust id balance held
  | hold id status, d => d.setHold id status
  | drawLot id take, d => d.drawLot id take
  | clearLot id _, d => d.clearLot id
  | newAccount a, d => d.addAccount a
  | newTransfer t, d => d.addTransfer t
  | newEntry e, d => d.addEntry e
  | newHold h, d => d.addHold h
  | newLot l, d => d.addLot l

instance : Transact.Store Book Write where
  apply := Write.apply

/-- Whether the unique indexes let a row in. -/
def Book.accepts (d : Book) : Write → Bool
  | .newAccount a => d.accounts.all fun x => x.id ≠ a.id ∧ ¬ (x.owner = a.owner ∧ x.unit = a.unit)
  | .newTransfer t => d.transfers.all fun x => x.id ≠ t.id ∧ x.reference ≠ t.reference
  | .newHold h => d.holds.all fun x => x.id ≠ h.id ∧ x.reference ≠ h.reference
  | .newLot l => d.lots.all fun x => x.id ≠ l.id
  | _ => true

/-! ## Ids -/

def id (kind : String) (n : Nat) : String := kind ++ "_" ++ toString n

theorem id_inj {kind : String} {m n : Nat} (h : id kind m = id kind n) : m = n :=
  Double.repr_inj ((String.append_right_inj _).mp h)

end Ledger
end Rustlavel
