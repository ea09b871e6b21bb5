/-
  The operations of the ledger, as the statements they send and the transactions they send them in.
-/

import Rustlavel.Ledger.Book

namespace Rustlavel.Ledger

open Book

open Transact (Verdict)
open Transact.Tx (query tryUpdate tryInsert)
open Transact.Prog (transaction statement)

/-- Where a transaction of an operation stands: a read, the insert of an account, the operation's own, and one for
    each hold and lot of a sweep. -/
inductive Point where
  | read
  | ensureAccount (owner : String)
  | main
  | releaseStale (holdId : String)
  | expireLot (lotId accountId : String)

abbrev Tx (α : Type) : Type := ExceptT Error (Transact.Tx Book Write) α

abbrev Op (α : Type) : Type 1 := ExceptT Error (Transact.Prog Point Book Write) α

/-! ## Statements -/

namespace Book

def findAccount (unit owner : String) (d : Book) : Option Account :=
  d.accounts.find? fun a => a.owner = owner ∧ a.unit = unit

def accountById (accountId : String) (d : Book) : Option Account := d.accounts.find? fun a => a.id = accountId

def transfer (reference : String) (d : Book) : Option Transfer := d.transfers.find? fun t => t.reference = reference

def holdByReference (reference : String) (d : Book) : Option Hold := d.holds.find? fun h => h.reference = reference

def holdById (holdId : String) (d : Book) : Option Hold := d.holds.find? fun h => h.id = holdId

end Book

/-- `UPDATE ledger_accounts SET balance = …, held = … WHERE account_id = …`, with
    a further condition; whether it found the row. -/
def updateAccount (accountId : String) (guard : Account → Bool) (balance held : Int) : Tx Bool := tryUpdate fun d =>
    if d.accounts.any fun a => a.id = accountId ∧ guard a then some (.account accountId balance held)
    else none

def updateHeld (holdId : String) (status : HoldStatus) : Tx Bool := tryUpdate fun d =>
    if d.holds.any fun h => h.id = holdId ∧ h.status = .held then some (.hold holdId status)
    else none

def insert (row : Nat → Write) : Tx (Nat × Bool) :=
  tryInsert fun n d => if d.accepts (row n) then some (row n) else none

variable (accountId : String) (amount : Int)

/-- Debit an account only if `available` covers it. -/
def debitAvailable : Tx Bool := updateAccount accountId (fun a => amount ≤ a.balance - a.held) (-amount) 0

def debitUnchecked : Tx Bool := updateAccount accountId (fun _ => true) (-amount) 0

def credit : Tx Bool := updateAccount accountId (fun _ => true) amount 0

def balanceOf (accountId : String) : Tx Int := do
  match ← query (accountById accountId) with
  | some a => pure a.balance
  | none => throw (.msg s!"account `{accountId}` is not there")

def accountIn (unit owner : String) : Tx Account := do
  match ← query (findAccount unit owner) with
  | some a => pure a
  | none => throw (.msg (s!"the account for {owner} does not exist inside the transaction; " ++
      "`ensure_account` must run before it begins"))

/-- Take `amount` out of these lots, one after the other. -/
def drawFrom : List Lot → Int → Tx Unit
  | [], _ => pure ()
  | lot :: lots, amount =>
    if amount ≤ 0 then pure ()
    else do
      let take := min lot.remaining amount
      let drawn ← tryUpdate fun d =>
        if d.lots.any fun l => l.id = lot.id ∧ take ≤ l.remaining then some (.drawLot lot.id take)
        else none
      drawFrom lots (if drawn then amount - take else amount)

/-- Take `amount` out of the account's lots, earliest expiry first. -/
def drawLots : Tx Unit := do
  let lots ← query fun d => d.lots.filter fun l => l.accountId = accountId ∧ 0 < l.remaining
  drawFrom (lots.insertionSort fun a b => a.before b) amount

def recordEntry (t : Transfer) (accountId : String) (signed : Int) : Tx Unit := do
  let after ← balanceOf accountId
  let _ ← insert fun _ => .newEntry
    { transferId := t.id, accountId := accountId, amount := signed, balanceAfter := after
      kind := t.kind, reference := t.reference, createdAt := t.createdAt }
  pure ()

def record (kind : TransferKind) (reference fromAccount toAccount : String) (amount : Int)
    (metadata : Metadata) (now : Nat) : Tx (Option Transfer) := do
  let transfer (n : Nat) : Transfer :=
    { id := id "tr" n, reference := reference, kind := kind, fromAccount := fromAccount
      toAccount := toAccount, amount := amount, createdAt := now, metadata := metadata }
  let (n, inserted) ← insert fun n => .newTransfer (transfer n)
  if inserted then do
    recordEntry (transfer n) fromAccount (-amount)
    recordEntry (transfer n) toAccount amount
    pure (some (transfer n))
  else pure none

def releaseIn (holdId : String) : Tx Bool := do
  if ← updateHeld holdId .released then
    match ← query (holdById holdId) with
    | some h => do
      let _ ← updateAccount h.accountId (fun _ => true) 0 (-h.amount)
      pure true
    | none => throw (.msg s!"hold `{holdId}` vanished mid-release")
  else pure false

/-! ## Methods -/

def positive (amount : Int) : Op Unit :=
  if amount ≤ 0 then throw (.msg s!"an amount must be above zero; {amount} is not") else pure ()

def insufficient (owner : String) (wanted available : Int) : Error :=
  .msg s!"{owner} has {available} available and {wanted} was asked for"

def read {α : Type} (f : Book → α) : Op α := statement .read (query f)

def ensureAttempts (unit owner : String) : Nat → Option Error → Op Unit
  | 0, last => throw (last.getD (.msg s!"could not create or find the account for {owner}"))
  | attempts + 1, _ => do
    match ← read (findAccount unit owner) with
    | some _ => pure ()
    | none => do
      let (_, inserted) ← statement (.ensureAccount owner) (insert fun n => .newAccount
        { id := id "acc" n, owner := owner, unit := unit, balance := 0, held := 0 })
      if inserted then pure () else ensureAttempts unit owner attempts (some .duplicateKey)

/-- Make sure the owner has an account, committed, before any transaction that will use it begins. -/
def ensureAccount (unit owner : String) : Op Unit := ensureAttempts unit owner 5 none

/-- How the transaction of an operation ended: it did its work, there was not
    enough, or somebody else has the reference. -/
inductive Attempt (α : Type) where
  | done (a : α)
  | short (available : Int)
  | raced

def topUpIn (unit owner : String) (amount : Int) (reference : String) (expiresIn : Option Nat)
    (now : Nat) : Tx (Verdict (Attempt Transfer)) := do
  let target ← accountIn unit owner
  let source ← accountIn unit systemTopup
  let _ ← debitUnchecked source.id amount
  let _ ← credit target.id amount
  match ← record .topUp reference source.id target.id amount .null now with
  | none => pure (.rollback .raced)
  | some transfer => do
    let (_, inserted) ← insert fun n => .newLot
      { id := id "lot" n, accountId := target.id, transferId := transfer.id, initial := amount
        remaining := amount, expiresAt := expiresIn.map (now + ·), createdAt := now }
    if inserted then pure (.commit (.done transfer)) else throw .duplicateKey

/-- Credit an owner, from `system:topup`. -/
def topUp (unit owner : String) (amount : Int) (reference : String) (expiresIn : Option Nat)
    (now : Nat) : Op Transfer := do
  positive amount
  match ← read (transfer reference) with
  | some existing => pure existing
  | none => do
    ensureAccount unit owner
    ensureAccount unit systemTopup
    match ← transaction .main (topUpIn unit owner amount reference expiresIn now) with
    | .done transfer => pure transfer
    | _ => do
      match ← read (transfer reference) with
      | some winner => pure winner
      | none => throw (.msg "a top-up lost an idempotency race and the winner is not there")

def consumeIn (unit owner : String) (amount : Int) (reference : String) (now : Nat) :
    Tx (Verdict (Attempt Transfer)) := do
  let source ← accountIn unit owner
  let target ← accountIn unit systemConsumption
  if ← debitAvailable source.id amount then do
    let _ ← credit target.id amount
    drawLots source.id amount
    match ← record .consume reference source.id target.id amount .null now with
    | none => pure (.rollback .raced)
    | some transfer => pure (.commit (.done transfer))
  else pure (.rollback (.short source.available))

def consume (unit owner : String) (amount : Int) (reference : String) (now : Nat) : Op Transfer := do
  positive amount
  match ← read (transfer reference) with
  | some existing => pure existing
  | none => do
    ensureAccount unit owner
    ensureAccount unit systemConsumption
    match ← transaction .main (consumeIn unit owner amount reference now) with
    | .done transfer => pure transfer
    | .short available => throw (insufficient owner amount available)
    | .raced => do
      match ← read (transfer reference) with
      | some winner => pure winner
      | none => throw (.msg "a consume lost an idempotency race and the winner is not there")

def holdIn (unit owner : String) (amount : Int) (reference : String) (ttl now : Nat) :
    Tx (Verdict (Attempt Hold)) := do
  let account ← accountIn unit owner
  let hold (n : Nat) : Hold :=
    { id := id "hold" n, accountId := account.id, amount := amount, status := .held
      reference := reference, createdAt := now, expiresAt := now + ttl }
  if ← updateAccount account.id (fun a => amount ≤ a.balance - a.held) 0 amount then do
    let (n, inserted) ← insert fun n => .newHold (hold n)
    if inserted then pure (.commit (.done (hold n))) else pure (.rollback .raced)
  else pure (.rollback (.short account.available))

def hold (unit owner : String) (amount : Int) (reference : String) (ttl now : Nat) : Op Hold := do
  positive amount
  match ← read (holdByReference reference) with
  | some existing => pure existing
  | none => do
    ensureAccount unit owner
    match ← transaction .main (holdIn unit owner amount reference ttl now) with
    | .done hold => pure hold
    | .short available => throw (insufficient owner amount available)
    | .raced => do
      match ← read (holdByReference reference) with
      | some winner => pure winner
      | none => throw (.msg "a hold lost an idempotency race and the winner is not there")

def holdNotHeld {α : Type} (holdId : String) : Op α := do
  match ← read (holdById holdId) with
  | some h =>
    let status := h.status.asStr
    throw (.msg s!"hold `{holdId}` is already {status}; a hold is captured or released once")
  | none => throw (.msg s!"no hold `{holdId}`")

def captureIn (unit holdId : String) (now : Nat) : Tx (Verdict (Option Transfer)) := do
  if ← updateHeld holdId .captured then
    match ← query (holdById holdId) with
    | none => throw (.msg s!"hold `{holdId}` vanished mid-capture")
    | some h => do
      let target ← accountIn unit systemConsumption
      let _ ← updateAccount h.accountId (fun _ => true) (-h.amount) (-h.amount)
      let _ ← credit target.id h.amount
      drawLots h.accountId h.amount
      match ← record .capture ("capture:" ++ h.reference) h.accountId target.id h.amount (.hold h.id) now with
      | some transfer => pure (.commit (some transfer))
      | none => throw (.msg s!"hold `{holdId}` was already captured")
  else pure (.rollback none)

def capture (unit holdId : String) (now : Nat) : Op Transfer := do
  ensureAccount unit systemConsumption
  match ← transaction .main (captureIn unit holdId now) with
  | some transfer => pure transfer
  | none => holdNotHeld holdId

def releaseOnce (holdId : String) : Tx (Verdict Bool) := do
  if ← releaseIn holdId then pure (.commit true) else pure (.rollback false)

def release (holdId : String) : Op Unit := do
  if ← transaction .main (releaseOnce holdId) then pure () else holdNotHeld holdId

/-! ## The sweep -/

structure Sweep where
  holdsReleased : Nat
  lotsExpired : Nat
  amountExpired : Int
  deriving DecidableEq

def sweepHolds : List Hold → Sweep → Op Sweep
  | [], swept => pure swept
  | h :: holds, swept => do
    let released ← statement (.releaseStale h.id) (releaseIn h.id)
    sweepHolds holds (if released then { swept with holdsReleased := swept.holdsReleased + 1 } else swept)

/-- Move a lot's remainder to `system:expiry`: how much was moved. -/
def moveExpired (unit lotId accountId : String) (amount : Int) (now : Nat) : Tx Int :=
  if 0 < amount then do
    let target ← accountIn unit systemExpiry
    if ← debitAvailable accountId amount then do
      let _ ← credit target.id amount
      -- the answer of `record` is not looked at
      let _ ← record .expire ("expire:" ++ lotId) accountId target.id amount (.lot lotId) now
      pure amount
    else pure 0
  else pure 0

/-- The transaction that expires one lot: `none` if there was nothing left in it, and otherwise how much was moved. -/
def expireLotIn (unit lotId accountId : String) (now : Nat) : Tx (Verdict (Option Int)) := do
  match ← query fun d => d.lots.find? fun l => l.id = lotId ∧ 0 < l.remaining with
  | none => pure (.rollback none)
  | some lot => do
    match ← query (accountById accountId) with
    | none => throw (.msg s!"lot `{lotId}` names an account that is not there")
    | some account => do
      let amount := max (min lot.remaining account.available) 0
      let _ ← tryUpdate fun d =>
        if d.lots.any fun l => l.id = lotId then some (.clearLot lotId lot.remaining) else none
      let moved ← moveExpired unit lotId accountId amount now
      pure (.commit (some moved))

def sweepLots (unit : String) (now : Nat) : List Lot → Sweep → Op Sweep
  | [], swept => pure swept
  | l :: lots, swept => do
    match ← transaction (.expireLot l.id l.accountId) (expireLotIn unit l.id l.accountId now) with
    | none => sweepLots unit now lots swept
    | some moved =>
      sweepLots unit now lots { swept with
        lotsExpired := swept.lotsExpired + 1, amountExpired := swept.amountExpired + moved }

def Hold.stale (now : Nat) (h : Hold) : Bool := h.status = .held ∧ h.expiresAt ≤ now

def Lot.dead (now : Nat) (l : Lot) : Bool := l.expiresAt.any (· ≤ now) ∧ 0 < l.remaining

def sweep (unit : String) (now : Nat) : Op Sweep := do
  ensureAccount unit systemExpiry
  let staleHolds ← read fun d => d.holds.filter (Hold.stale now)
  let swept ← sweepHolds staleHolds { holdsReleased := 0, lotsExpired := 0, amountExpired := 0 }
  let deadLots ← read fun d => d.lots.filter (Lot.dead now)
  sweepLots unit now deadLots swept

/-! ## Requests -/

inductive Request where
  | topUp (unit owner : String) (amount : Int) (reference : String) (expiresIn : Option Nat) (now : Nat)
  | consume (unit owner : String) (amount : Int) (reference : String) (now : Nat)
  | hold (unit owner : String) (amount : Int) (reference : String) (ttl now : Nat)
  | capture (unit holdId : String) (now : Nat)
  | release (unit holdId : String)
  | sweep (unit : String) (now : Nat)
  deriving DecidableEq

def Request.unit : Request → String
  | topUp unit .. | consume unit .. | hold unit .. | capture unit .. | release unit .. | sweep unit .. =>
    unit

inductive Reply where
  | transfer (t : Transfer)
  | hold (h : Hold)
  | released
  | swept (s : Sweep)
  deriving DecidableEq

def program : Request → Op Reply
  | .topUp unit owner amount reference expiresIn now => do
    let t ← topUp unit owner amount reference expiresIn now
    pure (.transfer t)
  | .consume unit owner amount reference now => do
    let t ← consume unit owner amount reference now
    pure (.transfer t)
  | .hold unit owner amount reference ttl now => do
    let h ← hold unit owner amount reference ttl now
    pure (.hold h)
  | .capture unit holdId now => do
    let t ← capture unit holdId now
    pure (.transfer t)
  | .release _ holdId => do
    release holdId
    pure .released
  | .sweep unit now => do
    let s ← sweep unit now
    pure (.swept s)

/-- The database shared by any number of calls, in every order of their transactions. -/
def system (allowed : Request → Prop) (cond : Request → Point → Book → Prop) :
    Transact.System Request Point Book Write (Except Error Reply) where
  program := fun req => (program req).run
  allowed := allowed
  cond := cond

variable {allowed : Request → Prop} {cond : Request → Point → Book → Prop}

instance [h : DecidablePred allowed] : DecidablePred (system allowed cond).allowed := h

instance [h : ∀ req p d, Decidable (cond req p d)] (req : Request) (p : Point) (d : Book) :
    Decidable ((system allowed cond).cond req p d) := h req p d

def inTurn (calls : List (Request × Nat)) : List (Transact.System.Event Request) :=
  (calls.zipIdx.map fun ((req, steps), i) => .call req :: List.replicate steps (.advance i)).flatten

end Rustlavel.Ledger
