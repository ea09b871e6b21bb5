/-
  The store of roles and permissions: five tables, a cache of what has been resolved
  for each user, and the calls on them, one statement or cache access at a time.
-/

import Rustlavel.Lib.Transact
import Rustlavel.Lib.Versions
import Rustlavel.OAuth.Scopes

namespace Rustlavel.Rbac

open Transact Tx
open OAuth (isWhitespace)

/-! ## Names -/

def nameSet (names : List String) : List String := (names.insertionSort (· ≤ ·)).dedup

def stripSuffix (ending name : List Char) : Option (List Char) :=
  if ending.isSuffixOf name then some (name.take (name.length - ending.length)) else none

/-- Does a stored name satisfy a check for `wanted`? -/
def permissionMatches (stored wanted : String) : Bool :=
  if stored = "*" ∨ stored = wanted then true
  else
    match stripSuffix ['.', '*'] stored.toList with
    | none => false
    | some stem =>
      stem.length < wanted.toList.length && stem.isPrefixOf wanted.toList && wanted.toList[stem.length]? == some '.'

/-! ## Grants -/

structure Grants where
  roles : List String := []
  granted : List String := []
  denied : List String := []
  isSuper : Bool := false

namespace Grants

variable (g : Grants) (permission : String)

def denies : Bool := g.denied.any fun stored => permissionMatches stored permission

def allows : Bool :=
  if g.denies permission then false
  else if g.isSuper then true
  else g.granted.any fun stored => permissionMatches stored permission

end Grants

/-! ## Tables -/

inductive Kind where
  | role
  | permission
  deriving DecidableEq

def Kind.word : Kind → String
  | .role => "role"
  | .permission => "permission"

structure Named where
  id : Int
  name : String
  description : Option String := none

structure NamedTable where
  rows : List Named := []
  nextId : Int := 1

structure Direct where
  userId : Int
  permissionId : Int
  granted : Bool

structure Tables where
  roles : NamedTable := {}
  permissions : NamedTable := {}
  rolePermission : List (Int × Int) := []
  userRole : List (Int × Int) := []
  userPermission : List Direct := []

namespace Tables

variable (t : Tables)

def named : Kind → NamedTable
  | .role => t.roles
  | .permission => t.permissions

def setNamed (table : NamedTable) : Kind → Tables
  | .role => { t with roles := table }
  | .permission => { t with permissions := table }

def findNamed (kind : Kind) (name : String) : Option Named := (t.named kind).rows.find? fun row => row.name = name

def hasId (kind : Kind) (id : Int) : Bool := (t.named kind).rows.any fun row => row.id = id

def rolesOf (user : Int) : List Named := t.userRole.filterMap fun row =>
    if row.1 = user then t.roles.rows.find? fun role => role.id = row.2 else none

def permissionNames (roleIds : List Int) : List String := nameSet <| t.rolePermission.filterMap fun row =>
    if row.1 ∈ roleIds then
      (t.permissions.rows.find? fun permission => permission.id = row.2).map (·.name)
    else none

def directPermissions (user : Int) : List (String × Bool) := (t.userPermission.filterMap fun row =>
    if row.userId = user then
      (t.permissions.rows.find? fun permission => permission.id = row.permissionId).map
        fun permission => (permission.name, row.granted)
    else none).insertionSort fun a b => a.1 ≤ b.1

def cascade (ids : List Int) : Kind → Tables
  | .role =>
    { t with
      rolePermission := t.rolePermission.filter (·.1 ∉ ids)
      userRole := t.userRole.filter (·.2 ∉ ids) }
  | .permission =>
    { t with
      rolePermission := t.rolePermission.filter (·.2 ∉ ids)
      userPermission := t.userPermission.filter (·.permissionId ∉ ids) }

end Tables

/-! ## Statements that write -/

inductive Edit where
  | insertRolePermission (role permission : Int)
  | deleteRolePermission (role permission : Int)
  | insertUserRole (user role : Int)
  | deleteUserRole (user role : Int)
  | deleteUserRoles (user : Int)
  | updateDirect (user permission : Int) (granted : Bool)
  | insertDirect (user permission : Int) (granted : Bool)
  | deleteDirect (user permission : Int)
  | deleteDirects (user : Int)
  | insertNamed (kind : Kind) (name : String) (description : Option String)
  | renameNamed (kind : Kind) (source target : String)
  | deleteNamed (kind : Kind) (name : String)

def duplicateKey : String := "duplicate key"

def missingParent : String := "violates a foreign key"

def guardInsert (taken parents : Bool) (t : Tables) : Except String (Tables × Int) :=
  if taken then .error duplicateKey else if parents then .ok (t, 1) else .error missingParent

def Edit.run (t : Tables) : Edit → Except String (Tables × Int)
  | .insertRolePermission role permission =>
    guardInsert ((role, permission) ∈ t.rolePermission) (t.hasId .role role && t.hasId .permission permission)
      { t with rolePermission := t.rolePermission ++ [(role, permission)] }
  | .deleteRolePermission role permission =>
    .ok ({ t with rolePermission := t.rolePermission.filter (· ≠ (role, permission)) },
      t.rolePermission.count (role, permission))
  | .insertUserRole user role =>
    guardInsert ((user, role) ∈ t.userRole) (t.hasId .role role) { t with userRole := t.userRole ++ [(user, role)] }
  | .deleteUserRole user role =>
    .ok ({ t with userRole := t.userRole.filter (· ≠ (user, role)) }, t.userRole.count (user, role))
  | .deleteUserRoles user =>
    .ok ({ t with userRole := t.userRole.filter (·.1 ≠ user) }, t.userRole.countP (·.1 = user))
  | .updateDirect user permission granted =>
    .ok ({ t with userPermission := t.userPermission.map fun row =>
            if row.userId = user ∧ row.permissionId = permission then { row with granted := granted }
            else row },
      t.userPermission.countP fun row => row.userId = user ∧ row.permissionId = permission)
  | .insertDirect user permission granted =>
    guardInsert (t.userPermission.any fun row => row.userId = user ∧ row.permissionId = permission)
      (t.hasId .permission permission)
      { t with userPermission := t.userPermission ++
          [{ userId := user, permissionId := permission, granted := granted }] }
  | .deleteDirect user permission =>
    .ok ({ t with userPermission := t.userPermission.filter fun row =>
            ¬(row.userId = user ∧ row.permissionId = permission) },
      t.userPermission.countP fun row => row.userId = user ∧ row.permissionId = permission)
  | .deleteDirects user =>
    .ok ({ t with userPermission := t.userPermission.filter (·.userId ≠ user) },
      t.userPermission.countP (·.userId = user))
  | .insertNamed kind name description =>
    let table := t.named kind
    if (t.findNamed kind name).isSome then .error duplicateKey
    else
      .ok (t.setNamed { rows := table.rows ++ [{ id := table.nextId, name := name, description := description }],
                        nextId := table.nextId + 1 } kind, table.nextId)
  | .renameNamed kind source target =>
    let table := t.named kind
    if source ≠ target ∧ (t.findNamed kind source).isSome ∧ (t.findNamed kind target).isSome then
      .error duplicateKey
    else
      .ok (t.setNamed { table with rows := table.rows.map fun row =>
              if row.name = source then { row with name := target } else row } kind,
        table.rows.countP (·.name = source))
  | .deleteNamed kind name =>
    let table := t.named kind
    let gone := (table.rows.filter (·.name = name)).map (·.id)
    .ok ((t.setNamed { table with rows := table.rows.filter (·.name ≠ name) } kind).cascade gone kind, gone.length)

/-! ## The world -/

structure Entry where
  grants : Grants
  expiresAt : Nat

structure World where
  tables : Versions Tables
  cache : Slots Int Entry := {}
  now : Nat := 0

def World.cached (d : World) (user : Int) : Option Grants :=
  match d.cache.entry user with
  | none => none
  | some entry => if d.now < entry.expiresAt then some entry.grants else none

inductive Write where
  | tables (t : Tables)
  | insert (user : Int) (grants : Grants) (ttl asOf : Nat)
  | drop (who : Option Int) (wrote : Nat)
  | wait (duration : Nat)

def dropped (who : Option Int) (user : Int) : Bool := who.all (· = user)

instance : Store World Write where
  apply
    | .tables t, d => { d with tables := d.tables.write t }
    | .insert user grants ttl asOf, d =>
      { d with cache := d.cache.put user { grants := grants, expiresAt := d.now + ttl } asOf }
    | .drop who wrote, d => { d with cache := d.cache.drop (dropped who) wrote }
    | .wait duration, d => { d with now := d.now + duration }

/-! ## Calls -/

inductive Point where
  | lookup
  | readRoles
  | readPermissions
  | readDirect
  | find (kind : Kind) (name : String)
  | exists
  | edit (e : Edit)
  | insert (user : Int) (asOf : Nat)
  | drop
  | wait

inductive Call where
  | grantsFor (user : Int)
  | assignRole (user : Int) (role : String)
  | removeRole (user : Int) (role : String)
  | grant (user : Int) (permission : String)
  | deny (user : Int) (permission : String)
  | reset (user : Int) (permission : String)
  | purgeUser (user : Int)
  | attachPermission (role permission : String)
  | detachPermission (role permission : String)
  | setRolePermissions (role : String) (names : List String)
  | create (kind : Kind) (name : String) (description : Option String)
  | rename (kind : Kind) (source target : String)
  | delete (kind : Kind) (name : String)
  | wait (duration : Nat)

def Call.concerns (user : Int) : Call → Prop
  | .grantsFor _ | .create .. | .wait _ => False
  | .assignRole u _ | .removeRole u _ | .grant u _ | .deny u _ | .reset u _ | .purgeUser u => u = user
  | .attachPermission .. | .detachPermission .. | .setRolePermissions .. | .rename .. | .delete .. => True

structure Request where
  call : Call
  fault : Point → Option String := fun _ => none

/-- What a call returns, with how many writes had been made when the grants began to be
    read, or when it had written. -/
inductive Outcome where
  | granted (grants : Grants) (asOf : Nat)
  | changed (wrote : Nat)
  | created (id : Int)
  | done

abbrev Op (α : Type) : Type 1 := ExceptT String (Prog Point World Write) α

variable {α : Type}

namespace Request

variable (x : Request)

def perform (l : Point) (body : ExceptT String (Tx World Write) α) : Op α := Prog.statement l <|
    match x.fault l with
    | some error => throw error
    | none => body

def select (l : Point) (f : Tables → α) : Op α := x.perform l (query fun d => f d.tables.current)

def edit (e : Edit) : Op (Int × Nat) := x.perform (.edit e) do
    match ← query fun d => e.run d.tables.current with
    | .error message => throw message
    | .ok (t, returned) =>
      let _ ← tryUpdate fun _ => some (.tables t)
      let wrote ← query fun d => d.tables.clock
      return (returned, wrote)

end Request

/-! ### The cache -/

def access (l : Point) (w : Write) : Op Bool := Prog.statement l (tryUpdate fun _ => some w)

def lookup (user : Int) : Op (Option (Grants × Nat)) := Prog.statement .lookup <| query fun d =>
    (d.cached user).map fun grants => (grants, d.cache.readAt user)

/-- Drop one user's grants, or everybody's, after the write `wrote`. -/
def dropEntries (who : Option Int) (wrote : Nat) : Op Nat := do
  let _ ← access .drop (.drop who wrote)
  return wrote

def forget (user : Int) (wrote : Nat) : Op Nat := dropEntries (some user) wrote

def flush (wrote : Nat) : Op Nat := dropEntries none wrote

/-! ### Names -/

def trim (name : String) : String :=
  .ofList ((name.toList.dropWhile isWhitespace).reverse.dropWhile isWhitespace).reverse

/-- `char::is_control`: the characters of the category `Cc`. -/
def isControl (c : Char) : Bool := c.toNat < 0x20 || 0x7F ≤ c.toNat && c.toNat ≤ 0x9F

def validateName (kind name : String) : Except String Unit :=
  let trimmed := trim name
  let length := name.utf8ByteSize
  if name = "" then .error s!"a {kind} needs a name"
  else if trimmed ≠ name then
    .error s!"the {kind} name `{name}` has leading or trailing whitespace, which would make it indistinguishable from `{trimmed}` in a list"
  else if 255 < length then .error s!"the {kind} name is {length} characters; the column holds 255"
  else if name.toList.any isControl then .error s!"the {kind} name contains a control character"
  else .ok ()

def alreadyExists (kind name : String) : String := s!"a {kind} named `{name}` already exists"

def isMissing (kind name : String) : String :=
  s!"there is no {kind} named `{name}`. Create it first with `create_{kind}(\"{name}\")` — this crate will not invent one for you, because a typo that silently defines a new {kind} is a hole, not a convenience."

namespace Request

variable (x : Request) (kind : Kind) (name : String)

def validate : Op Unit := ExceptT.mk (pure (validateName kind.word name))

def findNamed : Op (Option Named) := x.select (.find kind name) fun t => t.findNamed kind name

def requireNamed : Op Named := do
  match ← x.findNamed kind name with
  | some row => return row
  | none => throw (isMissing kind.word name)

def idOf : Op Int := do
  let row ← x.requireNamed kind name
  return row.id

/-! ### Roles and permissions -/

def create (description : Option String) : Op Int := do
  validate kind name
  match ← x.findNamed kind name with
  | some _ => throw (alreadyExists kind.word name)
  | none =>
    let inserted ← x.edit (.insertNamed kind name description)
    return inserted.1

def rename (kind : Kind) (source target : String) : Op Nat := do
  validate kind target
  let _ ← x.requireNamed kind source
  match ← x.findNamed kind target with
  | some _ => throw (alreadyExists kind.word target)
  | none =>
    let updated ← x.edit (.renameNamed kind source target)
    flush updated.2

def delete : Op Nat := do
  let _ ← x.requireNamed kind name
  let deleted ← x.edit (.deleteNamed kind name)
  flush deleted.2

def insertUnless (already : Bool) (e : Edit) (who : Option Int) : Op Nat :=
  if already then dropEntries who 0
  else do
    let inserted ← x.edit e
    dropEntries who inserted.2

variable (role : String)

def attachPermission (permission : String) : Op Nat := do
  let roleId ← x.idOf .role role
  let permissionId ← x.idOf .permission permission
  let already ← x.select .exists fun t => decide ((roleId, permissionId) ∈ t.rolePermission)
  x.insertUnless already (.insertRolePermission roleId permissionId) none

def detachPermission (permission : String) : Op Nat := do
  let roleId ← x.idOf .role role
  let permissionId ← x.idOf .permission permission
  let deleted ← x.edit (.deleteRolePermission roleId permissionId)
  flush deleted.2

def rolePermissions : Op (List String) := do
  let roleId ← x.idOf .role role
  x.select .readPermissions fun t => t.permissionNames [roleId]

def setRolePermissions (names : List String) : Op Nat := do
  let wanted := nameSet names
  let current ← x.rolePermissions role
  let attached ← (wanted.filter (· ∉ current)).foldlM (fun _ name => x.attachPermission role name) 0
  (current.filter (· ∉ wanted)).foldlM (fun _ name => x.detachPermission role name) attached

/-! ### Users -/

variable (user : Int)

def assignRole (role : String) : Op Nat := do
  let roleId ← x.idOf .role role
  let already ← x.select .exists fun t => decide ((user, roleId) ∈ t.userRole)
  x.insertUnless already (.insertUserRole user roleId) (some user)

def removeRole (role : String) : Op Nat := do
  let roleId ← x.idOf .role role
  let deleted ← x.edit (.deleteUserRole user roleId)
  forget user deleted.2

def setDirect (permission : String) (granted : Bool) : Op Nat := do
  let permissionId ← x.idOf .permission permission
  let updated ← x.edit (.updateDirect user permissionId granted)
  if updated.1 = 0 then do
    let inserted ← x.edit (.insertDirect user permissionId granted)
    forget user inserted.2
  else forget user updated.2

def grant (permission : String) : Op Nat := x.setDirect user permission true

def deny (permission : String) : Op Nat := x.setDirect user permission false

def reset (permission : String) : Op Nat := do
  let permissionId ← x.idOf .permission permission
  let deleted ← x.edit (.deleteDirect user permissionId)
  forget user deleted.2

def purgeUser : Op Nat := do
  let _ ← x.edit (.deleteUserRoles user)
  let deleted ← x.edit (.deleteDirects user)
  forget user deleted.2

end Request

/-! ### Checks -/

/-- How a store is set up: the roles that pass every check, and for how many milliseconds grants are reused. -/
structure Permissions where
  superRoles : List String := ["super-admin"]
  ttl : Nat := 30000

namespace Permissions

variable (P : Permissions) (x : Request)

def resolve (roles : List Named) (inherited : List String) (direct : List (String × Bool)) : Grants where
  roles := nameSet (roles.map (·.name))
  granted := nameSet (inherited ++ (direct.filter (·.2)).map (·.1))
  denied := nameSet ((direct.filter (!·.2)).map (·.1))
  isSuper := roles.any fun role => P.superRoles.contains role.name

def readInherited (roles : List Named) : Op (List String) :=
  if roles.isEmpty then return []
  else x.select .readPermissions fun t => t.permissionNames (roles.map (·.id))

def load (user : Int) : Op (Grants × Nat) := do
  let roles ← x.perform .readRoles (query fun d => (d.tables.current.rolesOf user, d.tables.clock))
  let inherited ← readInherited x roles.1
  let direct ← x.select .readDirect fun t => t.directPermissions user
  return (P.resolve roles.1 inherited direct, roles.2)

def keep (user : Int) (grants : Grants) (asOf : Nat) : Op Outcome :=
  if P.ttl = 0 then return .granted grants asOf
  else do
    let _ ← access (.insert user asOf) (.insert user grants P.ttl asOf)
    return .granted grants asOf

def grantsFor (user : Int) : Op Outcome := do
  match ← lookup user with
  | some (grants, asOf) => return .granted grants asOf
  | none =>
    let loaded ← P.load x user
    P.keep user loaded.1 loaded.2

def wait (duration : Nat) : Op Outcome := do
  let _ ← access .wait (.wait duration)
  return .done

def run : Op Outcome :=
  match x.call with
  | .grantsFor user => P.grantsFor x user
  | .assignRole user role => .changed <$> x.assignRole user role
  | .removeRole user role => .changed <$> x.removeRole user role
  | .grant user permission => .changed <$> x.grant user permission
  | .deny user permission => .changed <$> x.deny user permission
  | .reset user permission => .changed <$> x.reset user permission
  | .purgeUser user => .changed <$> x.purgeUser user
  | .attachPermission role permission => .changed <$> x.attachPermission role permission
  | .detachPermission role permission => .changed <$> x.detachPermission role permission
  | .setRolePermissions role names => .changed <$> x.setRolePermissions role names
  | .create kind name description => .created <$> x.create kind name description
  | .rename kind source target => .changed <$> x.rename kind source target
  | .delete kind name => .changed <$> x.delete kind name
  | .wait duration => wait duration

abbrev system (cond : Request → Point → World → Prop) : System Request Point World Write (Except String Outcome) where
  program x := (P.run x).run
  allowed _ := True
  cond := cond

end Permissions

end Rustlavel.Rbac
