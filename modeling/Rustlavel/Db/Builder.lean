/-
  The query builder: a statement being assembled, and the text and the parameters it is made into for one
  database.
-/

import Rustlavel.Db.Value

namespace Rustlavel.Db

/-! ## Dialects -/

inductive Dialect where
  | postgres
  | mySql
  | sqlite
  | sqlServer
  deriving DecidableEq

inductive ReturningStyle where
  | suffix
  | outputClause
  | separateQuery (sql : String)

namespace Dialect

def quote : Dialect → String → String
  | .postgres, identifier | .sqlite, identifier => "\"" ++ identifier ++ "\""
  | .mySql, identifier => "`" ++ identifier ++ "`"
  | .sqlServer, identifier => "[" ++ identifier ++ "]"

def placeholder : Dialect → Nat → String
  | .postgres, position => "$" ++ position.repr
  | .mySql, _ | .sqlite, _ => "?"
  | .sqlServer, position => "@P" ++ position.repr

def maxIdentifierLength : Dialect → Nat
  | .postgres | .sqlite => 63
  | .mySql => 64
  | .sqlServer => 128

def returning : Dialect → ReturningStyle
  | .postgres => .suffix
  | .mySql => .separateQuery "select last_insert_id()"
  | .sqlite => .separateQuery "select last_insert_rowid()"
  | .sqlServer => .outputClause

def limitOffset : Dialect → Option Int → Option Int → Bool → String
  | .postgres, limit, offset, _ =>
    (match limit with | some limit => " limit " ++ limit.toNat.repr | none => "") ++
    (match offset with | some offset => " offset " ++ offset.toNat.repr | none => "")
  | .sqlite, limit, offset, _ =>
    (match limit with | some limit => " limit " ++ limit.toNat.repr | none => "") ++
    (match offset with
      -- there is no offset without a limit, and -1 is none
      | some offset => (if limit.isNone then " limit -1" else "") ++ " offset " ++ offset.toNat.repr
      | none => "")
  | .mySql, none, some offset, _ => " limit 18446744073709551615 offset " ++ offset.toNat.repr
  | .mySql, some limit, offset, _ =>
    " limit " ++ limit.toNat.repr ++
    (match offset with | some offset => " offset " ++ offset.toNat.repr | none => "")
  | .mySql, none, none, _ => ""
  | .sqlServer, none, none, _ => ""
  | .sqlServer, limit, offset, ordered =>
    -- paging is only legal after an ordering
    (if ordered then "" else " order by (select null)") ++
    " offset " ++ (offset.getD 0).toNat.repr ++ " rows" ++
    (match limit with | some limit => " fetch next " ++ limit.toNat.repr ++ " rows only" | none => "")

end Dialect

/-! ## Identifiers -/

def isIdentifier (name : String) (maxLength : Nat) : Bool := !name.isEmpty && name.utf8ByteSize ≤ maxLength &&
    name.toList.head?.any (fun c => c.isAlpha || c == '_') &&
    name.toList.all fun c => c.isAlphanum || c == '_'

def validateIdentifier (name : String) (maxLength : Nat) : Except String Unit :=
  if isIdentifier name maxLength then .ok ()
  else .error s!"`{name}` is not a valid SQL identifier. Identifiers may contain letters, digits and underscores, must not start with a digit, and must be at most {maxLength} characters."

def quoteIdentifier (D : Dialect) (name : String) : Except String String := do
  validateIdentifier name D.maxIdentifierLength
  return D.quote name

def quoteQualified (D : Dialect) (name : String) : Except String String := do
  let parts ← ((name.toList.splitOn '.').map String.ofList).mapM (quoteIdentifier D)
  return ".".intercalate parts

/-! ## Builders -/

inductive Direction where
  | asc
  | desc
  deriving DecidableEq

def Direction.asSql : Direction → String
  | .asc => "asc"
  | .desc => "desc"

inductive Condition where
  | comparison (column operator : String) (value : Value) (isOr : Bool)
  | inList (column : String) (values : List Value) (negated isOr : Bool)
  | null (column : String) (negated isOr : Bool)
  | between (column : String) (low high : Value) (isOr : Bool)
  | group (conditions : List Condition) (isOr : Bool)

def Condition.isOr : Condition → Bool
  | .comparison _ _ _ isOr | .inList _ _ _ isOr | .null _ _ isOr | .between _ _ _ isOr | .group _ isOr => isOr

inductive JoinKind where
  | inner
  | left
  deriving DecidableEq

def JoinKind.asSql : JoinKind → String
  | .inner => "inner join"
  | .left => "left join"

structure Join where
  kind : JoinKind
  table : String
  left : String
  operator : String
  right : String

structure QueryBuilder where
  table : String
  columns : List String := []
  conditions : List Condition := []
  joins : List Join := []
  order : List (String × Direction) := []
  group : List String := []
  limit : Option Int := none
  offset : Option Int := none
  distinct : Bool := false

/-! ## Columns and operators -/

def dropStart (start text : String) : Option String :=
  if start.toList.isPrefixOf text.toList then some (.ofList (text.toList.drop start.toList.length)) else none

def dropEnd (ending text : String) : Option String :=
  if ending.toList.isSuffixOf text.toList then
    some (.ofList (text.toList.take (text.toList.length - ending.toList.length)))
  else none

inductive Aggregate where
  | count
  | sum
  | avg
  | min
  | max
  deriving DecidableEq

def Aggregate.word : Aggregate → String
  | .count => "count"
  | .sum => "sum"
  | .avg => "avg"
  | .min => "min"
  | .max => "max"

def aggregateOf (column : String) : Option (Aggregate × String) :=
  [Aggregate.count, .sum, .avg, .min, .max].findSome? fun a =>
    ((dropStart (a.word ++ "(") column).bind (dropEnd ")")).map fun inner => (a, inner)

def renderInner (D : Dialect) (inner : String) : Except String String :=
  if inner = "*" then .ok "*" else quoteQualified D inner

def columnRef (D : Dialect) (column : String) : Except String String :=
  if column = "*" then .ok "*"
  else
    match dropStart "count(*) as " column with
    | some rest => do
      let quoted ← quoteIdentifier D rest
      return "count(*) as " ++ quoted
    | none =>
      match aggregateOf column with
      | some (a, inner) => do
        let rendered ← renderInner D inner
        return a.word ++ "(" ++ rendered ++ ")"
      | none => quoteQualified D column

def allowedOperators : List String :=
  ["=", "!=", "<>", "<", "<=", ">", ">=", "like", "not like", "ilike", "not ilike", "@>", "<@", "?",
    "is distinct from"]

def checkOperator (operator : String) : Except String Unit :=
  let allowed := ", ".intercalate allowedOperators
  if operator.toLower ∈ allowedOperators then .ok ()
  else .error s!"`{operator}` is not an allowed comparison operator. Allowed: {allowed}"

/-! ## Conditions -/

def bindAll (D : Dialect) : List Value → List Value → List String × List Value
  | [], params => ([], params)
  | value :: values, params =>
    let bound := bindAll D values (params ++ [value])
    (D.placeholder (params.length + 1) :: bound.1, bound.2)

mutual

def renderCondition (D : Dialect) : Condition → List Value → Except String (String × List Value)
  | .comparison column operator value _, params => do
    checkOperator operator
    let column ← columnRef D column
    return (column ++ " " ++ operator ++ " " ++ D.placeholder (params.length + 1), params ++ [value])
  | .inList column values negated _, params =>
    if values.isEmpty then .ok (if negated then "true" else "false", params)
    else do
      let bound := bindAll D values params
      let column ← columnRef D column
      return (column ++ " " ++ (if negated then "not " else "") ++ "in (" ++ ", ".intercalate bound.1 ++ ")", bound.2)
  | .null column negated _, params => do
    let column ← columnRef D column
    return (column ++ " is " ++ (if negated then "not " else "") ++ "null", params)
  | .between column low high _, params => do
    let column ← columnRef D column
    return (column ++ " between " ++ D.placeholder (params.length + 1) ++ " and " ++
      D.placeholder (params.length + 2), params ++ [low, high])
  | .group conditions _, params => do
    let rendered ← renderConditions D true conditions params
    return ("(" ++ rendered.1 ++ ")", rendered.2)

def renderConditions (D : Dialect) (first : Bool) : List Condition → List Value → Except String (String × List Value)
  | [], params => .ok ("", params)
  | condition :: conditions, params => do
    let rendered ← renderCondition D condition params
    let rest ← renderConditions D false conditions rendered.2
    let joined := if first then "" else if condition.isOr then " or " else " and "
    return (joined ++ rendered.1 ++ rest.1, rest.2)

end

namespace QueryBuilder

variable (D : Dialect) (q : QueryBuilder) (rows : List (List (String × Value)))

/-! ## Statements -/

def renderColumns : Except String String :=
  if q.columns.isEmpty then .ok "*"
  else do
    let rendered ← q.columns.mapM (columnRef D)
    return ", ".intercalate rendered

def renderJoin (join : Join) : Except String String := do
  checkOperator join.operator
  let table ← quoteQualified D join.table
  let left ← columnRef D join.left
  let right ← columnRef D join.right
  return " " ++ join.kind.asSql ++ " " ++ table ++ " on " ++ left ++ " " ++ join.operator ++ " " ++ right

def renderWhere (params : List Value) : Except String (String × List Value) := do
  let rendered ← renderConditions D true q.conditions params
  return (" where " ++ rendered.1, rendered.2)

def renderFilters : Except String (String × List Value) :=
  if q.conditions.isEmpty then .ok ("", []) else q.renderWhere D []

def renderGroup : Except String String :=
  if q.group.isEmpty then .ok ""
  else do
    let rendered ← q.group.mapM (columnRef D)
    return " group by " ++ ", ".intercalate rendered

def renderOrder : Except String String :=
  if q.order.isEmpty then .ok ""
  else do
    let rendered ← q.order.mapM fun item => do
      let column ← columnRef D item.1
      return column ++ " " ++ item.2.asSql
    return " order by " ++ ", ".intercalate rendered

def toSql : Except String (String × List Value) := do
  let columns ← q.renderColumns D
  let table ← quoteQualified D q.table
  let joins ← q.joins.mapM (renderJoin D)
  let filtered ← q.renderFilters D
  let group ← q.renderGroup D
  let order ← q.renderOrder D
  return ("select " ++ (if q.distinct then "distinct " else "") ++ columns ++ " from " ++ table ++
    String.join joins ++ filtered.1 ++ group ++ order ++ D.limitOffset q.limit q.offset (!q.order.isEmpty),
    filtered.2)

def renderAssignments : List (String × Value) → List Value → Except String (List String × List Value)
  | [], params => .ok ([], params)
  | (column, value) :: values, params => do
    let quoted ← quoteIdentifier D column
    let rest ← renderAssignments values (params ++ [value])
    return ((quoted ++ " = " ++ D.placeholder (params.length + 1)) :: rest.1, rest.2)

def toUpdateSql (values : List (String × Value)) : Except String (String × List Value) :=
  if values.isEmpty then .error "update needs at least one column"
  else do
    let assignments ← renderAssignments D values []
    let table ← quoteQualified D q.table
    if q.conditions.isEmpty then
      .error "refusing to update every row: add a filter, or call `update_all` if that is really intended"
    else do
      let filtered ← q.renderWhere D assignments.2
      return ("update " ++ table ++ " set " ++ ", ".intercalate assignments.1 ++ filtered.1, filtered.2)

def toDeleteSql (allowAll : Bool) : Except String (String × List Value) := do
  let table ← quoteQualified D q.table
  if q.conditions.isEmpty then
    if allowAll then .ok ("delete from " ++ table, [])
    else
      .error "refusing to delete every row: add a filter, or call `delete_all` if that is really intended"
  else do
    let filtered ← q.renderWhere D []
    return ("delete from " ++ table ++ filtered.1, filtered.2)

/-! ## Inserts -/

def renderRow (columns : List String) : List (String × Value) → List Value → Except String (List String × List Value)
  | [], params => .ok ([], params)
  | (name, value) :: row, params =>
    if columns.contains name then do
      let rest ← renderRow columns row (params ++ [value])
      return (D.placeholder (params.length + 1) :: rest.1, rest.2)
    else .error s!"column `{name}` is missing from the first row of this insert"

def renderRows (columns : List String) :
    List (List (String × Value)) → List Value → Except String (List String × List Value)
  | [], params => .ok ([], params)
  | row :: rows, params =>
    if row.length ≠ columns.length then .error "every row in a bulk insert must have the same columns"
    else do
      let slots ← renderRow D columns row params
      let rest ← renderRows columns rows slots.2
      return (("(" ++ ", ".intercalate slots.1 ++ ")") :: rest.1, rest.2)

def toInsertSql (returning : Option String) : Except String (String × List Value) :=
  match rows with
  | [] => .error "insert needs at least one row"
  | first :: _ => do
    let columns := first.map (·.1)
    let values ← renderRows D columns rows []
    let table ← quoteQualified D q.table
    let rendered ← columns.mapM (quoteIdentifier D)
    let columnsSql := ", ".intercalate rendered
    let valuesSql := ", ".intercalate values.1
    let plain := "insert into " ++ table ++ " (" ++ columnsSql ++ ") values " ++ valuesSql
    match returning, D.returning with
    | none, _ | some _, .separateQuery _ => return (plain, values.2)
    | some column, .suffix => do
      let quoted ← quoteIdentifier D column
      return (plain ++ " returning " ++ quoted, values.2)
    | some column, .outputClause => do
      let quoted ← quoteIdentifier D column
      return ("insert into " ++ table ++ " (" ++ columnsSql ++ ") output inserted." ++ quoted ++
        " values " ++ valuesSql, values.2)

def insertMany : Except String (Option (String × List Value)) :=
  if rows.isEmpty then .ok none else (q.toInsertSql D rows none).map some

end QueryBuilder

end Rustlavel.Db
