/-
  What the text of a statement is made of.
-/

import Rustlavel.Db.Builder
import Rustlavel.Lib.Template

namespace Rustlavel.Db

open Template

/-! ## Pieces -/

structure Identifier (D : Dialect) where
  name : String
  valid : isIdentifier name D.maxIdentifierLength = true

structure Operator where
  name : String
  allowed : name.toLower ∈ allowedOperators

inductive Keyword where
  | select | distinct | star | comma | fromTable | blank | innerJoin | leftJoin | onColumns | whereAll
  | andAlso | orElse | groupBy | orderBy | ascending | descending | openParen | closeParen | countAs
  | aggregate (a : Aggregate)
  | notWord | inOpen | isWord | nullWord | between | trueWord | falseWord | dot
  | limit | offset | rows | fetchNext | rowsOnly | orderByNull | noLimit | allRowsOffset
  | update | setColumns | assign | deleteFrom

def Keyword.text : Keyword → String
  | .select => "select " | .distinct => "distinct " | .star => "*" | .comma => ", "
  | .fromTable => " from " | .blank => " " | .innerJoin => "inner join" | .leftJoin => "left join"
  | .onColumns => " on " | .whereAll => " where " | .andAlso => " and " | .orElse => " or "
  | .groupBy => " group by " | .orderBy => " order by " | .ascending => "asc" | .descending => "desc"
  | .openParen => "(" | .closeParen => ")" | .countAs => "count(*) as "
  | .aggregate a => a.word
  | .notWord => "not " | .inOpen => "in (" | .isWord => " is " | .nullWord => "null"
  | .between => " between " | .trueWord => "true" | .falseWord => "false" | .dot => "."
  | .limit => " limit " | .offset => " offset " | .rows => " rows" | .fetchNext => " fetch next "
  | .rowsOnly => " rows only" | .orderByNull => " order by (select null)" | .noLimit => " limit -1"
  | .allRowsOffset => " limit 18446744073709551615 offset "
  | .update => "update " | .setColumns => " set " | .assign => " = " | .deleteFrom => "delete from "

inductive Piece (D : Dialect) where
  | keyword (k : Keyword)
  | name (x : Identifier D)
  | operator (op : Operator)
  | number (k : Keyword) (n : Nat)

def Piece.text {D : Dialect} : Piece D → String
  | .keyword k => k.text
  | .name x => D.quote x.name
  | .operator op => op.name ++ " "
  | .number k n => k.text ++ n.repr

abbrev Parts (D : Dialect) : Type := List (Chunk (Piece D))

/-- The text of an outline after `n` parameters have been bound. -/
def Parts.text {D : Dialect} (n : Nat) (ps : Parts D) : String := fill Piece.text D.placeholder n ps

/-! ## Builders without their values -/

inductive Shape where
  | comparison (column operator : String) (isOr : Bool)
  | inList (column : String) (length : Nat) (negated isOr : Bool)
  | null (column : String) (negated isOr : Bool)
  | between (column : String) (isOr : Bool)
  | group (conditions : List Shape) (isOr : Bool)

def Shape.isOr : Shape → Bool
  | .comparison _ _ isOr | .inList _ _ _ isOr | .null _ _ isOr | .between _ isOr | .group _ isOr => isOr

mutual

def Condition.shape : Condition → Shape
  | .comparison column operator _ isOr => .comparison column operator isOr
  | .inList column values negated isOr => .inList column values.length negated isOr
  | .null column negated isOr => .null column negated isOr
  | .between column _ _ isOr => .between column isOr
  | .group conditions isOr => .group (shapes conditions) isOr

def shapes : List Condition → List Shape
  | [] => []
  | condition :: conditions => condition.shape :: shapes conditions

end

mutual

def Condition.values : Condition → List Value
  | .comparison _ _ value _ => [value]
  | .inList _ values _ _ => values
  | .null _ _ _ => []
  | .between _ low high _ => [low, high]
  | .group conditions _ => valuesOf conditions

def valuesOf : List Condition → List Value
  | [] => []
  | condition :: conditions => condition.values ++ valuesOf conditions

end

inductive Verb where
  | select
  | update (values : List (String × Value))
  | delete (allowAll : Bool)

inductive VerbShape where
  | select
  | update (columns : List String)
  | delete (allowAll : Bool)

def Verb.shape : Verb → VerbShape
  | .select => .select
  | .update values => .update (values.map (·.1))
  | .delete allowAll => .delete allowAll

def Verb.values : Verb → List Value
  | .select | .delete _ => []
  | .update values => values.map (·.2)

namespace QueryBuilder

def shape (q : QueryBuilder) : QueryBuilder × List Shape := ({ q with conditions := [] }, shapes q.conditions)

def statement (D : Dialect) (q : QueryBuilder) : Verb → Except String (String × List Value)
  | .select => q.toSql D
  | .update values => q.toUpdateSql D values
  | .delete allowAll => q.toDeleteSql D allowAll

def numbers (q : QueryBuilder) : Verb → List Nat
  | .select => [(q.limit.getD 0).toNat, (q.offset.getD 0).toNat]
  | .update _ | .delete _ => []

end QueryBuilder

/-! ## Outlines -/

section

variable (D : Dialect)

def word (k : Keyword) : Chunk (Piece D) := .fixed (.keyword k)

def joined (k : Keyword) (pss : List (Parts D)) : Parts D := [word D k].intercalate pss

theorem isIdentifier_of_ok {name : String} {u : Unit}
    (h : validateIdentifier name D.maxIdentifierLength = .ok u) : isIdentifier name D.maxIdentifierLength = true := by
  unfold validateIdentifier at h
  split at h
  · assumption
  · cases h

theorem allowed_of_ok {operator : String} {u : Unit} (h : checkOperator operator = .ok u) :
    operator.toLower ∈ allowedOperators := by
  unfold checkOperator at h
  split at h
  · assumption
  · cases h

def identifierParts (name : String) : Except String (Parts D) :=
  match h : validateIdentifier name D.maxIdentifierLength with
  | .error e => .error e
  | .ok _ => .ok [.fixed (.name ⟨name, isIdentifier_of_ok D h⟩)]

def operatorParts (operator : String) : Except String (Parts D) :=
  match h : checkOperator operator with
  | .error e => .error e
  | .ok _ => .ok [.fixed (.operator ⟨operator, allowed_of_ok h⟩)]

def qualifiedParts (name : String) : Except String (Parts D) := do
  let parts ← ((name.toList.splitOn '.').map String.ofList).mapM (identifierParts D)
  return joined D .dot parts

def innerParts (inner : String) : Except String (Parts D) :=
  if inner = "*" then .ok [word D .star] else qualifiedParts D inner

def columnParts (column : String) : Except String (Parts D) :=
  if column = "*" then .ok [word D .star]
  else
    match dropStart "count(*) as " column with
    | some rest => do
      let quoted ← identifierParts D rest
      return [word D .countAs] ++ quoted
    | none =>
      match aggregateOf column with
      | some (a, inner) => do
        let rendered ← innerParts D inner
        return [word D (.aggregate a), word D .openParen] ++ rendered ++ [word D .closeParen]
      | none => qualifiedParts D column

mutual

def conditionParts : Shape → Except String (Parts D)
  | .comparison column operator _ => do
    let operator ← operatorParts D operator
    let column ← columnParts D column
    return column ++ [word D .blank] ++ operator ++ [.hole]
  | .inList column length negated _ =>
    if length = 0 then .ok [word D (if negated then .trueWord else .falseWord)]
    else do
      let column ← columnParts D column
      return column ++ [word D .blank] ++ (if negated then [word D .notWord] else []) ++ [word D .inOpen] ++
        joined D .comma (List.replicate length [.hole]) ++ [word D .closeParen]
  | .null column negated _ => do
    let column ← columnParts D column
    return column ++ [word D .isWord] ++ (if negated then [word D .notWord] else []) ++ [word D .nullWord]
  | .between column _ => do
    let column ← columnParts D column
    return column ++ [word D .between] ++ [.hole] ++ [word D .andAlso] ++ [.hole]
  | .group conditions _ => do
    let parts ← conditionsParts true conditions
    return [word D .openParen] ++ parts ++ [word D .closeParen]

def conditionsParts (first : Bool) : List Shape → Except String (Parts D)
  | [] => .ok []
  | shape :: shapes => do
    let parts ← conditionParts shape
    let rest ← conditionsParts false shapes
    let joint : Parts D := if first then [] else [word D (if shape.isOr then .orElse else .andAlso)]
    return joint ++ parts ++ rest

end

def whereParts (shapes : List Shape) : Except String (Parts D) := do
  let parts ← conditionsParts D true shapes
  return [word D .whereAll] ++ parts

def filterParts (shapes : List Shape) : Except String (Parts D) :=
  if shapes.isEmpty then .ok [] else whereParts D shapes

def columnsParts (columns : List String) : Except String (Parts D) :=
  if columns.isEmpty then .ok [word D .star]
  else do
    let parts ← columns.mapM (columnParts D)
    return joined D .comma parts

def JoinKind.keyword : JoinKind → Keyword
  | .inner => .innerJoin
  | .left => .leftJoin

def Direction.keyword : Direction → Keyword
  | .asc => .ascending
  | .desc => .descending

def joinParts (join : Join) : Except String (Parts D) := do
  let operator ← operatorParts D join.operator
  let table ← qualifiedParts D join.table
  let left ← columnParts D join.left
  let right ← columnParts D join.right
  return [word D .blank] ++ [word D join.kind.keyword] ++ [word D .blank] ++ table ++ [word D .onColumns] ++ left ++
    [word D .blank] ++ operator ++ right

def groupParts (group : List String) : Except String (Parts D) :=
  if group.isEmpty then .ok []
  else do
    let parts ← group.mapM (columnParts D)
    return [word D .groupBy] ++ joined D .comma parts

def orderParts (order : List (String × Direction)) : Except String (Parts D) :=
  if order.isEmpty then .ok []
  else do
    let parts ← order.mapM fun item => do
      let column ← columnParts D item.1
      return column ++ [word D .blank] ++ [word D item.2.keyword]
    return [word D .orderBy] ++ joined D .comma parts

def number (k : Keyword) (n : Int) : Chunk (Piece D) := .fixed (.number k n.toNat)

def pagingParts (limit offset : Option Int) (ordered : Bool) : Parts D :=
  match D, limit, offset with
  | .postgres, limit, offset =>
    (match limit with | some limit => [number _ .limit limit] | none => []) ++
    (match offset with | some offset => [number _ .offset offset] | none => [])
  | .sqlite, limit, offset =>
    (match limit with | some limit => [number _ .limit limit] | none => []) ++
    (match offset with
      | some offset => (if limit.isNone then [word _ .noLimit] else []) ++ [number _ .offset offset]
      | none => [])
  | .mySql, none, some offset => [number _ .allRowsOffset offset]
  | .mySql, some limit, offset =>
    [number _ .limit limit] ++ (match offset with | some offset => [number _ .offset offset] | none => [])
  | .mySql, none, none => []
  | .sqlServer, none, none => []
  | .sqlServer, limit, offset =>
    (if ordered then [] else [word _ .orderByNull]) ++ [number _ .offset (offset.getD 0)] ++ [word _ .rows] ++
    (match limit with | some limit => [number _ .fetchNext limit] ++ [word _ .rowsOnly] | none => [])

def assignmentParts (column : String) : Except String (Parts D) := do
  let quoted ← identifierParts D column
  return quoted ++ [word D .assign] ++ [.hole]

def statementParts (s : QueryBuilder × List Shape) : VerbShape → Except String (Parts D)
  | .select => do
    let columns ← columnsParts D s.1.columns
    let table ← qualifiedParts D s.1.table
    let joins ← s.1.joins.mapM (joinParts D)
    let filtered ← filterParts D s.2
    let group ← groupParts D s.1.group
    let order ← orderParts D s.1.order
    return [word D .select] ++ (if s.1.distinct then [word D .distinct] else []) ++ columns ++
      [word D .fromTable] ++ table ++ joins.flatten ++ filtered ++ group ++ order ++
      pagingParts D s.1.limit s.1.offset (!s.1.order.isEmpty)
  | .update columns =>
    if columns.isEmpty then .error "update needs at least one column"
    else do
      let assignments ← columns.mapM (assignmentParts D)
      let table ← qualifiedParts D s.1.table
      if s.2.isEmpty then
        .error "refusing to update every row: add a filter, or call `update_all` if that is really intended"
      else do
        let filtered ← whereParts D s.2
        return [word D .update] ++ table ++ [word D .setColumns] ++ joined D .comma assignments ++ filtered
  | .delete allowAll => do
    let table ← qualifiedParts D s.1.table
    if s.2.isEmpty then
      if allowAll then .ok ([word D .deleteFrom] ++ table)
      else
        .error "refusing to delete every row: add a filter, or call `delete_all` if that is really intended"
    else do
      let filtered ← whereParts D s.2
      return [word D .deleteFrom] ++ table ++ filtered

end

end Rustlavel.Db
