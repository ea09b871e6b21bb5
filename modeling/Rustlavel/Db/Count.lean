/-
  What a query and its `to_count_sql` give: the rows of a `select`, as far as `where`, `group by` and `distinct`
  make them, and the number `count` reads.
-/

import Rustlavel.Db.Builder

namespace Rustlavel.Db

/-! ## The meaning of a query -/

/-- What a database makes of the parts of a query, with rows `R` and values `V`. -/
structure Engine (R V : Type) where
  source : (table : String) → List Join → List R
  holds : List Condition → R → Bool
  star : R → List V
  column : String → R → V
  aggregate : Aggregate → String → List R → V
  ofCount : Nat → V
  toI64 : V → Option Int
  toI64_ofCount : ∀ n, toI64 (ofCount n) = some n

/-- An entry of the list of columns, as `column_ref` reads it. -/
inductive Item where
  | star
  | plain (name : String)
  | aggregate (a : Aggregate) (inner : String)
  deriving DecidableEq

def itemOf (column : String) : Item :=
  if column = "*" then .star
  else if (dropStart "count(*) as " column).isSome then .aggregate .count "*"
  else
    match aggregateOf column with
    | some (a, inner) => .aggregate a inner
    | none => .plain column

namespace QueryBuilder

def items (q : QueryBuilder) : List Item := if q.columns.isEmpty then [.star] else q.columns.map itemOf

def aggregates (q : QueryBuilder) : Bool := q.items.any fun item => item matches .aggregate _ _

/-- The query that `to_count_sql` renders. -/
def counting (q : QueryBuilder) : QueryBuilder :=
  { q with columns := ["count(*) as aggregate"], order := [], limit := none, offset := none }

theorem items_counting (q : QueryBuilder) : q.counting.items = [.aggregate .count "*"] := by
  show [itemOf "count(*) as aggregate"] = _
  decide

end QueryBuilder

namespace Engine

variable {R V : Type} [DecidableEq V] (E : Engine R V)

def cells (row : R) (rows : List R) : Item → List V
  | .star => E.star row
  | .plain name => [E.column name row]
  | .aggregate .count "*" => [E.ofCount rows.length]
  | .aggregate a inner => [E.aggregate a inner rows]

/-- Aggregates are taken over all the rows, columns from the first. -/
def answerRow (items : List Item) (rows : List R) : List V :=
  match rows with
  | row :: _ => items.flatMap (E.cells row rows)
  | [] => items.flatMap fun
    | .aggregate .count "*" => [E.ofCount 0]
    | .aggregate a inner => [E.aggregate a inner []]
    | _ => []

def groups (columns : List String) (rows : List R) : List (List R) :=
  let key (row : R) := columns.map fun column => E.column column row
  (rows.map key).dedup.map fun k => rows.filter fun row => key row = k

/-- The rows of a `select` without paging; their order is left to the database. -/
def select (q : QueryBuilder) : List (List V) :=
  let rows := (E.source q.table q.joins).filter (E.holds q.conditions)
  let answer :=
    if !q.group.isEmpty then (E.groups q.group rows).map (E.answerRow q.items)
    else if q.aggregates then [E.answerRow q.items rows]
    else rows.map fun row => E.answerRow q.items [row]
  if q.distinct then answer.dedup else answer

def count (q : QueryBuilder) : Int := (((E.select q.counting).head?.bind (·.head?)).bind E.toI64).getD 0

theorem select_counting (q : QueryBuilder) (hgroup : q.group = []) :
    E.select q.counting = [[E.ofCount ((E.source q.table q.joins).filter (E.holds q.conditions)).length]] := by
  have hanswer (rows : List R) : E.answerRow [.aggregate .count "*"] rows = [E.ofCount rows.length] := by
    cases rows <;> rfl
  rw [select, QueryBuilder.aggregates, q.items_counting]
  simp [QueryBuilder.counting, hgroup, hanswer]

/-- Without grouping `count` is the number of the rows that pass the filters. -/
theorem count_of_ungrouped (q : QueryBuilder) (hgroup : q.group = []) :
    E.count q = ((E.source q.table q.joins).filter (E.holds q.conditions)).length := by
  rw [count, E.select_counting q hgroup]
  simp [E.toI64_ofCount]

end Engine

/-! ## Where the two agree -/

/-- A table of numbers, each row a number. -/
def numbers (rows : List Int) : Engine Int Int where
  source _ _ := rows
  holds _ _ := true
  star row := [row]
  column _ row := row
  aggregate _ _ rows := rows.sum
  ofCount n := n
  toI64 := some
  toI64_ofCount _ := rfl

/-- Two rows that are alike are in one group, whatever the columns of the `group by`. -/
theorem groups_alike (columns : List String) : (numbers [7, 7]).groups columns [7, 7] = [[7, 7]] := by
  simp [Engine.groups, numbers]

theorem count_alike (q : QueryBuilder) : (numbers [7, 7]).count q = 2 := by
  by_cases hgroup : q.group = []
  · rw [Engine.count_of_ungrouped _ q hgroup]
    rfl
  · have hselect : (numbers [7, 7]).select q.counting = [[2]] := by
      have hrows : ((numbers [7, 7]).source q.counting.table q.counting.joins).filter
          ((numbers [7, 7]).holds q.counting.conditions) = [7, 7] := rfl
      have hgrouped : (!q.counting.group.isEmpty) = true := by
        simp [QueryBuilder.counting, hgroup]
      rw [Engine.select, hrows, q.items_counting, if_pos hgrouped, groups_alike]
      cases q.counting.distinct <;> rfl
    rw [Engine.count, hselect]
    rfl

/-- `distinct`, a `group by` and an aggregate each make one row of the answer of two rows that are alike. -/
theorem select_alike (q : QueryBuilder) (h : q.distinct = true ∨ q.group ≠ [] ∨ q.aggregates = true) :
    ((numbers [7, 7]).select q).length = 1 := by
  have hrows : ((numbers [7, 7]).source q.table q.joins).filter ((numbers [7, 7]).holds q.conditions) = [7, 7] := rfl
  have hone (row : List Int) : (if q.distinct then [row].dedup else [row]).length = 1 := by
    split <;> rfl
  rw [Engine.select, hrows]
  by_cases hgroup : q.group = []
  · by_cases haggregates : q.aggregates = true
    · simp [hgroup, haggregates]
    · have hdistinct : q.distinct = true := by simpa [hgroup, haggregates] using h
      simp [hgroup, haggregates, hdistinct]
  · have hgrouped : (!q.group.isEmpty) = true := by simp [hgroup]
    rw [if_pos hgrouped, groups_alike]
    exact hone _

/-- `count` is the number of rows whatever is stored, exactly without `distinct`, grouping and aggregates. -/
theorem Engine.count_eq_length (q : QueryBuilder) :
    (∀ (R V : Type) [DecidableEq V] (E : Engine R V), E.count q = (E.select q).length) ↔
      q.distinct = false ∧ q.group = [] ∧ q.aggregates = false := by
  constructor
  · intro h
    by_contra hform
    have halike := h Int Int (numbers [7, 7])
    rw [count_alike, select_alike q (by grind)] at halike
    cases halike
  · rintro ⟨hdistinct, hgroup, hcolumns⟩ R V _ E
    rw [E.count_of_ungrouped q hgroup, Engine.select]
    simp [hdistinct, hgroup, hcolumns]

/-- Rows that are alike are one row of the answer, and are counted each. -/
theorem repeated_rows_counted : ((numbers [7, 7]).select { table := "t", distinct := true }).length = 1 ∧
      (numbers [7, 7]).count { table := "t", distinct := true } = 2 := by
  decide

end Rustlavel.Db
