/-
  Bulk inserts.
-/

import Rustlavel.Db.Builder

namespace Rustlavel.Db

open Traverse List Nat

/-! ## What an insert stores -/

/-- The parentheses of a row: its placeholders, numbered from `start`. -/
def slotsText (D : Dialect) (start width : Nat) : String :=
  "(" ++ ", ".intercalate ((List.range width).map fun j => D.placeholder (start + j + 1)) ++ ")"

/-- An insert of `n` rows, its placeholders numbered from the first to the last. -/
def insertText (D : Dialect) (table : String) (columns : List String) (n : Nat) : String :=
  "insert into " ++ table ++ " (" ++ ", ".intercalate (columns.map D.quote) ++ ") values " ++
    ", ".intercalate ((List.range n).map fun i => slotsText D (i * columns.length) columns.length)

/-- What that statement stores: the values of each row's parentheses go to the columns of the list, in its order. -/
def inserted (columns : List String) (n : Nat) (params : List Value) : List Row :=
  (List.range n).map fun i => columns.zip ((params.drop (i * columns.length)).take columns.length)

/-! ## Rows -/

def names (row : Row) : List String := row.map (·.1)

/-- The row has every column of the first one and, at the place where the first row has a column, the value it
    gives to that column itself. -/
def InPlace (first row : Row) : Prop :=
  (∀ name ∈ names first, name ∈ names row) ∧
    ∀ pair ∈ row, (row.map (·.2))[(names first).idxOf pair.1]? = some pair.2

theorem window_flatMap {α β : Type} {f : α → List β} {width : Nat} {l : List α}
    (hwidth : ∀ a ∈ l, (f a).length = width) {i : Nat} {a : α} (ha : l[i]? = some a) :
    ((l.flatMap f).drop (i * width)).take width = f a := by
  induction l generalizing i with
  | nil => cases ha
  | cons b l ih =>
    have hb := hwidth b mem_cons_self
    rw [flatMap_cons]
    cases i with
    | zero =>
      cases ha
      rw [zero_mul, drop_zero, ← hb, take_left]
    | succ =>
      rw [succ_mul, add_comm, ← drop_drop, ← hb, drop_left, hb]
      exact ih (fun a ha => hwidth a (mem_cons_of_mem b ha)) ha

theorem lookup_zip {columns : List String} {values : List Value} (hlength : values.length = columns.length)
    (c : String) : (columns.zip values).lookup c = values[columns.idxOf c]? := by
  induction columns generalizing values with
  | nil => simp [length_eq_zero_iff.mp hlength]
  | cons column columns ih =>
    cases values with
    | nil => cases hlength
    | cons v values =>
      rw [zip_cons_cons, lookup_cons, idxOf_cons]
      by_cases hc : column = c
      · simp [hc]
      · have hne : (c == column) = false := beq_false_of_ne fun h => hc h.symm
        have hne' : (column == c) = false := beq_false_of_ne hc
        rw [hne, hne']
        exact ih (Nat.succ.inj hlength)

/-! ## The statement -/

namespace QueryBuilder

variable {D : Dialect} {columns : List String} {params params' : List Value} {rows : List Row}

theorem renderRow_ok {row : Row} {slots : List String} (h : renderRow D columns row params = .ok (slots, params')) :
    slots = (List.range row.length).map (fun j => D.placeholder (params.length + j + 1)) ∧
      params' = params ++ row.map (·.2) ∧ ∀ name ∈ names row, name ∈ columns := by
  induction row generalizing params slots with
  | nil =>
    cases h
    exact ⟨rfl, (append_nil _).symm, nofun⟩
  | cons pair row ih =>
    obtain ⟨name, value⟩ := pair
    rw [renderRow] at h
    split at h
    · rename_i hname
      obtain ⟨rest, hrest, h⟩ := bind_eq_ok.mp h
      cases h
      obtain ⟨hslots, hparams, hnames⟩ := ih hrest
      refine ⟨?_, ?_, ?_⟩
      · rw [hslots, length_cons, range_succ_eq_map, map_cons, map_map]
        refine congrArg _ (map_congr_left fun j _ => ?_)
        show D.placeholder ((params ++ [value]).length + j + 1) = D.placeholder (params.length + (j + 1) + 1)
        rw [length_append, length_singleton, add_assoc params.length, add_comm 1 j]
      · rw [hparams, append_assoc]
        rfl
      · rintro n hn
        rcases mem_cons.mp hn with rfl | hn
        · exact contains_iff_mem.mp hname
        · exact hnames n hn
    · cases h

theorem renderRows_ok {texts : List String} (h : renderRows D columns rows params = .ok (texts, params')) :
    texts = (List.range rows.length).map (fun i => slotsText D (params.length + i * columns.length) columns.length) ∧
      params' = params ++ rows.flatMap (·.map (·.2)) ∧
      ∀ row ∈ rows, row.length = columns.length ∧ ∀ name ∈ names row, name ∈ columns := by
  induction rows generalizing params texts with
  | nil =>
    cases h
    exact ⟨rfl, (append_nil _).symm, nofun⟩
  | cons row rows ih =>
    rw [renderRows] at h
    split at h
    · cases h
    · rename_i hlength
      replace hlength := not_not.mp hlength
      obtain ⟨slots, hrow, h⟩ := bind_eq_ok.mp h
      obtain ⟨rest, hrest, h⟩ := bind_eq_ok.mp h
      cases h
      obtain ⟨hslots, hparams, hnames⟩ := renderRow_ok hrow
      obtain ⟨htexts, hparams', hrows⟩ := ih hrest
      have hcount : slots.2.length = params.length + columns.length := by
        rw [hparams, length_append, length_map, hlength]
      refine ⟨?_, ?_, ?_⟩
      · rw [htexts, hslots, length_cons, range_succ_eq_map, map_cons, map_map, hcount, hlength, zero_mul]
        refine congrArg _ (map_congr_left fun i _ => ?_)
        show slotsText D (params.length + columns.length + i * columns.length) _ =
          slotsText D (params.length + (i + 1) * columns.length) _
        rw [succ_mul, add_assoc, add_comm columns.length]
      · rw [hparams', hparams, append_assoc, flatMap_cons]
      · rintro r hr
        rcases mem_cons.mp hr with rfl | hr
        · exact ⟨hlength, hnames⟩
        · exact hrows r hr

theorem quoteIdentifier_ok {name quoted : String} (h : quoteIdentifier D name = .ok quoted) :
    quoted = D.quote name := by
  unfold quoteIdentifier validateIdentifier at h
  split at h <;> cases h
  rfl

theorem toInsertSql_ok {q : QueryBuilder} {first : Row} {sql : String}
    (h : q.toInsertSql D (first :: rows) none = .ok (sql, params)) :
    (∃ table, quoteQualified D q.table = .ok table ∧ sql = insertText D table (names first) (first :: rows).length) ∧
    params = (first :: rows).flatMap (·.map (·.2)) ∧
    ∀ row ∈ first :: rows, row.length = (names first).length ∧ ∀ name ∈ names row, name ∈ names first := by
  obtain ⟨_, hvalues, h⟩ := bind_eq_ok.mp h
  obtain ⟨table, htable, h⟩ := bind_eq_ok.mp h
  obtain ⟨_, hrendered, h⟩ := bind_eq_ok.mp h
  cases h
  obtain ⟨htexts, hparams, hrows⟩ := renderRows_ok hvalues
  refine ⟨⟨table, htable, ?_⟩, hparams, hrows⟩
  rw [htexts, eq_map_of_mapM_ok hrendered fun _ _ => quoteIdentifier_ok]
  simp only [insertText, length_nil, zero_add]
  rfl

/-- The `i`-th row stored: its values under the columns of the first row, place by place. -/
theorem inserted_row {first : Row} {rest : List Row}
    (haccepted : ∀ row ∈ first :: rest, row.length = (names first).length) {i : Nat} {row : Row}
    (hrow : (first :: rest)[i]? = some row) :
    (inserted (names first) (first :: rest).length ((first :: rest).flatMap (·.map (·.2))))[i]? =
      some ((names first).zip (row.map (·.2))) := by
  have hi := (List.getElem?_eq_some_iff.mp hrow).1
  have hvalues : (((first :: rest).flatMap (·.map (·.2))).drop (i * (names first).length)).take
      (names first).length = row.map (·.2) := by
    refine window_flatMap (fun row' hrow' => ?_) hrow
    rw [length_map, haccepted row' hrow']
  rw [inserted, List.getElem?_map, List.getElem?_range hi, Option.map_some, hvalues]

variable (D)

/-- Of the rows of a list that is accepted every value is stored under its own name, and all have the same
    columns, exactly if each row is in place. -/
theorem insertMany_stores (q : QueryBuilder) {first : Row} {rest : List Row} {sql : String} {params : List Value}
    (h : q.insertMany D (first :: rest) = .ok (some (sql, params))) :
    ∃ table, quoteQualified D q.table = .ok table ∧
      sql = insertText D table (names first) (first :: rest).length ∧
      ((∀ (i : Nat) row, (first :: rest)[i]? = some row → ∀ c v, (c, v) ∈ row →
          ∃ stored, (inserted (names first) (first :: rest).length params)[i]? = some stored ∧
            stored.lookup c = some v) ∧
        (∀ row ∈ first :: rest, ∀ row' ∈ first :: rest, ∀ c ∈ names row, c ∈ names row') ↔
      ∀ row ∈ first :: rest, InPlace first row) := by
  have hmany : q.insertMany D (first :: rest) = (q.toInsertSql D (first :: rest) none).map some := rfl
  rw [hmany] at h
  cases hsql : q.toInsertSql D (first :: rest) none with
  | error message =>
    rw [hsql] at h
    cases h
  | ok =>
    rw [hsql] at h
    cases h
    obtain ⟨⟨table, htable, htext⟩, hparams, haccepted⟩ := toInsertSql_ok hsql
    replace hparams : params = (first :: rest).flatMap (·.map (·.2)) := hparams
    refine ⟨table, htable, htext, ?_⟩
    rw [hparams]
    have hlookup (row : Row) (hrow : row ∈ first :: rest) (c : String) :
        ((names first).zip (row.map (·.2))).lookup c = (row.map (·.2))[(names first).idxOf c]? :=
      lookup_zip (by rw [length_map, (haccepted row hrow).1]) c
    constructor
    · rintro ⟨hstored, hsame⟩ row hrow
      refine ⟨hsame first mem_cons_self row hrow, fun pair hpair => ?_⟩
      obtain ⟨i, hi⟩ := List.getElem?_of_mem hrow
      obtain ⟨stored, hat, hvalue⟩ := hstored i row hi pair.1 pair.2 hpair
      rw [inserted_row (fun row hrow => (haccepted row hrow).1) hi] at hat
      cases hat
      rw [← hlookup row hrow, hvalue]
    · intro hplace
      refine ⟨fun i row hi c v hpair => ⟨_, inserted_row (fun row hrow => (haccepted row hrow).1) hi, ?_⟩, ?_⟩
      · have hrow := mem_of_getElem? hi
        rw [hlookup row hrow]
        exact (hplace row hrow).2 (c, v) hpair
      · intro row hrow row' hrow' c hc
        exact (hplace row' hrow').1 c ((haccepted row hrow).2 c hc)

/-- Two columns with one value, named in the other order by the second row. -/
def alike : List Row := [[("a", .int 1), ("b", .int 2)], [("b", .int 3), ("a", .int 3)]]

theorem insertMany_stores_of_two :
    insertMany .sqlServer { table := "t" } alike =
        .ok (some (insertText .sqlServer "[t]" ["a", "b"] 2, [.int 1, .int 2, .int 3, .int 3])) ∧
      ∀ (i : Nat) row, alike[i]? = some row → ∀ c v, (c, v) ∈ row →
        ∃ stored, (inserted ["a", "b"] 2 [.int 1, .int 2, .int 3, .int 3])[i]? = some stored ∧
          stored.lookup c = some v := by
  have hok : insertMany .sqlServer { table := "t" } alike =
      .ok (some (insertText .sqlServer "[t]" ["a", "b"] 2, [.int 1, .int 2, .int 3, .int 3])) := by rfl
  obtain ⟨_, _, _, hstores⟩ := insertMany_stores .sqlServer { table := "t" } hok
  have hplace : ∀ row ∈ alike, InPlace [("a", .int 1), ("b", .int 2)] row := by
    simp only [alike, forall_mem_cons, InPlace]
    refine ⟨⟨by simp [names], rfl, rfl, nofun⟩, ⟨by simp [names], rfl, rfl, nofun⟩, nofun⟩
  exact ⟨hok, (hstores.mpr hplace).1⟩

/-! ## Two rows in different orders -/

def swapped : List Row := [[("a", .int 1), ("b", .int 2)], [("b", .int 3), ("a", .int 4)]]

/-- The second row's values change places; a row that has a column twice is accepted as well. -/
theorem values_swapped : insertMany .postgres { table := "t" } swapped =
        .ok (some (insertText .postgres "\"t\"" ["a", "b"] 2, [.int 1, .int 2, .int 3, .int 4])) ∧
      swapped[1]? = some [("b", .int 3), ("a", .int 4)] ∧
      (inserted ["a", "b"] 2 [.int 1, .int 2, .int 3, .int 4])[1]? = some [("a", .int 3), ("b", .int 4)] ∧
      ∃ r, insertMany .postgres { table := "t" }
        [[("a", .int 1), ("b", .int 2)], [("a", .int 3), ("a", .int 4)]] = .ok (some r) :=
  ⟨by rfl, rfl, rfl, _, by rfl⟩

end QueryBuilder

end Rustlavel.Db
