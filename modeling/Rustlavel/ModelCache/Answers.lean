/-
  What the cache answers, one call at a time: `find` by primary key and `get` by
  query, against a store of JSON values and a database whose answers are given.
-/

import Rustlavel.ModelCache.Keys

open Double (Whole)

namespace Rustlavel.ModelCache

open Db List Function Json Option

/-! ## Rows in the store -/

abbrev Store : Type := String → Option (Json Whole)

def Store.put (s : Store) (key : String) (value : Json Whole) : Store := update s key (some value)

def valueToJson : Value → Option (Json Whole)
  | .bytes _ => none
  | value => some value.toJson

/-- One value, on the way out: a whole number is an integer while doubles are exact. -/
def jsonToValue : Json Whole → Value
  | .null => .null
  | .bool b => .bool b
  | .number x => if x.val.natAbs < 2 ^ 53 then .int x.val else .float x
  | .string s => .text s
  | .array items => .json (.array items)
  | .object fields => .json (.object fields)

def rowToJson (row : Row) : Option (Json Whole) := do
  let fields ← row.mapM fun column => do
    let value ← (row.value column.1).toOption
    return (column.1, ← valueToJson value)
  return ofPairs fields

def rowFromJson : Json Whole → Option Row
  | .object fields => some (fields.map fun field => (field.1, jsonToValue field.2))
  | _ => none

/-! ## Entities -/

structure Region where
  readOnly : Bool := false
  entities : Bool := true
  queries : Bool := true
  maxRows : Nat := 500

abbrev Answer (α : Type) : Type := Except String α

def cachedEntity (M : Model) (key : Value) (s : Store) : Option (List Value) := do
  let json ← s (entity M.table (jsonText key))
  let row ← rowFromJson json
  (M.fromRow row).toOption

def putEntity (M : Model) (key : Value) (row : Row) (s : Store) : Store :=
  match rowToJson row with
  | some json => s.put (entity M.table (jsonText key)) json
  | none => s

/-- A model by primary key, from the cache when it is there; `selected` is what the database has for the key. -/
def find (M : Model) (region : Region) (key : Value) (selected : Option Row) (s : Store) :
    Answer (Option (List Value)) × Store :=
  if region.entities then
    match cachedEntity M key s with
    | some model => (.ok (some model), s)
    | none =>
      match selected with
      | none => (.ok none, s)
      | some row =>
        match M.fromRow row with
        | .error e => (.error e, s)
        | .ok model => (.ok (some model), putEntity M key row s)
  else
    match selected with
    | none => (.ok none, s)
    | some row => ((M.fromRow row).map some, s)

/-! ## Result sets -/

structure Entry where
  sql : String
  generation : Int
  rows : List (Json Whole)

def asI64 (x : Whole) : Int := max (-2 ^ 63) (min x.val (2 ^ 63 - 1))

def Entry.toJson (entry : Entry) : Json Whole :=
  .ofPairs [("sql", .string entry.sql), ("g", .number (.ofInt entry.generation)), ("rows", .array entry.rows)]

def Entry.fromJson (value : Json Whole) : Option Entry := do
  let sql ← (← value.get "sql").asStr
  let g ← (← value.get "g").asNumber
  let rows ← (← value.get "rows").asArray
  return { sql := sql, generation := asI64 g, rows := rows }

theorem Entry.fromJson_toJson (entry : Entry) : Entry.fromJson entry.toJson =
      some { entry with generation := asI64 (.ofInt entry.generation) } := by
  simp [Entry.fromJson, Entry.toJson, Json.ofPairs, Json.get, Json.lookup_insertField, Json.asStr,
    Json.asNumber, Json.asArray]

structure Query where
  sql : String
  bindings : List Value

section

variable (hash : List UInt8 → UInt64) (M : Model) (region : Region) (q : Query)

def Query.key : String := query M.table (fingerprint hash q.sql q.bindings)

def currentGeneration (s : Store) : Int :=
  if region.readOnly then 0
  else (((s (generation M.table)).bind asNumber).map asI64).getD 0

/-- The result set that the store holds for a query, if it is of a generation and still reads. -/
def rowsOf (g : Int) (s : Store) : Option (List (List Value)) := do
  let entry ← (← s (q.key hash M)) |> Entry.fromJson
  if entry.sql = q.sql ∧ entry.generation = g then
    entry.rows.mapM fun value => do (M.fromRow (← rowFromJson value)).toOption
  else
    none

def cachedRows (s : Store) : Option (List (List Value)) := rowsOf hash M q (currentGeneration M region s) s

/-- Keep a result set, unless it is too large or holds something JSON cannot carry back. -/
def putRows (rows : List Row) (s : Store) : Store :=
  if region.maxRows < rows.length then s
  else
    match rows.mapM rowToJson with
    | none => s
    | some encoded =>
      s.put (q.key hash M)
        (Entry.toJson { sql := q.sql, generation := currentGeneration M region s, rows := encoded })

/-- A query's results, from the cache when they are there; `rows` is what the database has for the query. -/
def get (rows : List Row) (s : Store) : Answer (List (List Value)) × Store :=
  if region.queries then
    match cachedRows hash M region q s with
    | some models => (.ok models, s)
    | none =>
      match rows.mapM M.fromRow with
      | .error e => (.error e, s)
      | .ok models => (.ok models, putRows hash M region q rows s)
  else
    (rows.mapM M.fromRow, s)

end

/-! ## A row, in and out of the store -/

variable {row : Row} {json : Json Whole} {c : String} {v key key' : Value} {s : Store} {M : Model}

theorem rowToJson_lookup (h : rowToJson row = some json) (hv : row.lookup c = some v) :
    ∃ fields j, json = .object fields ∧ valueToJson v = some j ∧ fields.lookup c = some j := by
  obtain ⟨pairs, hpairs, h⟩ := bind_eq_some_iff.mp h
  cases h
  have hread := Traverse.forall₂_of_mapM_some hpairs
  -- every pair under the name carries the value of the first column of that name
  have hvalue : ∀ column pair, (do
      let value ← (row.value column).toOption
      return (column, ← valueToJson value)) = some pair →
      pair.1 = column ∧ (column = c → valueToJson v = some pair.2) := by
    intro column pair heq
    obtain ⟨value, hval, heq⟩ := bind_eq_some_iff.mp heq
    obtain ⟨_, hj, heq⟩ := bind_eq_some_iff.mp heq
    cases heq
    refine ⟨rfl, fun hc => ?_⟩
    subst hc
    rw [Row.value, hv] at hval
    cases hval
    exact hj
  have hmem : (c, v) ∈ row := by
    obtain ⟨_, _, rfl, -⟩ := lookup_eq_some_iff.mp hv
    exact mem_append_right _ mem_cons_self
  obtain ⟨pair, hpair, heq⟩ := Traverse.exists_right hread hmem
  obtain ⟨hname, hj⟩ := hvalue c pair heq
  refine ⟨_, pair.2, rfl, hj rfl, ?_⟩
  refine lookup_foldl_insertField pairs [] (fun p hp hpc => ?_) (.inl ⟨pair, hpair, hname⟩)
  obtain ⟨column, -, heq'⟩ := Traverse.exists_left hread hp
  obtain ⟨hname', hj'⟩ := hvalue column.1 p heq'
  exact some.inj ((hj' (hname'.symm.trans hpc)).symm.trans (hj rfl))

theorem lookup_map_jsonToValue (fields : List (String × Json Whole)) (c : String) :
    (fields.map fun field => (field.1, jsonToValue field.2)).lookup c = (fields.lookup c).map jsonToValue := by
  induction fields with
  | nil => rfl
  | cons field fields ih =>
    obtain ⟨name, _⟩ := field
    rw [map_cons, lookup_cons, lookup_cons]
    cases c == name with
    | true => rfl
    | false => exact ih

theorem lookup_of_rowToJson {row' : Row} (hjson : rowToJson row = some json)
    (hrow : rowFromJson json = some row') (hv : row.lookup c = some v) :
    ∃ j, valueToJson v = some j ∧ row'.lookup c = some (jsonToValue j) := by
  obtain ⟨_, j, rfl, hj, hlookup⟩ := rowToJson_lookup hjson hv
  cases hrow
  refine ⟨j, hj, ?_⟩
  rw [lookup_map_jsonToValue, hlookup]
  rfl

/-! ## Entities are told apart -/

def Key.type : Key → FieldType
  | .int _ => .int
  | .text _ => .text
  | .bytes _ => .bytes

/-- After `find` for one key, `find` for another answers from the store only what it would have answered before. -/
def FindApart (M : Model) (k l : Key) : Prop :=
  ∀ (region : Region) (s : Store) (row : Row) (value : Value) (model : List Value),
    row.lookup M.key.column = some value → M.key.fromValue value = .ok k.toValue →
    cachedEntity M l.toValue (find M region k.toValue (some row) s).2 = some model →
    cachedEntity M l.toValue s = some model

theorem find_store (M : Model) (region : Region) (key : Value) (row : Row) (s : Store) :
    (find M region key (some row) s).2 = s ∨ (find M region key (some row) s).2 = putEntity M key row s := by
  unfold find
  split
  · split
    · exact .inl rfl
    · dsimp only
      split
      · exact .inl rfl
      · exact .inr rfl
  · exact .inl rfl

theorem cachedEntity_putEntity (hne : jsonText key ≠ jsonText key') :
    cachedEntity M key' (putEntity M key row s) = cachedEntity M key' s := by
  unfold putEntity
  split
  · unfold cachedEntity Store.put
    rw [update_of_ne fun h => hne (entity_inj.mp h).symm]
  · rfl

theorem cachedEntity_put (heq : jsonText key = jsonText key') :
    cachedEntity M key' (s.put (entity M.table (jsonText key)) json) =
      (rowFromJson json).bind fun row => (M.fromRow row).toOption := by
  unfold cachedEntity Store.put
  rw [heq, update_self]
  rfl

theorem cachedEntity_of_large {m n : Int} {value : Value}
    {model : List Value} (hvalue : row.lookup M.key.column = some value)
    (hread : M.key.fromValue value = .ok (.int m)) (hround : Double.round m = Double.round n) (hne : m ≠ n)
    (h : cachedEntity M (.int n) (putEntity M (.int m) row s) = some model) :
    cachedEntity M (.int n) s = some model := by
  unfold putEntity at h
  split at h
  · rename_i json hjson
    exfalso
    rw [cachedEntity_put (jsonText_int_inj.mpr hround)] at h
    obtain ⟨row', hrow', h⟩ := bind_eq_some_iff.mp h
    cases hmodel : M.fromRow row' with
    | error =>
      rw [hmodel] at h
      cases h
    | ok =>
      obtain ⟨htype, rfl⟩ := FieldType.fromValue_eq_int (Field.fromValue_eq_ok hread nofun)
      obtain ⟨j, hj, hlookup⟩ := lookup_of_rowToJson hjson hrow' hvalue
      obtain ⟨value', key, hvalue', hkey⟩ := M.get_key hmodel
      rw [hlookup] at hvalue'
      cases hvalue'
      cases hj
      -- the key comes back as a float, which does not read as an integer
      have hlarge : ¬ (Double.round m).natAbs < 2 ^ 53 := by
        have := Double.le_round_of_ne hround hne
        omega
      have hfloat : jsonToValue (.number (.ofInt m)) = .float (.ofInt m) := if_neg hlarge
      change M.key.fromValue (jsonToValue (.number (.ofInt m))) = _ at hkey
      have hread' : M.key.fromValue (.float (.ofInt m)) = FieldType.int.fromValue (.float (.ofInt m)) :=
        htype ▸ Field.fromValue_of_ne nofun
      rw [hfloat, hread'] at hkey
      cases hkey
  · exact h

theorem putEntity_bytes {bs : List UInt8}
    (hvalue : row.lookup M.key.column = some (.bytes bs)) : putEntity M key row s = s := by
  unfold putEntity
  split
  · rename_i json hjson
    obtain ⟨-, j, -, hj, -⟩ := rowToJson_lookup hjson hvalue
    cases hj
  · rfl

def blobs : Model where
  table := "blobs"
  key := { column := "id", type := .bytes }
  fields := [{ column := "id", type := .bytes }]
  key_mem := mem_cons_self ..

theorem findApart_iff {k l : Key} (htype : k.type = l.type) (hne : k ≠ l) : (∀ M : Model, FindApart M k l) ↔
      ¬ ∃ t bs, k = .bytes (utf8 t) ∧ l = .bytes bs ∧ (utf8 t).length = bs.length := by
  constructor
  · rintro h ⟨t, bs, rfl, rfl, hlength⟩
    have hkey : jsonText (.bytes bs) = jsonText (.bytes (utf8 t)) :=
      (jsonText_eq_iff (.bytes bs) (.bytes (utf8 t))).mpr hlength.symm
    -- the column holds the text, which JSON carries back
    have hstored : cachedEntity blobs (.bytes bs)
        (find blobs {} (.bytes (utf8 t)) (some [("id", .text t)]) fun _ => none).2 =
        some [.bytes (utf8 t)] := by
      show cachedEntity blobs _ (Store.put _ (entity blobs.table (jsonText (.bytes (utf8 t))))
        (.object [("id", .string t)])) = _
      rw [cachedEntity_put hkey.symm]
      rfl
    exact absurd (h blobs {} (fun _ => none) [("id", .text t)] (.text t) _ rfl rfl hstored) nofun
  · intro h M region s row value model hvalue hread hcached
    rcases find_store M region k.toValue row s with hstore | hstore
    · rw [hstore] at hcached
      exact hcached
    · rw [hstore] at hcached
      by_cases hkey : jsonText k.toValue = jsonText l.toValue
      · have halike := (jsonText_eq_iff k l).mp hkey
        cases k with
        | int =>
          cases l with
          | int => exact cachedEntity_of_large hvalue hread halike (fun h => hne (by rw [h])) hcached
          | text | bytes => cases htype
        | text =>
          cases l with
          | text => exact absurd (congrArg Key.text halike) hne
          | int | bytes => cases htype
        | bytes =>
          cases l with
          | bytes bs =>
            rcases FieldType.fromValue_eq_bytes (Field.fromValue_eq_ok hread nofun) with
              rfl | ⟨t, rfl, rfl⟩
            · rw [putEntity_bytes hvalue] at hcached
              exact hcached
            · exact absurd ⟨t, bs, rfl, rfl, halike⟩ h
          | int | text => cases htype
      · rw [cachedEntity_putEntity hkey] at hcached
        exact hcached

/-! ## Result sets are told apart -/

/-- After `get` for one query, `get` for another answers from the store only what it would have answered before. -/
def GetApart (hash : List UInt8 → UInt64) (M : Model) (q q' : Query) : Prop :=
  ∀ (region : Region) (s : Store) (rows : List Row) (models : List (List Value)),
    cachedRows hash M region q' (get hash M region q rows s).2 = some models →
    cachedRows hash M region q' s = some models

section

variable {hash : List UInt8 → UInt64} {M : Model} {region : Region} {q q' : Query} {s : Store}
  {models : List (List Value)} {rows : List Row}

theorem currentGeneration_put (value : Json Whole) :
    currentGeneration M region (s.put (q.key hash M) value) = currentGeneration M region s := by
  unfold currentGeneration Store.put
  have hne : generation M.table ≠ q.key hash M := (query_ne_generation _ _ _).symm
  rw [update_of_ne hne]

theorem get_store (rows : List Row) : (get hash M region q rows s).2 = s ∨
      ∃ value, (get hash M region q rows s).2 = s.put (q.key hash M) value := by
  unfold get
  split
  · split
    · exact .inl rfl
    · split
      · exact .inl rfl
      · unfold putRows
        split
        · exact .inl rfl
        · split
          · exact .inl rfl
          · exact .inr ⟨_, rfl⟩
  · exact .inl rfl

theorem get_of_hit (hregion : region.queries)
    (h : cachedRows hash M region q s = some models) : get hash M region q rows s = (.ok models, s) := by
  unfold get
  rw [if_pos hregion, h]

theorem get_of_miss (hregion : region.queries)
    (h : cachedRows hash M region q s = none) (hmodels : rows.mapM M.fromRow = .ok models) :
    get hash M region q rows s = (.ok models, putRows hash M region q rows s) := by
  unfold get
  rw [if_pos hregion, h]
  rw [hmodels]

theorem Query.key_inj : q.key hash M = q'.key hash M ↔
    hash (fingerprintInput q.sql q.bindings) = hash (fingerprintInput q'.sql q'.bindings) := by
  unfold Query.key
  rw [query_inj]
  rfl

theorem getApart_of_ne (hne : q.key hash M ≠ q'.key hash M) : GetApart hash M q q' := by
  intro region s rows models h
  rcases get_store rows with hstore | ⟨value, hstore⟩
  · rw [hstore] at h
    exact h
  · rw [hstore] at h
    unfold cachedRows at h ⊢
    unfold rowsOf Store.put at h
    rw [update_of_ne hne.symm] at h
    exact h

theorem cachedRows_put (hkey : q.key hash M = q'.key hash M) (entry : Entry) :
    cachedRows hash M region q' (s.put (q.key hash M) entry.toJson) =
      if entry.sql = q'.sql ∧ asI64 (.ofInt entry.generation) = currentGeneration M region s then
        entry.rows.mapM fun value => do (M.fromRow (← rowFromJson value)).toOption
      else none := by
  unfold cachedRows
  rw [currentGeneration_put, hkey]
  unfold rowsOf Store.put
  rw [update_self]
  show (Entry.fromJson _).bind _ = _
  rw [Entry.fromJson_toJson]
  rfl

theorem not_getApart (hkey : q.key hash M = q'.key hash M) (hsql : q.sql = q'.sql) : ¬ GetApart hash M q q' := by
  intro h
  have hstored : cachedRows hash M {} q' (get hash M {} q [] fun _ => none).2 = some [] := by
    show cachedRows hash M {} q' (Store.put _ (q.key hash M)
      (Entry.toJson { sql := q.sql, generation := 0, rows := [] })) = some []
    rw [cachedRows_put hkey]
    exact if_pos ⟨hsql, (by decide : asI64 (.ofInt 0) = 0)⟩
  exact absurd (h {} (fun _ => none) [] [] hstored) nofun

end

section

variable {hash : List UInt8 → UInt64} {ks ls : List Key} (sql : String)

theorem fingerprintInput_eq_iff :
    fingerprintInput sql (ks.map Key.toValue) = fingerprintInput sql (ls.map Key.toValue) ↔
      List.Forall₂ Key.Alike ks ls := by
  rw [← map_jsonText_eq_iff]
  refine ⟨fingerprintInput_inj, fun h => ?_⟩
  unfold fingerprintInput
  rw [h]

theorem getApart_iff (M : Model) (hhash : hash (fingerprintInput sql (ks.map Key.toValue)) =
        hash (fingerprintInput sql (ls.map Key.toValue)) →
      fingerprintInput sql (ks.map Key.toValue) = fingerprintInput sql (ls.map Key.toValue)) :
    GetApart hash M { sql := sql, bindings := ks.map Key.toValue } { sql := sql, bindings := ls.map Key.toValue } ↔
      ¬ List.Forall₂ Key.Alike ks ls := by
  rw [← fingerprintInput_eq_iff sql]
  constructor
  · apply imp_not_comm.mp
    intro hinput
    exact not_getApart (Query.key_inj.mpr (congrArg hash hinput)) rfl
  · intro h
    exact getApart_of_ne fun hkey => h (hhash (Query.key_inj.mp hkey))

variable (hash ks ls) in
/-- An entity and a result set answer only the key and the query they were stored for, unless the keys are a text
    and bytes of its length, or the bindings alike throughout. -/
theorem answers_apart {k l : Key} (htype : k.type = l.type) (hkeys : k ≠ l)
    (hhash : hash (fingerprintInput sql (ks.map Key.toValue)) = hash (fingerprintInput sql (ls.map Key.toValue)) →
      fingerprintInput sql (ks.map Key.toValue) = fingerprintInput sql (ls.map Key.toValue)) :
    (∀ M : Model, FindApart M k l ∧ GetApart hash M { sql := sql, bindings := ks.map Key.toValue }
          { sql := sql, bindings := ls.map Key.toValue }) ↔
      (¬ ∃ t bs, k = .bytes (utf8 t) ∧ l = .bytes bs ∧ (utf8 t).length = bs.length) ∧
        ¬ List.Forall₂ Key.Alike ks ls := by
  rw [← findApart_iff htype hkeys]
  constructor
  · intro h
    exact ⟨fun M => (h M).1, (getApart_iff sql blobs hhash).mp (h blobs).2⟩
  · rintro ⟨hfind, hget⟩ M
    exact ⟨hfind M, (getApart_iff sql M hhash).mpr hget⟩

end

def byteSum (input : List UInt8) : UInt64 := (input.map UInt8.toNat).sum.toUInt64

def labels : Model where
  table := "labels"
  key := { column := "name", type := .text }
  fields := [{ column := "name", type := .text }]
  key_mem := mem_cons_self ..

theorem answers_apart_of_small : FindApart labels (.int 1) (.int 2) ∧
      GetApart byteSum labels { sql := "select", bindings := [.int 1] }
        { sql := "select", bindings := [.int 2] } := by
  have hinput : byteSum (fingerprintInput "select" [.int 1]) ≠
      byteSum (fingerprintInput "select" [.int 2]) := by decide
  refine (answers_apart byteSum [.int 1] [.int 2] "select" (k := .int 1) (l := .int 2)
    rfl (by decide) fun h => absurd h hinput).mpr ⟨?_, ?_⟩ labels
  · rintro ⟨t, bs, h, -⟩
    cases h
  · rw [forall₂_cons]
    rintro ⟨h, -⟩
    exact absurd h (by decide)

def ownedBy (owner : Int) : Query where
  sql := "select * from labels where owner_id = ?"
  bindings := [.int owner]

/-- One owner's label answers for another, whose number rounds to the same double. -/
theorem rows_of_another : fingerprintInput (ownedBy (2 ^ 53)).sql (ownedBy (2 ^ 53)).bindings =
        fingerprintInput (ownedBy (2 ^ 53 + 1)).sql (ownedBy (2 ^ 53 + 1)).bindings ∧
      ∀ hash, (get hash labels {} (ownedBy (2 ^ 53 + 1)) []
          (get hash labels {} (ownedBy (2 ^ 53)) [[("name", .text "private")]] fun _ => none).2).1 =
          .ok [[.text "private"]] := by
  have hinput : fingerprintInput (ownedBy (2 ^ 53)).sql (ownedBy (2 ^ 53)).bindings =
      fingerprintInput (ownedBy (2 ^ 53 + 1)).sql (ownedBy (2 ^ 53 + 1)).bindings := by
    have halike : Key.Alike (.int (2 ^ 53)) (.int (2 ^ 53 + 1)) := by decide
    exact (fingerprintInput_eq_iff _).mpr (.cons halike .nil)
  refine ⟨hinput, fun hash => ?_⟩
  have hkey : (ownedBy (2 ^ 53)).key hash labels = (ownedBy (2 ^ 53 + 1)).key hash labels :=
    Query.key_inj.mpr (congrArg hash hinput)
  -- the first query misses, and leaves its row in the empty store
  have hmiss : get hash labels {} (ownedBy (2 ^ 53)) [[("name", .text "private")]] (fun _ => none) =
      (.ok [[.text "private"]],
        putRows hash labels {} (ownedBy (2 ^ 53)) [[("name", .text "private")]] fun _ => none) :=
    get_of_miss rfl rfl rfl
  have hcached : cachedRows hash labels {} (ownedBy (2 ^ 53 + 1))
      (putRows hash labels {} (ownedBy (2 ^ 53)) [[("name", .text "private")]] fun _ => none) =
      some [[.text "private"]] := by
    show cachedRows hash labels {} (ownedBy (2 ^ 53 + 1)) (Store.put _ ((ownedBy (2 ^ 53)).key hash labels)
      (Entry.toJson ⟨(ownedBy (2 ^ 53)).sql, 0, [.object [("name", .string "private")]]⟩)) = _
    rw [cachedRows_put hkey, if_pos ⟨rfl, (by decide : asI64 (.ofInt 0) = 0)⟩]
    rfl
  rw [hmiss, get_of_hit rfl hcached]

end Rustlavel.ModelCache
