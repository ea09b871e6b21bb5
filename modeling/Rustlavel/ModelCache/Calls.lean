/-
  The calls of a model's cache, one database statement or cache operation at a
  time, so that any number of them can be interleaved.
-/

import Rustlavel.Lib.Stages
import Rustlavel.ModelCache.Answers

open Transact Function ExceptT Nat List
open Double (Whole)

namespace Rustlavel.ModelCache

open Db

variable {T α : Type}

/-! ## The world -/

/-- A table of type `T` with its cache: how its rows are selected, and the region, if the model is cached at all. -/
structure Setting (T : Type) where
  model : Model
  region : Option Region
  hash : List UInt8 → UInt64
  selectOne : T → Value → Option Row
  select : T → Query → List Row

/-- The table and the cache with their history: the tables before each write; for every slot when it was read and
    last cleared; for every generation when it began. -/
structure World (T : Type) where
  table : T
  past : List T := []
  store : Store := fun _ => none
  readAt : String → Nat := fun _ => 0
  cleared : String → Nat := fun _ => 0
  since : Int → Nat := fun _ => 0

def digits? (ds : List Char) : Option Int :=
  if ds ≠ [] ∧ ds.all Char.isDigit then
    some (ds.foldl (fun n c => 10 * n + ((c.toNat - '0'.toNat : Nat) : Int)) 0)
  else
    none

def parseI64 (s : String) : Option Int :=
  let n := match s.toList with
    | '-' :: ds => (digits? ds).map fun n => -n
    | '+' :: ds => digits? ds
    | ds => digits? ds
  n.filter fun n => -2 ^ 63 ≤ n ∧ n < 2 ^ 63

def counterValue : Option (Json Whole) → Int
  | some (.number x) => asI64 x
  | some (.string s) => (parseI64 s.trimAscii.copy).getD 0
  | _ => 0

namespace World

variable (d : World T)

def clock : Nat := d.past.length

def tableAt (n : Nat) : Option T := (d.past ++ [d.table])[n]?

variable (table : T)

def write : World T := { d with table := table, past := d.past ++ [d.table] }

def put (slot : String) (value : Json Whole) (asOf : Nat) : World T :=
  { d with store := d.store.put slot value, readAt := update d.readAt slot asOf }

/-- Forget a slot after the write `wrote`. -/
def forget (slot : String) (wrote : Nat) : World T := { d with
    store := update d.store slot none
    cleared := update d.cleared slot (max (d.cleared slot) wrote) }

def increment (slot : String) : World T :=
  let next := Whole.ofInt (counterValue (d.store slot) + 1)
  { d with
    store := d.store.put slot (.number next)
    since := update d.since (asI64 next) d.clock }

theorem clock_write : (d.write table).clock = d.clock + 1 := length_append ..

theorem tableAt_clock : d.tableAt d.clock = some d.table := getElem?_concat_length

theorem tableAt_write {n : Nat} {t : T} (h : d.tableAt n = some t) : (d.write table).tableAt n = some t := by
  have hlt := (List.getElem?_eq_some_iff.mp h).1
  exact (List.getElem?_append_left hlt).trans h

variable {slot other : String}

theorem store_put_of_ne (value : Json Whole) (asOf : Nat) (h : other ≠ slot) :
    (d.put slot value asOf).store other = d.store other := update_of_ne h ..

theorem store_forget_of_ne (wrote : Nat) (h : other ≠ slot) :
    (d.forget slot wrote).store other = d.store other := update_of_ne h ..

theorem store_increment_of_ne (h : other ≠ slot) : (d.increment slot).store other = d.store other :=
  update_of_ne h ..

theorem readAt_put (value : Json Whole) (asOf : Nat) :
    (d.put slot value asOf).readAt other = if other = slot then asOf else d.readAt other :=
  update_apply ..

structure Later (d d' : World T) : Prop where
  clock : d.clock ≤ d'.clock
  tableAt : ∀ {n t}, d.tableAt n = some t → d'.tableAt n = some t
  cleared : ∀ slot, d.cleared slot ≤ d'.cleared slot

theorem later_refl : d.Later d := ⟨le_refl _, id, fun _ => le_refl _⟩

theorem later_write : d.Later (d.write table) where
  clock := by
    rw [clock_write]
    exact le_succ _
  tableAt := d.tableAt_write table
  cleared _ := le_refl _

theorem later_put (slot : String) (value : Json Whole) (asOf : Nat) :
    d.Later (d.put slot value asOf) := ⟨le_refl _, id, fun _ => le_refl _⟩

theorem cleared_forget (slot : String) (wrote : Nat) (other : String) : (d.forget slot wrote).cleared other =
      if other = slot then max (d.cleared slot) wrote else d.cleared other :=
  update_apply ..

theorem later_forget (slot : String) (wrote : Nat) : d.Later (d.forget slot wrote) where
  clock := le_refl _
  tableAt := id
  cleared other := by
    rw [cleared_forget]
    split
    · rename_i h
      rw [h]
      exact le_max_left ..
    · exact le_refl _

theorem later_increment (slot : String) : d.Later (d.increment slot) := ⟨le_refl _, id, fun _ => le_refl _⟩

end World

inductive Write (T : Type) where
  | write (table : T)
  | put (slot : String) (value : Json Whole) (asOf : Nat)
  | forget (slot : String) (wrote : Nat)
  | increment (slot : String)

instance : Transact.Store (World T) (Write T) where
  apply
    | .write table, d => d.write table
    | .put slot value asOf, d => d.put slot value asOf
    | .forget slot wrote, d => d.forget slot wrote
    | .increment slot, d => d.increment slot

/-! ## Calls -/

inductive Point where
  | lookup
  | generation
  | select
  | put (slot : String) (asOf : Nat)
  | write
  | forget
  | increment

inductive Call (T : Type) where
  | find (key : Value)
  | get (q : Query)
  | insert (run : T → T × Except String Unit)
  | update (key : Value) (run : T → T × Nat)
  | delete (key : Value) (run : T → T × Nat)
  | forget (key : Value)
  | invalidateTable
  | expire (slot : String)

structure Request (T : Type) where
  call : Call T
  fault : Point → Option String := fun _ => none

/-- What a call returns, with the number of writes that had been made when its rows
    were read, or when it had written. -/
inductive Outcome where
  | found (model : Option (List Value)) (asOf : Nat)
  | rows (models : List (List Value)) (asOf : Nat)
  | inserted (asOf : Nat)
  | affected (rows asOf : Nat)
  | done

def Outcome.wrote : Outcome → Option Nat
  | .inserted asOf | .affected _ asOf => some asOf
  | .found .. | .rows .. | .done => none

abbrev Op (T α : Type) : Type 1 := ExceptT String (Prog Point (World T) (Write T)) α

def Request.perform (x : Request T) (l : Point) (body : ExceptT String (Tx (World T) (Write T)) α) : Op T α :=
  Prog.statement l <|
    match x.fault l with
    | some error => throw error
    | none => body

namespace Setting

variable (S : Setting T) (x : Request T) (key : Value)

def slot : String := entity S.model.table (jsonText key)

def counter : String := generation S.model.table

/-! ### Reading -/

def storeEntity (json : Json Whole) (asOf : Nat) (model : List Value) : Op T Outcome := do
  let _ ← x.perform (.put (S.slot key) asOf) (Tx.tryUpdate fun _ => some (.put (S.slot key) json asOf))
  return .found (some model) asOf

def keepEntity (row : Row) (asOf : Nat) : Op T Outcome :=
  match S.model.fromRow row with
  | .error e => throw e
  | .ok model =>
    match rowToJson row with
    | some json => S.storeEntity x key json asOf model
    | none => return .found (some model) asOf

def fetchEntity : Op T Outcome := do
  match ← x.perform .select (Tx.query fun d => (S.selectOne d.table key, d.clock)) with
  | (none, asOf) => return .found none asOf
  | (some row, asOf) => S.keepEntity x key row asOf

def hydrated : Option Row × Nat → Except String Outcome
  | (none, asOf) => .ok (.found none asOf)
  | (some row, asOf) => (S.model.fromRow row).map fun model => .found (some model) asOf

def find : Op T Outcome :=
  match S.region.filter (·.entities) with
  | none => do
    let selected ← x.perform .select (Tx.query fun d => (S.selectOne d.table key, d.clock))
    ExceptT.mk (pure (S.hydrated selected))
  | some _ => do
    let cached ← x.perform .lookup <| Tx.query fun d =>
      (cachedEntity S.model key d.store).map fun model => (model, d.readAt (S.slot key))
    match cached with
    | some (model, asOf) => return .found (some model) asOf
    | none => S.fetchEntity x key

def storeRows (q : Query) (entry : Entry) (models : List (List Value)) (asOf : Nat) : Op T Outcome := do
  let _ ← x.perform (.put (q.key S.hash S.model) asOf)
    (Tx.tryUpdate fun _ => some (.put (q.key S.hash S.model) entry.toJson asOf))
  return .rows models asOf

variable (region : Region) (q : Query) (g : Int)

def keepRows (rows : List Row) (asOf : Nat) : Op T Outcome :=
  match rows.mapM S.model.fromRow with
  | .error e => throw e
  | .ok models =>
    if region.maxRows < rows.length then return .rows models asOf
    else
      match rows.mapM rowToJson with
      | none => return .rows models asOf
      | some encoded =>
        S.storeRows x q { sql := q.sql, generation := g, rows := encoded } models asOf

def fetchRows : Op T Outcome := do
  let selected ← x.perform .select (Tx.query fun d => (S.select d.table q, d.clock))
  S.keepRows x region q g selected.1 selected.2

def lookupRows : Op T Outcome := do
  let cached ← x.perform .lookup <| Tx.query fun d =>
    (rowsOf S.hash S.model q g d.store).map fun models => (models, d.readAt (q.key S.hash S.model))
  match cached with
  | some (models, asOf) => return .rows models asOf
  | none => S.fetchRows x region q g

def hydratedRows (selected : List Row × Nat) : Except String Outcome :=
  (selected.1.mapM S.model.fromRow).map fun models => .rows models selected.2

def get (q : Query) : Op T Outcome :=
  match S.region.filter (·.queries) with
  | none => do
    let selected ← x.perform .select (Tx.query fun d => (S.select d.table q, d.clock))
    ExceptT.mk (pure (S.hydratedRows selected))
  | some region =>
    if region.readOnly then S.lookupRows x region q 0
    else do
      let g ← x.perform .generation (Tx.query fun d => currentGeneration S.model region d.store)
      S.lookupRows x region q g

/-! ### Writing -/

def write (run : T → T × α) : Op T (α × Nat) := x.perform .write do
    let returned ← Tx.query fun d => (run d.table).2
    let _ ← Tx.tryUpdate fun d => some (.write (run d.table).1)
    let asOf ← Tx.query World.clock
    return (returned, asOf)

variable (outcome : Outcome) (run : T → T × Nat)

def bump : Op T Outcome := do
  let _ ← x.perform .increment (Tx.tryUpdate fun _ => some (.increment S.counter))
  return outcome

def invalidateTable : Op T Outcome :=
  match S.region with
  | none => return outcome
  | some region => if region.readOnly then return outcome else S.bump x outcome

/-- Forget a slot after the write `wrote`; a call that has not written says 0. -/
def forgetSlot (slot : String) (wrote : Nat) : Op T Bool :=
  x.perform .forget (Tx.tryUpdate fun _ => some (.forget slot wrote))

def invalidate (wrote : Nat) : Op T Outcome := do
  let _ ← forgetSlot x (S.slot key) wrote
  S.invalidateTable x outcome

def insert (run : T → T × Except String Unit) : Op T Outcome := do
  match ← write x run with
  | (.error e, _) => throw e
  | (.ok _, asOf) => S.invalidateTable x (.inserted asOf)

def writeRow : Op T Outcome := do
  let returned ← write x run
  S.invalidate x key (.affected returned.1 returned.2) returned.2

def update : Op T Outcome := S.writeRow x key run

def delete : Op T Outcome := S.writeRow x key run

def clear (slot : String) : Op T Outcome := do
  let _ ← forgetSlot x slot 0
  return .done

def program : Prog Point (World T) (Write T) (Except String Outcome) :=
  match x.call with
  | .find key => (S.find x key).run
  | .get q => (S.get x q).run
  | .insert run => (S.insert x run).run
  | .update key run => (S.update x key run).run
  | .delete key run => (S.delete x key run).run
  | .forget key => (clear x (S.slot key)).run
  | .invalidateTable => (S.invalidateTable x .done).run
  | .expire slot => (clear x slot).run

end Setting

def Call.expires : Call T → Option String
  | .expire slot => some slot
  | _ => none

def system (S : Setting T) (cond : Request T → Point → World T → Prop) :
    System (Request T) Point (World T) (Write T) (Except String Outcome) where
  program := S.program
  allowed x := x.call.expires ≠ some S.counter
  cond := cond

instance (S : Setting T) (cond : Request T → Point → World T → Prop) : DecidablePred (system S cond).allowed :=
  fun x => inferInstanceAs (Decidable (x.call.expires ≠ some S.counter))

instance (S : Setting T) (cond : Request T → Point → World T → Prop)
    [∀ x l d, Decidable (cond x l d)] (x : Request T) (l : Point) (d : World T) :
    Decidable ((system S cond).cond x l d) := inferInstanceAs (Decidable (cond x l d))

/-! ## Stages of a call -/

inductive Stage (T : Type) where
  | opening (key : Value)
  | selecting (key : Value)
  | storing (key : Value) (json : Json Whole) (asOf : Nat) (model : List Value)
  | finding (key : Value)
  | counting (region : Region) (q : Query)
  | looking (region : Region) (q : Query) (g : Int)
  | querying (region : Region) (q : Query) (g : Int)
  | keeping (q : Query) (entry : Entry) (models : List (List Value)) (asOf : Nat)
  | getting (q : Query)
  | inserting (run : T → T × Except String Unit)
  | writing (key : Value) (run : T → T × Nat)
  | forgetting (key : Value) (outcome : Outcome) (wrote : Nat)
  | bumping (outcome : Outcome)
  | clearing (slot : String)
  | finished (r : Except String Outcome)

namespace Setting

variable (S : Setting T)

def invalidating (outcome : Outcome) : Stage T :=
  match S.region with
  | none => .finished (.ok outcome)
  | some region => if region.readOnly then .finished (.ok outcome) else .bumping outcome

def keepingEntity (key : Value) (row : Row) (asOf : Nat) : Stage T :=
  match S.model.fromRow row with
  | .error e => .finished (.error e)
  | .ok model =>
    match rowToJson row with
    | some json => .storing key json asOf model
    | none => .finished (.ok (.found (some model) asOf))

def keepingRows (region : Region) (q : Query) (g : Int) (rows : List Row) (asOf : Nat) : Stage T :=
  match rows.mapM S.model.fromRow with
  | .error e => .finished (.error e)
  | .ok models =>
    if region.maxRows < rows.length then .finished (.ok (.rows models asOf))
    else
      match rows.mapM rowToJson with
      | none => .finished (.ok (.rows models asOf))
      | some encoded => .keeping q { sql := q.sql, generation := g, rows := encoded } models asOf

def start (x : Request T) : Stage T :=
  match x.call with
  | .find key =>
    match S.region.filter (·.entities) with
    | none => .finding key
    | some _ => .opening key
  | .get q =>
    match S.region.filter (·.queries) with
    | none => .getting q
    | some region => if region.readOnly then .looking region q 0 else .counting region q
  | .insert run => .inserting run
  | .update key run | .delete key run => .writing key run
  | .forget key => .clearing (S.slot key)
  | .invalidateTable => S.invalidating .done
  | .expire slot => .clearing slot

def rest (x : Request T) : Stage T → Prog Point (World T) (Write T) (Except String Outcome)
  | .opening key => run do
      let cached ← x.perform .lookup <| Tx.query fun d =>
        (cachedEntity S.model key d.store).map fun model => (model, d.readAt (S.slot key))
      match cached with
      | some (model, asOf) => return .found (some model) asOf
      | none => S.fetchEntity x key
  | .selecting key => (S.fetchEntity x key).run
  | .storing key json asOf model => (S.storeEntity x key json asOf model).run
  | .finding key => run do
      let selected ← x.perform .select (Tx.query fun d => (S.selectOne d.table key, d.clock))
      ExceptT.mk (pure (S.hydrated selected))
  | .counting region q => run do
      let g ← x.perform .generation (Tx.query fun d => currentGeneration S.model region d.store)
      S.lookupRows x region q g
  | .looking region q g => (S.lookupRows x region q g).run
  | .querying region q g => (S.fetchRows x region q g).run
  | .keeping q entry models asOf => (S.storeRows x q entry models asOf).run
  | .getting q => run do
      let selected ← x.perform .select (Tx.query fun d => (S.select d.table q, d.clock))
      ExceptT.mk (pure (S.hydratedRows selected))
  | .inserting run => (S.insert x run).run
  | .writing key run => (S.writeRow x key run).run
  | .forgetting key outcome wrote => (S.invalidate x key outcome wrote).run
  | .bumping outcome => (S.bump x outcome).run
  | .clearing slot => (clear x slot).run
  | .finished r => pure r

inductive Moves : Stage T → Point → Nat → World T → Stage T → Nat → World T → Prop where
  | failed {s l n d} (error : String) : Moves s l n d (.finished (.error error)) n d
  | hit {key model n d} (h : cachedEntity S.model key d.store = some model) : Moves (.opening key) .lookup n d
        (.finished (.ok (.found (some model) (d.readAt (S.slot key))))) n d
  | miss {key n d} : Moves (.opening key) .lookup n d (.selecting key) n d
  | absent {key n d} (h : S.selectOne d.table key = none) :
      Moves (.selecting key) .select n d (.finished (.ok (.found none d.clock))) n d
  | selected {key row n d} (h : S.selectOne d.table key = some row) :
      Moves (.selecting key) .select n d (S.keepingEntity key row d.clock) n d
  | stored {key json asOf model n d} : Moves (.storing key json asOf model) (.put (S.slot key) asOf) n d
        (.finished (.ok (.found (some model) asOf))) n (d.put (S.slot key) json asOf)
  | found {key n d} : Moves (.finding key) .select n d (.finished (S.hydrated (S.selectOne d.table key, d.clock))) n d
  | counted {region q n d} : Moves (.counting region q) .generation n d
      (.looking region q (currentGeneration S.model region d.store)) n d
  | rowsHit {region q g models n d} (h : rowsOf S.hash S.model q g d.store = some models) :
      Moves (.looking region q g) .lookup n d (.finished (.ok (.rows models (d.readAt (q.key S.hash S.model))))) n d
  | rowsMiss {region q g n d} : Moves (.looking region q g) .lookup n d (.querying region q g) n d
  | queried {region q g n d} : Moves (.querying region q g) .select n d
      (S.keepingRows region q g (S.select d.table q) d.clock) n d
  | kept {q entry models asOf n d} : Moves (.keeping q entry models asOf) (.put (q.key S.hash S.model) asOf) n d
        (.finished (.ok (.rows models asOf))) n (d.put (q.key S.hash S.model) entry.toJson asOf)
  | got {q n d} : Moves (.getting q) .select n d (.finished (S.hydratedRows (S.select d.table q, d.clock))) n d
  | notAdopted {run n d} (error : String) : Moves (.inserting run) .write n d
      (.finished (.error error)) n (d.write (run d.table).1)
  | inserted {run n d} : Moves (.inserting run) .write n d
      (S.invalidating (.inserted (d.clock + 1))) n (d.write (run d.table).1)
  | wrote {key run n d} : Moves (.writing key run) .write n d
      (.forgetting key (.affected (run d.table).2 (d.clock + 1)) (d.clock + 1)) n
      (d.write (run d.table).1)
  | forgot {key outcome wrote n d} : Moves (.forgetting key outcome wrote) .forget n d
      (S.invalidating outcome) n (d.forget (S.slot key) wrote)
  | bumped {outcome n d} : Moves (.bumping outcome) .increment n d (.finished (.ok outcome)) n (d.increment S.counter)
  | emptied {slot n d} : Moves (.clearing slot) .forget n d (.finished (.ok .done)) n (d.forget slot 0)

variable {S} in
theorem Moves.later {s s' : Stage T} {l : Point} {n n' : Nat} {d d' : World T}
    (h : S.Moves s l n d s' n' d') : d.Later d' := by
  cases h with
  | failed | hit | miss | absent | selected | found | counted | rowsHit | rowsMiss | queried | got =>
    exact d.later_refl
  | stored | kept => exact d.later_put ..
  | notAdopted | inserted | wrote => exact d.later_write _
  | forgot | emptied => exact d.later_forget ..
  | bumped => exact d.later_increment _

abbrev Next (x : Request T) (s : Stage T) (l : Point) (n : Nat) (d : World T)
    (q : Prog Point (World T) (Write T) (Except String Outcome)) (n' : Nat) (d' : World T) : Prop :=
  ∃ s', S.rest x s' = q ∧ S.Moves s l n d s' n' d'

section

variable (x : Request T)

theorem rest_invalidating (outcome : Outcome) :
    S.rest x (S.invalidating outcome) = (S.invalidateTable x outcome).run := by
  unfold invalidating invalidateTable
  split
  · rfl
  · split <;> rfl

theorem rest_keepingEntity (key : Value) (row : Row) (asOf : Nat) :
    S.rest x (S.keepingEntity key row asOf) = (S.keepEntity x key row asOf).run := by
  unfold keepingEntity keepEntity
  split
  · rfl
  · split <;> rfl

theorem rest_keepingRows (region : Region) (q : Query) (g : Int) (rows : List Row) (asOf : Nat) :
    S.rest x (S.keepingRows region q g rows asOf) = (S.keepRows x region q g rows asOf).run := by
  unfold keepingRows keepRows
  split
  · rfl
  · split
    · rfl
    · split <;> rfl

theorem rest_start : S.rest x (S.start x) = S.program x := by
  unfold start program
  cases x.call with
  | find =>
    unfold find
    cases S.region.filter (·.entities) <;> rfl
  | get =>
    unfold get
    cases S.region.filter (·.queries) with
    | none => rfl
    | some =>
      dsimp only
      split <;> rfl
  | invalidateTable => exact S.rest_invalidating x .done
  | insert | update | delete | forget | expire => rfl

variable {S x} {s : Stage T}

theorem goes_perform {l : Point} {body : ExceptT String (Tx (World T) (Write T)) α}
    {f : α → Op T Outcome} (h : ((Prog.statement l body).run >>= ExceptT.bindCont f).Goes (S.Next x s)) :
    ((x.perform l body) >>= f).run.Goes (S.Next x s) := by
  unfold Request.perform
  split
  · rename_i error _
    exact Prog.Goes.throw fun n d => ⟨.finished (.error error), rfl, .failed error⟩
  · exact h

theorem goes_write {run : T → T × α} {f : α × Nat → Op T Outcome}
    (h : ∀ n d, S.Next x s .write n d (f ((run d.table).2, d.clock + 1)).run n (d.write (run d.table).1)) :
    ((write x run) >>= f).run.Goes (S.Next x s) := by
  refine goes_perform (Prog.Goes.statement (fun n d a n' d' hrun => ?_) fun n d e n' d' hrun => ?_)
  · cases hrun
    have hclock : (Transact.Store.apply (Write.write (run d.table).1) d).clock = d.clock + 1 := d.clock_write _
    rw [hclock]
    exact h n d
  · cases hrun

variable (S x)

theorem goes_rest (s : Stage T) : (S.rest x s).Goes (S.Next x s) := by
  cases s with
  | opening key =>
    refine goes_perform (Prog.Goes.query fun n d => ?_)
    cases h : cachedEntity S.model key d.store with
    | some => exact ⟨_, rfl, .hit h⟩
    | none => exact ⟨.selecting key, rfl, .miss⟩
  | selecting key =>
    refine goes_perform (Prog.Goes.query fun n d => ?_)
    cases h : S.selectOne d.table key with
    | none => exact ⟨.finished (.ok (.found none d.clock)), rfl, .absent h⟩
    | some row => exact ⟨_, S.rest_keepingEntity x key row d.clock, .selected h⟩
  | storing key json asOf model =>
    exact goes_perform (Prog.Goes.update fun n d => ⟨.finished (.ok (.found (some model) asOf)), rfl, .stored⟩)
  | finding =>
    exact goes_perform (Prog.Goes.query fun n d => ⟨.finished _, rfl, .found⟩)
  | counting region q =>
    exact goes_perform (Prog.Goes.query fun n d => ⟨.looking region q _, rfl, .counted⟩)
  | looking region q g =>
    refine goes_perform (Prog.Goes.query fun n d => ?_)
    cases h : rowsOf S.hash S.model q g d.store with
    | some => exact ⟨_, rfl, .rowsHit h⟩
    | none => exact ⟨.querying region q g, rfl, .rowsMiss⟩
  | querying region q g =>
    refine goes_perform (Prog.Goes.query fun n d => ?_)
    exact ⟨_, S.rest_keepingRows x region q g _ d.clock, .queried⟩
  | keeping q entry models asOf =>
    exact goes_perform (Prog.Goes.update fun n d => ⟨.finished (.ok (.rows models asOf)), rfl, .kept⟩)
  | getting =>
    exact goes_perform (Prog.Goes.query fun n d => ⟨.finished _, rfl, .got⟩)
  | inserting run =>
    refine goes_write fun n d => ?_
    cases (run d.table).2 with
    | error e => exact ⟨.finished (.error e), rfl, .notAdopted e⟩
    | ok => exact ⟨_, S.rest_invalidating x _, .inserted⟩
  | writing key =>
    exact goes_write fun n d => ⟨.forgetting key _ _, rfl, .wrote⟩
  | forgetting key outcome =>
    exact goes_perform (Prog.Goes.update fun n d => ⟨_, S.rest_invalidating x outcome, .forgot⟩)
  | bumping outcome =>
    exact goes_perform (Prog.Goes.update fun n d => ⟨.finished (.ok outcome), rfl, .bumped⟩)
  | clearing =>
    exact goes_perform (Prog.Goes.update fun n d => ⟨.finished (.ok .done), rfl, .emptied⟩)
  | finished => trivial

theorem finished_of_rest {r : Except String Outcome} (h : S.rest x s = .ret r) : s = .finished r := by
  cases s with
  | finished =>
    cases h
    rfl
  | _ => cases h

end

end Setting

def staging (S : Setting T) (cond : Request T → Point → World T → Prop) : Staging (system S cond) (Stage T) where
  prog := S.rest
  start := S.start
  Moves _ := S.Moves
  program_eq x := (S.rest_start x).symm
  goes := S.goes_rest

/-! ## A small table -/

def notes : Model where
  table := "notes"
  key := { column := "id", type := .text }
  fields := [{ column := "id", type := .text }, { column := "body", type := .text }]
  key_mem := mem_cons_self ..

def note (body : String) : Row := [("body", .text body), ("id", .text "n1")]

def board : Setting (Option String) where
  model := notes
  region := some {}
  hash := byteSum
  selectOne t _ := t.map note
  select t _ := (t.map note).toList

end Rustlavel.ModelCache
