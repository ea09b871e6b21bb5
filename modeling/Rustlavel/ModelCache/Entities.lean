/-
  What `find` returns after a row has been updated or deleted through the cache.
-/

import Rustlavel.ModelCache.Calls

open Transact Prog
open Double (Whole)

namespace Rustlavel.ModelCache

open Db

variable {T : Type} {S : Setting T}

/-! ## Versions of a row -/

def Call.rowKey : Call T → Option Value
  | .update key _ | .delete key _ => some key
  | _ => none

def Setting.Reads (S : Setting T) (row : Row) (model : List Value) : Prop := S.model.fromRow row = .ok model ∨
    ∃ json row', rowToJson row = some json ∧ rowFromJson json = some row' ∧ S.model.fromRow row' = .ok model

def Setting.Version (S : Setting T) (key : Value) (t : T) : Option (List Value) → Prop
  | none => S.selectOne t key = none
  | some model => ∃ key' row, S.slot key' = S.slot key ∧ S.selectOne t key' = some row ∧ S.Reads row model

def Clear (_ : Request T) : Point → World T → Prop
  | .put slot asOf, d => d.cleared slot ≤ asOf
  | _, _ => True

instance (x : Request T) (l : Point) (d : World T) : Decidable (Clear x l d) := by
  cases l <;> unfold Clear <;> infer_instance

/-! ## What the slots hold -/

/-- No slot is older than the last write that has cleared it, and every entity is a row that was there. -/
structure Fresh (S : Setting T) (d : World T) : Prop where
  cleared : ∀ slot, d.cleared slot ≤ d.clock
  readAt : ∀ slot, slot ≠ S.counter → d.store slot ≠ none → d.cleared slot ≤ d.readAt slot
  entity : ∀ key json, d.store (S.slot key) = some json →
    ∃ key' row t, S.slot key' = S.slot key ∧ d.tableAt (d.readAt (S.slot key)) = some t ∧
      S.selectOne t key' = some row ∧ rowToJson row = some json

structure Told (S : Setting T) (x : Request T) (outcome : Outcome) (d : World T) : Prop where
  found : ∀ {model asOf}, outcome = .found model asOf →
    ∃ key t, x.call = .find key ∧ d.tableAt asOf = some t ∧ S.Version key t model
  wrote : ∀ {key asOf}, x.call.rowKey = some key → outcome.wrote = some asOf → asOf ≤ d.cleared (S.slot key)

def Known (S : Setting T) (x : Request T) (d : World T) : Stage T → Prop
  | .opening key | .selecting key | .finding key => x.call = .find key
  | .storing key json asOf model => x.call = .find key ∧ ∃ row t, d.tableAt asOf = some t ∧
      S.selectOne t key = some row ∧ rowToJson row = some json ∧ S.model.fromRow row = .ok model
  | .inserting _ => x.call.rowKey = none
  | .writing key _ => x.call.rowKey = some key
  | .forgetting key outcome wrote =>
    x.call.rowKey = some key ∧ (∃ rows, outcome = .affected rows wrote) ∧ wrote ≤ d.clock
  | .bumping outcome | .finished (.ok outcome) => Told S x outcome d
  | _ => True

variable {x : Request T} {d d' : World T}
  {outcome : Outcome} {s s' : Stage T} {asOf n n' : Nat} {row : Row} {slot : String} {l : Point} {key : Value}

theorem Told.mono (h : Told S x outcome d) (hlater : d.Later d') : Told S x outcome d' where
  found heq := by
    obtain ⟨key, t, hcall, ht, hversion⟩ := h.found heq
    exact ⟨key, t, hcall, hlater.tableAt ht, hversion⟩
  wrote hkey hasOf := (h.wrote hkey hasOf).trans (hlater.cleared _)

theorem Known.mono (h : Known S x d s) (hlater : d.Later d') : Known S x d' s := by
  cases s with
  | storing =>
    obtain ⟨hcall, row, t, ht, hrow⟩ := h
    exact ⟨hcall, row, t, hlater.tableAt ht, hrow⟩
  | forgetting => exact ⟨h.1, h.2.1, h.2.2.trans hlater.clock⟩
  | bumping => exact Told.mono h hlater
  | finished r =>
    cases r with
    | error => trivial
    | ok => exact Told.mono h hlater
  | _ => exact h

theorem Told.other (hfound : ∀ model asOf, outcome ≠ .found model asOf)
    (hwrote : x.call.rowKey = none ∨ outcome.wrote = none) : Told S x outcome d where
  found heq := absurd heq (hfound _ _)
  wrote hkey hasOf := by
    rcases hwrote with h | h
    · rw [h] at hkey
      cases hkey
    · rw [h] at hasOf
      cases hasOf

theorem Told.of_version {t : T} {model : Option (List Value)}
    (hcall : x.call = .find key) (ht : d.tableAt asOf = some t) (h : S.Version key t model) :
    Told S x (.found model asOf) d where
  found heq := by
    cases heq
    exact ⟨key, t, hcall, ht, h⟩
  wrote _ hasOf := by cases hasOf

theorem Known.invalidating (h : Told S x outcome d) : Known S x d (S.invalidating outcome) := by
  unfold Setting.invalidating
  split
  · exact h
  · split <;> exact h

theorem Known.keepingEntity (hcall : x.call = .find key) (hrow : S.selectOne d.table key = some row) :
    Known S x d (S.keepingEntity key row d.clock) := by
  unfold Setting.keepingEntity
  split
  · trivial
  · rename_i model hmodel
    split
    · rename_i json hjson
      exact ⟨hcall, row, d.table, d.tableAt_clock, hrow, hjson, hmodel⟩
    · exact .of_version hcall d.tableAt_clock ⟨key, row, rfl, hrow, .inl hmodel⟩

theorem Known.keepingRows (region : Region) (q : Query) (g : Int) (rows : List Row) (asOf : Nat) :
    Known S x d (S.keepingRows region q g rows asOf) := by
  unfold Setting.keepingRows
  split
  · trivial
  · split
    · exact .other nofun (.inr rfl)
    · split
      · exact .other nofun (.inr rfl)
      · trivial

theorem Known.start (x : Request T) (d : World T) : Known S x d (S.start x) := by
  unfold Setting.start
  split <;> rename_i hcall
  · split <;> exact hcall
  · split
    · trivial
    · split <;> trivial
  · exact congrArg Call.rowKey hcall
  · exact congrArg Call.rowKey hcall
  · exact congrArg Call.rowKey hcall
  · trivial
  · exact .invalidating (.other nofun (.inr rfl))
  · trivial

theorem Fresh.version_of_hit {model : List Value} (h : Fresh S d)
    (hhit : cachedEntity S.model key d.store = some model) :
    ∃ t, d.tableAt (d.readAt (S.slot key)) = some t ∧ S.Version key t (some model) := by
  obtain ⟨json, hjson, hhit⟩ := Option.bind_eq_some_iff.mp hhit
  obtain ⟨row', hrow', hmodel⟩ := Option.bind_eq_some_iff.mp hhit
  obtain ⟨key', row, t, hslot, ht, hrow, hencoded⟩ := h.entity key json hjson
  refine ⟨t, ht, key', row, hslot, hrow, .inr ⟨json, row', hencoded, hrow', ?_⟩⟩
  cases hread : S.model.fromRow row' with
  | error =>
    rw [hread] at hmodel
    cases hmodel
  | ok =>
    rw [hread] at hmodel
    cases hmodel
    rfl

/-! ## Kept by every step -/

theorem Setting.slot_ne_counter (S : Setting T) (key : Value) : S.slot key ≠ S.counter := entity_ne_generation _ _ _

theorem Setting.slot_ne_query (S : Setting T) (key : Value) (q : Query) :
    S.slot key ≠ q.key S.hash S.model := entity_ne_query _ _ _ _

theorem Fresh.empty (table : T) : Fresh S { table := table } where
  cleared _ := Nat.zero_le _
  readAt _ _ h := absurd rfl h
  entity _ _ h := by cases h

theorem Fresh.write (h : Fresh S d) (table : T) : Fresh S (d.write table) where
  cleared slot := (h.cleared slot).trans (d.later_write table).clock
  readAt := h.readAt
  entity key json hjson := by
    obtain ⟨key', row, t, hslot, ht, hrow⟩ := h.entity key json hjson
    exact ⟨key', row, t, hslot, d.tableAt_write table ht, hrow⟩

theorem Fresh.put (h : Fresh S d) {value : Json Whole} (hclear : d.cleared slot ≤ asOf)
    (hentity : ∀ key, S.slot key = slot → ∃ key' row t, S.slot key' = slot ∧
      d.tableAt asOf = some t ∧ S.selectOne t key' = some row ∧ rowToJson row = some value) :
    Fresh S (d.put slot value asOf) where
  cleared := h.cleared
  readAt other hne hsome := by
    show d.cleared other ≤ _
    rw [World.readAt_put]
    split
    · rename_i hother
      rw [hother]
      exact hclear
    · rename_i hother
      rw [d.store_put_of_ne value asOf hother] at hsome
      exact h.readAt other hne hsome
  entity key json hjson := by
    rw [World.readAt_put]
    split
    · rename_i hslot
      rw [hslot] at hjson ⊢
      cases (Function.update_self ..).symm.trans hjson
      exact hentity key hslot
    · rename_i hslot
      rw [d.store_put_of_ne value asOf hslot] at hjson
      exact h.entity key json hjson

theorem Fresh.forget (h : Fresh S d) {wrote : Nat} (hwrote : wrote ≤ d.clock) : Fresh S (d.forget slot wrote) where
  cleared other := by
    rw [World.cleared_forget]
    split
    · exact Nat.max_le.mpr ⟨h.cleared slot, hwrote⟩
    · exact h.cleared other
  readAt other hne hsome := by
    rw [World.cleared_forget]
    split
    · rename_i heq
      exact absurd (heq ▸ Function.update_self ..) hsome
    · rename_i hother
      rw [d.store_forget_of_ne wrote hother] at hsome
      exact h.readAt other hne hsome
  entity key json hjson := by
    by_cases hslot : S.slot key = slot
    · rw [hslot] at hjson
      cases (Function.update_self ..).symm.trans hjson
    · rw [d.store_forget_of_ne wrote hslot] at hjson
      exact h.entity key json hjson

theorem Fresh.increment (h : Fresh S d) : Fresh S (d.increment S.counter) where
  cleared := h.cleared
  readAt other hne hsome := by
    rw [d.store_increment_of_ne hne] at hsome
    exact h.readAt other hne hsome
  entity key json hjson := by
    rw [d.store_increment_of_ne (S.slot_ne_counter key)] at hjson
    exact h.entity key json hjson

theorem Fresh.move (h : Fresh S d) (hs : Known S x d s)
    (hcond : Clear x l d) (hmove : S.Moves s l n d s' n' d') : Fresh S d' ∧ Known S x d' s' := by
  cases hmove with
  | failed | counted | rowsMiss => exact ⟨h, trivial⟩
  | @hit key model _ _ hhit =>
    obtain ⟨t, ht, hversion⟩ := h.version_of_hit hhit
    exact ⟨h, Told.of_version hs ht hversion⟩
  | miss => exact ⟨h, hs⟩
  | absent hnone => exact ⟨h, .of_version hs d.tableAt_clock hnone⟩
  | selected hrow => exact ⟨h, .keepingEntity hs hrow⟩
  | @stored key =>
    obtain ⟨hcall, row, t, ht, hrow, hjson, hmodel⟩ := hs
    refine ⟨h.put hcond fun key' hslot => ⟨key, row, t, rfl, ht, hrow, hjson⟩, ?_⟩
    exact Told.mono (.of_version hcall ht ⟨key, row, rfl, hrow, .inl hmodel⟩) (d.later_put ..)
  | @found key =>
    refine ⟨h, ?_⟩
    cases hrow : S.selectOne d.table key with
    | none => exact Told.of_version hs d.tableAt_clock hrow
    | some row =>
      dsimp only [Setting.hydrated]
      cases hmodel : S.model.fromRow row with
      | error => trivial
      | ok => exact Told.of_version hs d.tableAt_clock ⟨key, row, rfl, hrow, .inl hmodel⟩
  | rowsHit => exact ⟨h, .other nofun (.inr rfl)⟩
  | queried => exact ⟨h, .keepingRows ..⟩
  | @kept q =>
    refine ⟨h.put hcond fun key hslot => absurd hslot (S.slot_ne_query key q), ?_⟩
    exact .other nofun (.inr rfl)
  | @got q =>
    refine ⟨h, ?_⟩
    unfold Setting.hydratedRows
    cases (S.select d.table q).mapM S.model.fromRow with
    | error => trivial
    | ok => exact .other nofun (.inr rfl)
  | notAdopted => exact ⟨h.write _, trivial⟩
  | inserted => exact ⟨h.write _, .invalidating (.other nofun (.inl hs))⟩
  | wrote => exact ⟨h.write _, hs, ⟨_, rfl⟩, Nat.le_of_eq (d.clock_write _).symm⟩
  | forgot =>
    obtain ⟨hkey, ⟨_, rfl⟩, hwrote⟩ := hs
    refine ⟨h.forget hwrote, .invalidating ⟨nofun, fun hkey' hasOf => ?_⟩⟩
    rw [hkey] at hkey'
    cases hkey'
    cases hasOf
    -- the slot is cleared after this very write
    rw [World.cleared_forget, if_pos rfl]
    exact Nat.le_max_right ..
  | bumped => exact ⟨h.increment, Told.mono hs (d.later_increment _)⟩
  | emptied => exact ⟨h.forget (Nat.zero_le _), .other nofun (.inr rfl)⟩

def entities (S : Setting T) : Outline (staging S Clear) where
  inv _ := Fresh S
  Holds x s d := Known S x d s
  Apart _ _ _ _ := True
  symm _ := trivial
  start _ _ := ⟨.start .., fun _ _ => trivial⟩
  move h hs hcond hmove := h.move hs hcond hmove
  others _ _ ht _ _ hmove := ⟨ht.mono hmove.later, trivial⟩

/-! ## Runs -/

def reader : Request (Option String) := { call := .find (.text "n1") }

def writer : Request (Option String) := { call := .update (.text "n1") fun _ => (some "new", 1) }

/-! ## Finds after a write -/

/-- A find of a row that has begun after the write `wrote`: whatever it has selected or been told is not older. -/
def After (key : Value) (wrote : Nat) : Stage T → Prop
  | .opening key' | .selecting key' | .finding key' => key' = key
  | .storing _ _ asOf _ | .finished (.ok (.found _ asOf)) => wrote ≤ asOf
  | .finished (.error _) => True
  | _ => False

variable {key : Value} {wrote : Nat}

theorem After.start (hx : x.call = .find key) : After key wrote (S.start x) := by
  unfold Setting.start
  rw [hx]
  dsimp only
  split <;> rfl

theorem After.keepingEntity {key' : Value} (h : wrote ≤ asOf) : After key wrote (S.keepingEntity key' row asOf) := by
  unfold Setting.keepingEntity
  split
  · trivial
  · split <;> exact h

theorem After.move (hfresh : Fresh S d) (hcleared : wrote ≤ d.cleared (S.slot key)) (h : After key wrote s)
    (hmove : S.Moves s l n d s' n' d') : After key wrote s' := by
  have hclock : wrote ≤ d.clock := hcleared.trans (hfresh.cleared _)
  cases hmove with
  | failed => trivial
  | @hit key' model _ _ hhit =>
    obtain rfl : key' = key := h
    refine hcleared.trans (hfresh.readAt _ (S.slot_ne_counter _) fun hnone => ?_)
    obtain ⟨_, hjson, -⟩ := Option.bind_eq_some_iff.mp hhit
    cases hnone.symm.trans hjson
  | miss | stored => exact h
  | absent => exact hclock
  | selected => exact .keepingEntity hclock
  | @found key' =>
    cases S.selectOne d.table key' with
    | none => exact hclock
    | some row =>
      dsimp only [Setting.hydrated]
      cases S.model.fromRow row with
      | error => trivial
      | ok => exact hclock
  | counted | rowsHit | rowsMiss | queried | kept | got | notAdopted | inserted | wrote | forgot
  | bumped | emptied => exact h.elim

/-- Where no row is put that a write has overtaken, a find that begins once a write of its row has returned gives a
    version no older than that write. -/
theorem found_not_older (S : Setting T) (table : T)
    {c₀ c : Config (Request T) Point (World T) (Write T) (Except String Outcome)}
    (hc₀ : (system S Clear).Reachable { table := table } c₀)
    {i : Nat} {x y : Request T} {key : Value} {rows wrote : Nat} (hx : x.call.rowKey = some key)
    (hreturned : c₀.calls[i]? = some (x, ret (.ok (.affected rows wrote))))
    (hy : y.call = .find key)
    (hrun : (system S Clear).Run { c₀ with calls := c₀.calls ++ [(y, (system S Clear).program y)] } c)
    {model : Option (List Value)} {asOf : Nat}
    (hfound : c.calls[c₀.calls.length]? = some (y, ret (.ok (.found model asOf)))) :
    wrote ≤ asOf ∧ ∃ t, c.db.tableAt asOf = some t ∧ S.Version key t model := by
  obtain ⟨a0, ha0, rfl⟩ := (staging S Clear).of_reachable hc₀
  have hfits := (entities S).fits_of_reachable (Fresh.empty table) ha0
  -- the write has returned, and cleared the slot before
  obtain ⟨s, hcall, hrest⟩ := (staging S Clear).of_call hreturned
  obtain rfl := S.finished_of_rest x hrest
  have hcleared := (hfits.holds hcall).wrote hx rfl
  -- the find begins
  have hallowed : (system S Clear).allowed y := by
    show y.call.expires ≠ _
    rw [hy]
    exact nofun
  obtain ⟨s, hrest, ⟨-, hafter⟩, hholds⟩ := hfits.follow_call (entities S) hallowed
    (P := fun s d => wrote ≤ d.cleared (S.slot key) ∧ After key wrote s) hrun hfound
    ⟨hcleared, After.start hy⟩
    ⟨fun hfresh _ hs _ hmove => ⟨hs.1.trans (hmove.later.cleared _), hs.2.move hfresh hs.1 hmove⟩,
      fun _ _ hs _ _ hmove => ⟨hs.1.trans (hmove.later.cleared _), hs.2⟩⟩
  obtain rfl := S.finished_of_rest y hrest
  obtain ⟨_, t, hkey, ht, hversion⟩ := hholds.found rfl
  cases hy.symm.trans hkey
  exact ⟨hafter, t, ht, hversion⟩

theorem found_not_older_of_update : ∃ c₀ c, (system board Clear).Reachable { table := some "old" } c₀ ∧
      c₀.calls[0]? = some (writer, ret (.ok (.affected 1 1))) ∧
      (system board Clear).Run { c₀ with calls := c₀.calls ++ [(reader, (system board Clear).program reader)] } c ∧
      c.calls[c₀.calls.length]? = some (reader, ret (.ok (.found (some [.text "n1", .text "new"]) 1))) ∧
      1 ≤ 1 ∧ ∃ t, c.db.tableAt 1 = some t ∧ board.Version (.text "n1") t (some [.text "n1", .text "new"]) := by
  obtain ⟨c₀, c, hc₀, hreturned, hrun, hfound⟩ := (system board Clear).play_after
    [.call writer, .advance 0, .advance 0, .advance 0] [.advance 1, .advance 1, .advance 1]
    { next := 0, db := { table := some "old" }, calls := [] } 0 writer reader (.ok (.affected 1 1))
    (.ok (.found (some [.text "n1", .text "new"]) 1)) rfl
  exact ⟨c₀, c, hc₀, hreturned, hrun, hfound, found_not_older board (some "old") hc₀ rfl hreturned rfl hrun hfound⟩

/-- A find selects the note; an update writes, forgets, invalidates and returns; the find puts the old note. -/
theorem found_older : ∃ c₀ c, (system board fun _ _ _ => True).Reachable { table := some "old" } c₀ ∧
      c₀.calls[1]? = some (writer, ret (.ok (.affected 1 1))) ∧
      (system board fun _ _ _ => True).Run { c₀ with calls := c₀.calls ++
          [(reader, (system board fun _ _ _ => True).program reader)] } c ∧
      c.calls[c₀.calls.length]? = some (reader, ret (.ok (.found (some [.text "n1", .text "old"]) 0))) :=
  (system board fun _ _ _ => True).play_after
    [.call reader, .advance 0, .advance 0, .call writer, .advance 1, .advance 1, .advance 1,
     .advance 0] [.advance 2] { next := 0, db := { table := some "old" }, calls := [] } 1 writer reader
    (.ok (.affected 1 1))
    (.ok (.found (some [.text "n1", .text "old"]) 0)) rfl

end Rustlavel.ModelCache
