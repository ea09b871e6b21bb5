/-
  What `get` returns after the table has been written through the cache.
-/

import Rustlavel.ModelCache.Calls

open Transact Prog Option Function Nat List
open Double (Whole)

namespace Rustlavel.ModelCache

open Db

variable {T : Type} {S : Setting T}

/-! ## The counter -/

def Setting.gen (S : Setting T) (d : World T) : Int := counterValue (d.store S.counter)

def Counts (S : Setting T) (_ : Request T) : Point → World T → Prop
  | .increment, d => S.gen d < 2 ^ 53
  | _, _ => True

instance (x : Request T) (l : Point) (d : World T) : Decidable (Counts S x l d) := by
  apply @Point.casesOn _ l <;> unfold Counts <;> infer_instance

def Setting.ReadWrite (S : Setting T) : Prop := ∀ region, S.region = some region → ¬ region.readOnly

variable {k g : Int} {region : Region} {outcome : Outcome} {s s' : Stage T} {q : Query} {t : T}
  {models : List (List Value)} {asOf n n' : Nat} {l : Point}

theorem asI64_ofInt (hpos : 0 ≤ k) (hle : k ≤ 2 ^ 53) : asI64 (.ofInt k) = k := by
  have hround : Double.round k = k := by
    by_cases h : k = 2 ^ 53
    · rw [h]
      decide
    · exact Double.round_of_lt (by omega)
  show max (-2 ^ 63) (min (Double.round k) (2 ^ 63 - 1)) = k
  omega

def Setting.Counted (S : Setting T) (d : World T) : Prop := d.store S.counter = none ∨
    ∃ k, 0 ≤ k ∧ k ≤ 2 ^ 53 ∧ d.store S.counter = some (.number (.ofInt k))

variable {x : Request T} {d d' : World T}

theorem gen_of_number (hpos : 0 ≤ k) (hle : k ≤ 2 ^ 53)
    (h : d.store S.counter = some (.number (.ofInt k))) : S.gen d = k := by
  unfold Setting.gen
  rw [h]
  exact asI64_ofInt hpos hle

theorem Setting.Counted.bounds (h : S.Counted d) : 0 ≤ S.gen d ∧ S.gen d ≤ 2 ^ 53 := by
  rcases h with h | ⟨k, hpos, hle, h⟩
  · unfold Setting.gen
    rw [h]
    decide
  · rw [gen_of_number hpos hle h]
    exact ⟨hpos, hle⟩

theorem Setting.Counted.currentGeneration (h : S.Counted d)
    (hregion : ¬ region.readOnly) : currentGeneration S.model region d.store = S.gen d := by
  unfold ModelCache.currentGeneration Setting.gen
  rw [if_neg hregion]
  show (((d.store S.counter).bind Json.asNumber).map asI64).getD 0 = _
  rcases h with h | ⟨k, -, -, h⟩
  · rw [h]
    rfl
  · rw [h]
    rfl

theorem Setting.Counted.congr (h : S.Counted d) (heq : d'.store S.counter = d.store S.counter) : S.Counted d' := by
  unfold Setting.Counted
  rw [heq]
  exact h

theorem Setting.Counted.increment (h : S.Counted d) (hlt : S.gen d < 2 ^ 53) :
    S.Counted (d.increment S.counter) ∧ S.gen (d.increment S.counter) = S.gen d + 1 ∧
      (d.increment S.counter).since = Function.update d.since (S.gen d + 1) d.clock := by
  obtain ⟨_, -⟩ := h.bounds
  have hstore : (d.increment S.counter).store S.counter = some (.number (.ofInt (S.gen d + 1))) :=
    update_self ..
  refine ⟨.inr ⟨S.gen d + 1, by omega, by omega, hstore⟩, gen_of_number (by omega) (by omega) hstore, ?_⟩
  show Function.update d.since (asI64 (.ofInt (S.gen d + 1))) d.clock = _
  rw [asI64_ofInt (by omega) (by omega)]

/-! ## What the result sets are of -/

def Setting.ReadsRows (S : Setting T) (rows : List Row) (models : List (List Value)) : Prop :=
  rows.mapM S.model.fromRow = .ok models ∨ ∃ encoded, rows.mapM rowToJson = some encoded ∧
      (encoded.mapM fun value => do (S.model.fromRow (← rowFromJson value)).toOption) = some models

def Setting.Answers (S : Setting T) (q : Query) (t : T) (models : List (List Value)) : Prop :=
  ∃ q' : Query, q'.key S.hash S.model = q.key S.hash S.model ∧ q'.sql = q.sql ∧ S.ReadsRows (S.select t q') models

structure Current (S : Setting T) (d : World T) : Prop where
  counted : S.Counted d
  since : ∀ g, d.since g ≤ d.clock
  generation : ∀ {q : Query} {json entry}, d.store (q.key S.hash S.model) = some json →
    Entry.fromJson json = some entry →
    entry.generation ≤ S.gen d ∧ d.since entry.generation ≤ d.readAt (q.key S.hash S.model)
  rows : ∀ {q : Query} {json entry}, d.store (q.key S.hash S.model) = some json → Entry.fromJson json = some entry →
    ∃ (q' : Query) (t : T), q'.key S.hash S.model = q.key S.hash S.model ∧ q'.sql = entry.sql ∧
      d.tableAt (d.readAt (q.key S.hash S.model)) = some t ∧
      (S.select t q').mapM rowToJson = some entry.rows

structure Answered (S : Setting T) (x : Request T) (outcome : Outcome) (d : World T) : Prop where
  rows : ∀ {models asOf}, outcome = .rows models asOf →
    ∃ q t, x.call = .get q ∧ d.tableAt asOf = some t ∧ S.Answers q t models
  wrote : ∀ {asOf}, outcome.wrote = some asOf → asOf ≤ d.clock ∧ (S.region ≠ none → asOf ≤ d.since (S.gen d))

def Reading (S : Setting T) (x : Request T) (d : World T) : Stage T → Prop
  | .counting region q => x.call = .get q ∧ S.region = some region
  | .looking _ q g | .querying _ q g => x.call = .get q ∧ 0 ≤ g ∧ g ≤ S.gen d
  | .keeping q entry models asOf => x.call = .get q ∧ entry.sql = q.sql ∧
      0 ≤ entry.generation ∧ entry.generation ≤ S.gen d ∧ d.since entry.generation ≤ asOf ∧
      ∃ t, d.tableAt asOf = some t ∧ (S.select t q).mapM rowToJson = some entry.rows ∧
        (S.select t q).mapM S.model.fromRow = .ok models
  | .getting q => x.call = .get q
  | .forgetting _ outcome wrote => (∃ rows, outcome = .affected rows wrote) ∧ wrote ≤ d.clock
  | .bumping outcome => (∀ models asOf, outcome ≠ .rows models asOf) ∧
      ∀ asOf, outcome.wrote = some asOf → asOf ≤ d.clock
  | .clearing slot => slot ≠ S.counter
  | .finished (.ok outcome) => Answered S x outcome d
  | _ => True

structure Grown (S : Setting T) (d d' : World T) : Prop extends d.Later d' where
  gen : S.gen d ≤ S.gen d'
  since : ∀ g ≤ S.gen d, d'.since g = d.since g
  current : d.since (S.gen d) ≤ d'.since (S.gen d')

theorem Grown.of_later (h : d.Later d') (hstore : d'.store S.counter = d.store S.counter)
    (hsince : d'.since = d.since) : Grown S d d' := by
  have hgen : S.gen d' = S.gen d := by
    unfold Setting.gen
    rw [hstore]
  refine ⟨h, Int.le_of_eq hgen.symm, fun g _ => by rw [hsince], ?_⟩
  rw [hgen, hsince]

theorem Grown.increment (h : Current S d) (hlt : S.gen d < 2 ^ 53) : Grown S d (d.increment S.counter) := by
  obtain ⟨-, hgen, hsince⟩ := h.counted.increment hlt
  refine ⟨d.later_increment _, by omega, fun g hg => ?_, ?_⟩
  · rw [hsince, update_of_ne (by omega)]
  · rw [hgen, hsince, update_self]
    exact h.since _

theorem Answered.mono (h : Answered S x outcome d) (hgrown : Grown S d d') : Answered S x outcome d' where
  rows heq := by
    obtain ⟨q, t, hcall, ht, hanswers⟩ := h.rows heq
    exact ⟨q, t, hcall, hgrown.tableAt ht, hanswers⟩
  wrote heq := by
    obtain ⟨hclock, hsince⟩ := h.wrote heq
    exact ⟨hclock.trans hgrown.clock, fun hregion => (hsince hregion).trans hgrown.current⟩

theorem Reading.mono (h : Reading S x d s) (hgrown : Grown S d d') : Reading S x d' s := by
  cases s with
  | looking | querying => exact ⟨h.1, h.2.1, h.2.2.trans hgrown.gen⟩
  | keeping =>
    obtain ⟨hcall, hsql, hpos, hle, hsince, t, ht, hrows⟩ := h
    refine ⟨hcall, hsql, hpos, hle.trans hgrown.gen, ?_, t, hgrown.tableAt ht, hrows⟩
    rw [hgrown.since _ hle]
    exact hsince
  | forgetting => exact ⟨h.1, h.2.trans hgrown.clock⟩
  | bumping => exact ⟨h.1, fun asOf heq => (h.2 asOf heq).trans hgrown.clock⟩
  | finished r =>
    cases r with
    | error => trivial
    | ok => exact Answered.mono h hgrown
  | _ => exact h

theorem Answered.other (hrows : ∀ models asOf, outcome ≠ .rows models asOf)
    (hwrote : outcome.wrote = none) : Answered S x outcome d where
  rows heq := absurd heq (hrows _ _)
  wrote heq := by
    rw [hwrote] at heq
    cases heq

theorem Answered.of_answers (hcall : x.call = .get q) (ht : d.tableAt asOf = some t) (h : S.Answers q t models) :
    Answered S x (.rows models asOf) d where
  rows heq := by
    cases heq
    exact ⟨q, t, hcall, ht, h⟩
  wrote heq := by cases heq

theorem Reading.invalidating (hrw : S.ReadWrite) (hrows : ∀ models asOf, outcome ≠ .rows models asOf)
    (hwrote : ∀ asOf, outcome.wrote = some asOf → asOf ≤ d.clock) : Reading S x d (S.invalidating outcome) := by
  unfold Setting.invalidating
  split
  · rename_i hregion
    exact ⟨fun h => absurd h (hrows _ _), fun h => ⟨hwrote _ h, fun hne => absurd hregion hne⟩⟩
  · rename_i region hregion
    rw [if_neg (hrw region hregion)]
    exact ⟨hrows, hwrote⟩

theorem Reading.keepingRows (hd : Current S d) (hcall : x.call = .get q) (hpos : 0 ≤ g) (hle : g ≤ S.gen d) :
    Reading S x d (S.keepingRows region q g (S.select d.table q) d.clock) := by
  unfold Setting.keepingRows
  split
  · trivial
  · rename_i models hmodels
    have hanswers : Answered S x (.rows models d.clock) d :=
      .of_answers hcall d.tableAt_clock ⟨q, rfl, rfl, .inl hmodels⟩
    split
    · exact hanswers
    · split
      · exact hanswers
      · rename_i encoded hencoded
        exact ⟨hcall, rfl, hpos, hle, hd.since g, d.table, d.tableAt_clock, hencoded, hmodels⟩

theorem Reading.keepingEntity (key : Value) (row : Row) (asOf : Nat) :
    Reading S x d (S.keepingEntity key row asOf) := by
  unfold Setting.keepingEntity
  split
  · trivial
  · split
    · trivial
    · exact .other nofun rfl

theorem Reading.start (hrw : S.ReadWrite) (hx : x.call.expires ≠ some S.counter) (d : World T) :
    Reading S x d (S.start x) := by
  unfold Setting.start
  split <;> rename_i hcall
  · split <;> trivial
  · split
    · exact hcall
    · rename_i region hregion
      obtain ⟨hregion, -⟩ := filter_eq_some_iff.mp hregion
      rw [if_neg (hrw region hregion)]
      exact ⟨hcall, hregion⟩
  · trivial
  · trivial
  · trivial
  · exact entity_ne_generation _ _ _
  · exact .invalidating hrw nofun nofun
  · rename_i slot
    rw [hcall] at hx
    exact fun heq => hx (congrArg some heq)

theorem Current.of_hit (h : Current S d) (hhit : rowsOf S.hash S.model q g d.store = some models) :
    d.since g ≤ d.readAt (q.key S.hash S.model) ∧
      ∃ t, d.tableAt (d.readAt (q.key S.hash S.model)) = some t ∧ S.Answers q t models := by
  obtain ⟨json, hjson, hfound⟩ := bind_eq_some_iff.mp hhit
  obtain ⟨entry, hentry, hmodels⟩ := bind_eq_some_iff.mp hfound
  split at hmodels
  · rename_i hsame
    obtain ⟨hsql, rfl⟩ := hsame
    obtain ⟨q', t, hkey, hsql', ht, hrows⟩ := h.rows hjson hentry
    exact ⟨(h.generation hjson hentry).2, t, ht, q', hkey, hsql'.trans hsql, .inr ⟨_, hrows, hmodels⟩⟩
  · cases hmodels

/-! ## Kept by every step -/

theorem Current.empty (table : T) : Current S { table := table } where
  counted := .inl rfl
  since _ := zero_le _
  generation h := by cases h
  rows h := by cases h

theorem Setting.query_ne_counter (S : Setting T) (q : Query) : q.key S.hash S.model ≠ S.counter :=
  query_ne_generation _ _ _

theorem Current.write (h : Current S d) (table : T) : Current S (d.write table) where
  counted := h.counted
  since g := (h.since g).trans (d.later_write table).clock
  generation := h.generation
  rows hjson hentry := by
    obtain ⟨q', t, hkey, hsql, ht, hrows⟩ := h.rows hjson hentry
    exact ⟨q', t, hkey, hsql, d.tableAt_write table ht, hrows⟩

theorem Current.putEntity (h : Current S d) (key : Value) (value : Json Whole) (asOf : Nat) :
    Current S (d.put (S.slot key) value asOf) := by
  have hcounter := d.store_put_of_ne value asOf (entity_ne_generation S.model.table S.model.table (jsonText key)).symm
  refine ⟨h.counted.congr hcounter, h.since, fun {q} _ _ hjson hentry => ?_, fun {q} _ _ hjson hentry => ?_⟩
  · exact h.generation hjson hentry
  · exact h.rows hjson hentry

theorem Current.putRows (h : Current S d) {entry : Entry}
    (hsql : entry.sql = q.sql) (hpos : 0 ≤ entry.generation) (hle : entry.generation ≤ S.gen d)
    (hsince : d.since entry.generation ≤ asOf) (ht : d.tableAt asOf = some t)
    (hrows : (S.select t q).mapM rowToJson = some entry.rows) :
    Current S (d.put (q.key S.hash S.model) entry.toJson asOf) := by
  have hcounter := d.store_put_of_ne entry.toJson asOf (S.query_ne_counter q).symm
  have hgen : S.gen (d.put (q.key S.hash S.model) entry.toJson asOf) = S.gen d := congrArg counterValue hcounter
  have hread : Entry.fromJson entry.toJson = some entry := by
    rw [Entry.fromJson_toJson, asI64_ofInt hpos (hle.trans h.counted.bounds.2)]
  refine ⟨h.counted.congr hcounter, h.since, fun {q'} _ _ hjson hentry => ?_, fun {q'} _ _ hjson hentry => ?_⟩
  · rw [hgen, World.readAt_put]
    split
    · rename_i hkey
      rw [hkey] at hjson
      cases (update_self ..).symm.trans hjson
      rw [hread] at hentry
      cases hentry
      exact ⟨hle, hsince⟩
    · rename_i hkey
      rw [d.store_put_of_ne _ asOf hkey] at hjson
      exact h.generation hjson hentry
  · rw [World.readAt_put]
    split
    · rename_i hkey
      rw [hkey] at hjson ⊢
      cases (update_self ..).symm.trans hjson
      rw [hread] at hentry
      cases hentry
      exact ⟨q, t, rfl, hsql.symm, ht, hrows⟩
    · rename_i hkey
      rw [d.store_put_of_ne _ asOf hkey] at hjson
      exact h.rows hjson hentry

theorem Current.forget (h : Current S d) {slot : String} (hslot : slot ≠ S.counter) (wrote : Nat) :
    Current S (d.forget slot wrote) := by
  have hcounter := d.store_forget_of_ne wrote hslot.symm
  have hgen : S.gen (d.forget slot wrote) = S.gen d := congrArg counterValue hcounter
  -- what is still there was there before
  have hstore : ∀ {other json}, (d.forget slot wrote).store other = some json → d.store other = some json := by
    intro other json hjson
    by_cases hother : other = slot
    · rw [hother] at hjson
      cases (update_self ..).symm.trans hjson
    · rw [d.store_forget_of_ne wrote hother] at hjson
      exact hjson
  refine ⟨h.counted.congr hcounter, h.since, fun hjson hentry => ?_, fun hjson hentry => ?_⟩
  · rw [hgen]
    exact h.generation (hstore hjson) hentry
  · exact h.rows (hstore hjson) hentry

theorem Current.increment (h : Current S d) (hlt : S.gen d < 2 ^ 53) : Current S (d.increment S.counter) := by
  obtain ⟨hcounted, hgen, hsince⟩ := h.counted.increment hlt
  refine ⟨hcounted, fun g => ?_, fun {q} _ entry hjson hentry => ?_, fun {q} _ _ hjson hentry => ?_⟩
  · rw [hsince, update_apply]
    split
    · exact le_refl _
    · exact h.since g
  · obtain ⟨_, hread⟩ := h.generation hjson hentry
    rw [hgen, hsince, update_of_ne (by omega)]
    exact ⟨by omega, hread⟩
  · exact h.rows hjson hentry

theorem Current.grown (h : Current S d)
    (hs : Reading S x d s) (hcond : Counts S x l d) (hmove : S.Moves s l n d s' n' d') :
    Current S d' ∧ Grown S d d' := by
  cases hmove with
  | failed | hit | miss | absent | selected | found | counted | rowsHit | rowsMiss | queried | got =>
    exact ⟨h, .of_later d.later_refl rfl rfl⟩
  | @stored key json asOf =>
    refine ⟨h.putEntity .., .of_later (d.later_put ..) ?_ rfl⟩
    exact d.store_put_of_ne json asOf (entity_ne_generation _ _ _).symm
  | @kept q entry models asOf =>
    obtain ⟨-, hsql, hpos, hle, hsince, _, ht, hrows, -⟩ := hs
    refine ⟨h.putRows hsql hpos hle hsince ht hrows, .of_later (d.later_put ..) ?_ rfl⟩
    exact d.store_put_of_ne _ asOf (S.query_ne_counter q).symm
  | notAdopted | inserted | wrote => exact ⟨h.write _, .of_later (d.later_write _) rfl rfl⟩
  | @forgot key outcome wrote =>
    have hslot : S.slot key ≠ S.counter := entity_ne_generation _ _ _
    exact ⟨h.forget hslot _, .of_later (d.later_forget ..) (d.store_forget_of_ne wrote hslot.symm) rfl⟩
  | bumped => exact ⟨h.increment hcond, .increment h hcond⟩
  | emptied =>
    exact ⟨h.forget hs _, .of_later (d.later_forget ..) (d.store_forget_of_ne 0 (Ne.symm hs)) rfl⟩

theorem Reading.move (hrw : S.ReadWrite) (h : Current S d) (hs : Reading S x d s) (hcond : Counts S x l d)
    (hmove : S.Moves s l n d s' n' d') : Reading S x d' s' := by
  cases hmove with
  | failed | miss | notAdopted => trivial
  | hit | absent | stored | emptied => exact Answered.other nofun rfl
  | selected => exact .keepingEntity ..
  | @found key =>
    cases S.selectOne d.table key with
    | none => exact Answered.other nofun rfl
    | some row =>
      dsimp only [Setting.hydrated]
      cases S.model.fromRow row with
      | error => trivial
      | ok => exact Answered.other nofun rfl
  | @counted region =>
    obtain ⟨hcall, hregion⟩ := hs
    rw [h.counted.currentGeneration (hrw region hregion)]
    exact ⟨hcall, h.counted.bounds.1, Int.le_refl _⟩
  | @rowsHit region q g models _ _ hhit =>
    obtain ⟨-, t, ht, hanswers⟩ := h.of_hit hhit
    exact Answered.of_answers hs.1 ht hanswers
  | rowsMiss => exact hs
  | queried => exact .keepingRows h hs.1 hs.2.1 hs.2.2
  | kept =>
    obtain ⟨hcall, -, -, -, -, _, ht, -, hmodels⟩ := hs
    exact Answered.of_answers hcall ht ⟨_, rfl, rfl, .inl hmodels⟩
  | @got q =>
    dsimp only [Setting.hydratedRows]
    cases hmodels : (S.select d.table q).mapM S.model.fromRow with
    | error => trivial
    | ok => exact Answered.of_answers hs d.tableAt_clock ⟨q, rfl, rfl, .inl hmodels⟩
  | inserted =>
    refine .invalidating hrw nofun fun asOf heq => ?_
    cases heq
    exact le_of_eq (d.clock_write _).symm
  | wrote => exact ⟨⟨_, rfl⟩, le_of_eq (d.clock_write _).symm⟩
  | forgot =>
    obtain ⟨⟨_, rfl⟩, hwrote⟩ := hs
    refine .invalidating hrw nofun fun asOf heq => ?_
    cases heq
    exact hwrote
  | bumped =>
    refine ⟨fun heq => absurd heq (hs.1 _ _), fun heq => ⟨hs.2 _ heq, fun _ => ?_⟩⟩
    -- the new generation begins with every write made so far
    obtain ⟨-, hgen, hsince⟩ := h.counted.increment hcond
    rw [hgen, hsince, update_self]
    exact hs.2 _ heq

def generations (S : Setting T) (hrw : S.ReadWrite) : Outline (staging S (Counts S)) where
  inv _ := Current S
  Holds x s d := Reading S x d s
  Apart _ _ _ _ := True
  symm _ := trivial
  start hx _ := ⟨.start hrw hx _, fun _ _ => trivial⟩
  move h hs hcond hmove := ⟨(h.grown hs hcond hmove).1, hs.move hrw h hcond hmove⟩
  others h hs ht _ hcond hmove := ⟨ht.mono (h.grown hs hcond hmove).2, trivial⟩

/-! ## Gets after a write -/

/-- Whatever a get begun after the write `wrote` has selected is not older, and its generation began since. -/
def AfterWrite (wrote : Nat) (d : World T) : Stage T → Prop
  | .counting .. | .getting _ | .finished (.error _) => True
  | .looking _ _ g | .querying _ _ g => wrote ≤ d.since g
  | .keeping _ _ _ asOf | .finished (.ok (.rows _ asOf)) => wrote ≤ asOf
  | _ => False

structure Announced (S : Setting T) (wrote : Nat) (d : World T) : Prop where
  clock : wrote ≤ d.clock
  since : S.region ≠ none → wrote ≤ d.since (S.gen d)

variable {wrote : Nat}

theorem Announced.mono (h : Announced S wrote d) (hgrown : Grown S d d') : Announced S wrote d' :=
  ⟨h.clock.trans hgrown.clock, fun hregion => (h.since hregion).trans hgrown.current⟩

theorem AfterWrite.start (hrw : S.ReadWrite) (hx : x.call = .get q) (d : World T) :
    AfterWrite wrote d (S.start x) := by
  unfold Setting.start
  rw [hx]
  dsimp only
  split
  · trivial
  · rename_i region hregion
    obtain ⟨hregion, -⟩ := filter_eq_some_iff.mp hregion
    rw [if_neg (hrw region hregion)]
    trivial

theorem AfterWrite.keepingRows {rows : List Row}
    (h : wrote ≤ asOf) : AfterWrite wrote d (S.keepingRows region q g rows asOf) := by
  unfold Setting.keepingRows
  split
  · trivial
  · split
    · exact h
    · split <;> exact h

theorem AfterWrite.mono (h : AfterWrite wrote d s) (hs : Reading S x d s)
    (hgrown : Grown S d d') : AfterWrite wrote d' s := by
  cases s with
  | looking region q g | querying region q g =>
    show wrote ≤ d'.since g
    rw [hgrown.since g hs.2.2]
    exact h
  | finished r =>
    cases r with
    | error => trivial
    | ok outcome => cases outcome <;> exact h
  | _ => exact h

theorem AfterWrite.move (hrw : S.ReadWrite) (hd : Current S d) (hs : Reading S x d s) (hwrote : Announced S wrote d)
    (h : AfterWrite wrote d s) (hmove : S.Moves s l n d s' n' d') : AfterWrite wrote d' s' := by
  cases hmove with
  | failed => trivial
  | @counted region =>
    rw [hd.counted.currentGeneration (hrw region hs.2)]
    exact hwrote.since (by rw [hs.2]; exact nofun)
  | rowsHit hhit => exact le_trans h (hd.of_hit hhit).1
  | rowsMiss | kept => exact h
  | queried => exact .keepingRows hwrote.clock
  | @got q =>
    dsimp only [Setting.hydratedRows]
    cases (S.select d.table q).mapM S.model.fromRow with
    | error => trivial
    | ok => exact hwrote.clock
  | hit | miss | absent | selected | stored | found | notAdopted | inserted | wrote | forgot | bumped
  | emptied => exact h.elim

/-- While the counter counts, a get that begins once a write has returned gives rows no older than that write. -/
theorem rows_not_older (S : Setting T) (hrw : S.ReadWrite) (table : T)
    {c₀ c : Config (Request T) Point (World T) (Write T) (Except String Outcome)}
    (hc₀ : (system S (Counts S)).Reachable { table := table } c₀)
    {i : Nat} {x y : Request T} {outcome : Outcome} {wrote : Nat}
    (hreturned : c₀.calls[i]? = some (x, ret (.ok outcome))) (hwrote : outcome.wrote = some wrote)
    {q : Query} (hy : y.call = .get q)
    (hrun : (system S (Counts S)).Run { c₀ with calls := c₀.calls ++ [(y, (system S (Counts S)).program y)] } c)
    {models : List (List Value)} {asOf : Nat}
    (hrows : c.calls[c₀.calls.length]? = some (y, ret (.ok (.rows models asOf)))) :
    wrote ≤ asOf ∧ ∃ t, c.db.tableAt asOf = some t ∧ S.Answers q t models := by
  obtain ⟨_, ha0, rfl⟩ := (staging S (Counts S)).of_reachable hc₀
  have hfits := (generations S hrw).fits_of_reachable (Current.empty table) ha0
  -- the write has returned, and ended its generation before
  obtain ⟨s, hcall, hrest⟩ := (staging S (Counts S)).of_call hreturned
  obtain rfl := S.finished_of_rest x hrest
  obtain ⟨hclock, hsince⟩ := (hfits.holds hcall).wrote hwrote
  -- the get begins
  have hallowed : (system S (Counts S)).allowed y := by
    show y.call.expires ≠ _
    rw [hy]
    exact nofun
  obtain ⟨s, hrest, ⟨-, hafter⟩, hholds⟩ := hfits.follow_call (generations S hrw) hallowed
    (P := fun s d => Announced S wrote d ∧ AfterWrite wrote d s) hrun hrows
    ⟨⟨hclock, hsince⟩, AfterWrite.start hrw hy _⟩
    ⟨fun hd hs h hcond hmove => ⟨h.1.mono (hd.grown hs hcond hmove).2, h.2.move hrw hd hs h.1 hmove⟩,
      fun hd hs h ht hcond hmove => ⟨h.1.mono (hd.grown ht hcond hmove).2, h.2.mono hs (hd.grown ht hcond hmove).2⟩⟩
  obtain rfl := S.finished_of_rest y hrest
  obtain ⟨_, t, hq, ht, hanswers⟩ := hholds.rows rfl
  cases hy.symm.trans hq
  exact ⟨hafter, t, ht, hanswers⟩

/-! ## Runs -/

def getter : Request (Option String) := { call := .get { sql := "select * from notes", bindings := [] } }

def inserter : Request (Option String) := { call := .insert fun _ => (some "new", .ok ()) }

def invalidator : Request (Option String) := { call := .invalidateTable }

theorem rows_not_older_of_insert : ∃ c₀ c, (system board (Counts board)).Reachable { table := none } c₀ ∧
      c₀.calls[0]? = some (inserter, ret (.ok (.inserted 1))) ∧
      (system board (Counts board)).Run
        { c₀ with calls := c₀.calls ++ [(getter, (system board (Counts board)).program getter)] } c ∧
      c.calls[c₀.calls.length]? = some (getter, ret (.ok (.rows [[.text "n1", .text "new"]] 1))) ∧
      1 ≤ 1 ∧ ∃ t, c.db.tableAt 1 = some t ∧ board.Answers
        { sql := "select * from notes", bindings := [] } t [[.text "n1", .text "new"]] := by
  obtain ⟨c₀, c, hc₀, hreturned, hrun, hrows⟩ := (system board (Counts board)).play_after
    [.call inserter, .advance 0, .advance 0] [.advance 1, .advance 1, .advance 1, .advance 1]
    { next := 0, db := { table := none }, calls := [] } 0 inserter getter (.ok (.inserted 1))
    (.ok (.rows [[.text "n1", .text "new"]] 1)) rfl
  have hrw : board.ReadWrite := by
    intro region hregion
    cases hregion
    decide
  exact ⟨c₀, c, hc₀, hreturned, hrun, hrows, rows_not_older board hrw none hc₀ hreturned rfl rfl hrun hrows⟩

def invalidated (n : Nat) : World (Option String) where
  table := some "old"
  store := Store.put (fun _ => none) board.counter (.number (.ofInt n))

theorem increment_invalidated (hn : n ≤ 2 ^ 53) : (invalidated n).increment board.counter = invalidated (n + 1) := by
  have hvalue : counterValue ((invalidated n).store board.counter) = n := by
    exact asI64_ofInt (by omega) (by omega)
  have hstore : (invalidated n).store.put board.counter (.number (.ofInt (n + 1))) =
      (invalidated (n + 1)).store := update_idem ..
  unfold World.increment
  rw [hvalue]
  dsimp only
  rw [hstore]
  exact congrArg _ (update_eq_self ..)

theorem run_invalidator (d : World (Option String))
    (calls : List (Request (Option String) × Prog Point (World (Option String))
      (Write (Option String)) (Except String Outcome))) :
    (system board fun _ _ _ => True).Run { next := 0, db := d, calls := calls }
      { next := 0, db := d.increment board.counter
        calls := calls ++ [(invalidator, ret (.ok .done))] } := by
  have hplay : (system board fun _ _ _ => True).play [.call invalidator, .advance 0]
      { next := 0, db := d, calls := [] } =
      some { next := 0, db := d.increment board.counter
             calls := [(invalidator, ret (.ok .done))] } := rfl
  have hrun := ((system board fun _ _ _ => True).play_run hplay).beside calls
  rw [append_nil] at hrun
  exact hrun

theorem invalidated_reachable (hn : n ≤ 2 ^ 53) :
    ∃ calls, (system board fun _ _ _ => True).Reachable { table := some "old" }
      { next := 0, db := invalidated (n + 1), calls := calls } := by
  induction n with
  | zero =>
    have hfirst : World.increment { table := some "old" } board.counter = invalidated 1 := by
      exact congrArg _ (update_eq_self ..)
    rw [← hfirst]
    exact ⟨_, run_invalidator _ []⟩
  | succ n ih =>
    obtain ⟨calls, hcalls⟩ := ih (by omega)
    rw [← increment_invalidated (by omega)]
    exact ⟨_, hcalls.trans (run_invalidator _ calls)⟩

/-- After 2^53 invalidations a get keeps its rows, an insert invalidates them, and the next get is told the old
    rows. -/
theorem rows_older : ∃ c₀ c, (system board fun _ _ _ => True).Reachable { table := some "old" } c₀ ∧
      (∃ i : Nat, c₀.calls[i]? = some (inserter, ret (.ok (.inserted 1)))) ∧
      (system board fun _ _ _ => True).Run { c₀ with calls := c₀.calls ++
          [(getter, (system board fun _ _ _ => True).program getter)] } c ∧
      c.calls[c₀.calls.length]? = some (getter, ret (.ok (.rows [[.text "n1", .text "old"]] 0))) := by
  obtain ⟨calls, hcalls⟩ := invalidated_reachable (n := 2 ^ 53 - 1) (by decide)
  obtain ⟨c₀, c, hrun0, hreturned, hrun, hrows⟩ := (system board fun _ _ _ => True).play_after
    [.call getter, .advance 0, .advance 0, .advance 0, .advance 0,
     .call inserter, .advance 1, .advance 1] [.advance 2, .advance 2]
    { next := 0, db := invalidated (2 ^ 53), calls := [] } 1 inserter getter (.ok (.inserted 1))
    (.ok (.rows [[.text "n1", .text "old"]] 0)) rfl
  -- the same beside the calls that have invalidated the table
  have hrun0 := hrun0.beside calls
  have hrun := hrun.beside calls
  rw [append_nil] at hrun0
  refine ⟨{ c₀ with calls := calls ++ c₀.calls }, { c with calls := calls ++ c.calls },
    hcalls.trans hrun0, ⟨calls.length + 1, ?_⟩, ?_, ?_⟩
  · rw [getElem?_append_right (Nat.le_add_right ..), Nat.add_sub_cancel_left, hreturned]
  · rw [append_assoc]
    exact hrun
  · rw [length_append, getElem?_append_right (Nat.le_add_right ..), Nat.add_sub_cancel_left, hrows]

end Rustlavel.ModelCache
