/-
  The text of a statement is its outline with the placeholders filled in from left to right, and the parameters
  are the values in the order they are met (`statement_agrees`).
-/

import Rustlavel.Db.Outline

namespace Rustlavel.Db

open Template Traverse List

/-! ## Text and outline -/

section

variable {D : Dialect} {N : List Nat} {n m m' : Nat} {s t : String} {ps qs : Parts D} (k : Keyword)

/-- The text of an outline with `m` holes, after `n` parameters. -/
structure Fills (N : List Nat) (n m : Nat) (s : String) (ps : Parts D) : Prop where
  text : ps.text n = s
  holes : holes ps = m
  numbers : ∀ k i, .fixed (.number k i) ∈ ps → i ∈ N

def Reads (N : List Nat) (s : String) (ps : Parts D) : Prop := ∀ n, Fills N n 0 s ps

theorem Fills.append (h : Fills N n m s ps) (h' : Fills N (n + m) m' t qs) :
    Fills N n (m + m') (s ++ t) (ps ++ qs) where
  text := by rw [Parts.text, fill_append, h.holes, ← h.text, ← h'.text]; rfl
  holes := by rw [holes_append, h.holes, h'.holes]
  numbers := fun k i hi => (mem_append.mp hi).elim (h.numbers k i) (h'.numbers k i)

theorem Fills.reads (h : Fills N n m s ps) (h' : Reads N t qs) : Fills N n m (s ++ t) (ps ++ qs) := h.append (h' _)

theorem Reads.fills (h : Reads N s ps) (h' : Fills N n m t qs) : Fills N n m (s ++ t) (ps ++ qs) := by
  have happend := (h n).append h'
  rwa [Nat.zero_add] at happend

theorem Reads.append (h : Reads N s ps) (h' : Reads N t qs) : Reads N (s ++ t) (ps ++ qs) := fun n => (h n).reads h'

theorem reads_nil : Reads N "" ([] : Parts D) := fun _ => ⟨rfl, rfl, nofun⟩

theorem reads_piece (p : Piece D) (hp : ∀ k i, p = .number k i → i ∈ N) : Reads N p.text [.fixed p] := by
  refine fun _ => ⟨String.append_empty, rfl, fun k i hi => ?_⟩
  have hpiece := mem_singleton.mp hi
  cases hpiece
  exact hp k i rfl

theorem reads_word : Reads N k.text [word D k] := reads_piece (.keyword k) nofun

theorem fills_hole (n : Nat) : Fills N n 1 (D.placeholder (n + 1)) ([.hole] : Parts D) :=
  ⟨String.append_empty, rfl, fun _ _ hi => nomatch mem_singleton.mp hi⟩

theorem reads_ite (b : Bool) : Reads N (if b then k.text else "") (if b then [word D k] else []) := by
  cases b with
  | false => exact reads_nil
  | true => exact reads_word k

theorem reads_join (kind : JoinKind) : Reads N kind.asSql [word D kind.keyword] := by
  cases kind with
  | inner => exact reads_word .innerJoin
  | left => exact reads_word .leftJoin

theorem reads_direction (direction : Direction) : Reads N direction.asSql [word D direction.keyword] := by
  cases direction with
  | asc => exact reads_word .ascending
  | desc => exact reads_word .descending

variable {ss : List String} {pss : List (Parts D)} {params values : List Value} {r : String × List Value}

theorem reads_joined (h : List.Forall₂ (Reads N) ss pss) : Reads N (k.text.intercalate ss) (joined D k pss) := by
  induction h with
  | nil => exact reads_nil
  | @cons s ps ss pss hs hss ih =>
    cases hss with
    | nil =>
      rw [String.intercalate_singleton, joined, intercalate_singleton]
      exact hs
    | cons =>
      rw [String.intercalate_cons_cons, joined, intercalate_cons_cons]
      exact (hs.append (reads_word k)).append ih

theorem reads_flatten (h : List.Forall₂ (Reads N) ss pss) : Reads N (String.join ss) pss.flatten := by
  induction h with
  | nil => exact reads_nil
  | cons hs _ ih =>
    rw [String.join_cons, flatten_cons]
    exact hs.append ih

/-- Outlines with one hole each, after `n` parameters. -/
inductive Each (N : List Nat) : Nat → List String → List (Parts D) → Prop where
  | nil {n : Nat} : Each N n [] []
  | cons {n : Nat} {s : String} {ps : Parts D} {ss : List String} {pss : List (Parts D)}
      (h : Fills N n 1 s ps) (hs : Each N (n + 1) ss pss) : Each N n (s :: ss) (ps :: pss)

theorem Each.joined (k : Keyword) (h : Each N n ss pss) :
    Fills N n ss.length (k.text.intercalate ss) (joined D k pss) := by
  induction h with
  | nil => exact reads_nil _
  | @cons n s ps ss pss hs hss ih =>
    cases hss with
    | nil =>
      rw [String.intercalate_singleton, Db.joined, intercalate_singleton]
      exact hs
    | cons =>
      rw [String.intercalate_cons_cons, Db.joined, intercalate_cons_cons, length_cons, Nat.add_comm]
      exact (hs.reads (reads_word k)).append ih

/-! ## Bound values -/

/-- What is rendered after some parameters have been bound: the text of the outline, and
    the values bound in addition. -/
structure Bound (N : List Nat) (params values : List Value) (r : String × List Value) (ps : Parts D) : Prop where
  fills : Fills N params.length values.length r.1 ps
  params : r.2 = params ++ values

theorem Bound.before (h : Bound N params values r qs)
    (hs : Reads N s ps) : Bound N params values (s ++ r.1, r.2) (ps ++ qs) :=
  ⟨hs.fills h.fills, h.params⟩

theorem Bound.after (h : Bound N params values r ps)
    (ht : Reads N t qs) : Bound N params values (r.1 ++ t, r.2) (ps ++ qs) :=
  ⟨h.fills.reads ht, h.params⟩

theorem Reads.bound (h : Reads N s ps) (params : List Value) : Bound N params [] (s, params) ps :=
  ⟨h _, (append_nil _).symm⟩

theorem Bound.append {values' : List Value} {r' : String × List Value}
    (h : Bound N params values r ps) (h' : Bound N r.2 values' r' qs) :
    Bound N params (values ++ values') (r.1 ++ r'.1, r'.2) (ps ++ qs) := by
  obtain ⟨hfills, hparams⟩ := h'
  rw [h.params] at hfills hparams
  rw [length_append] at hfills
  refine ⟨?_, by rw [hparams, append_assoc]⟩
  rw [length_append]
  exact h.fills.append hfills

/-! ## Names and columns -/

variable (N)

theorem quoteIdentifier_agrees (name : String) : Agree (Reads N) (quoteIdentifier D name) (identifierParts D name) := by
  unfold identifierParts
  split
  · rename_i e h
    have hquote : quoteIdentifier D name = .error e := by
      rw [quoteIdentifier, h]
      rfl
    rw [hquote]
    rfl
  · rename_i h
    have hquote : quoteIdentifier D name = .ok (D.quote name) := by
      rw [quoteIdentifier, h]
      rfl
    rw [hquote]
    exact reads_piece (.name ⟨name, isIdentifier_of_ok D h⟩) nofun

theorem checkOperator_agrees (operator : String) :
    Agree (fun _ => Reads N (operator ++ " ")) (checkOperator operator) (operatorParts D operator) := by
  unfold operatorParts
  split
  · rename_i e h
    exact (congrArg (Agree _ · _) h).mpr rfl
  · rename_i h
    have hreads := reads_piece (D := D) (N := N) (.operator ⟨operator, allowed_of_ok h⟩) nofun
    exact (congrArg (Agree (fun _ => Reads N (operator ++ " ")) · (.ok [_])) h).mpr hreads

theorem quoteQualified_agrees (name : String) : Agree (Reads N) (quoteQualified D name) (qualifiedParts D name) :=
  (Agree.mapM (quoteIdentifier_agrees N) _).bind fun _ _ h => reads_joined .dot h

theorem renderInner_agrees (inner : String) : Agree (Reads N) (renderInner D inner) (innerParts D inner) := by
  unfold renderInner innerParts
  split
  · exact reads_word .star
  · exact quoteQualified_agrees N inner

theorem columnRef_agrees (column : String) : Agree (Reads N) (columnRef D column) (columnParts D column) := by
  unfold columnRef columnParts
  by_cases hstar : column = "*"
  · rw [if_pos hstar, if_pos hstar]
    exact reads_word .star
  rw [if_neg hstar, if_neg hstar]
  cases dropStart "count(*) as " column with
  | some rest =>
    refine (quoteIdentifier_agrees N rest).bind fun s ps h => ?_
    exact (reads_word .countAs).append h
  | none =>
    cases aggregateOf column with
    | some found =>
      obtain ⟨a, inner⟩ := found
      refine (renderInner_agrees N inner).bind fun s ps h => ?_
      exact (((reads_word (.aggregate a)).append (reads_word .openParen)).append h).append (reads_word .closeParen)
    | none => exact quoteQualified_agrees N column

/-! ## Conditions -/

theorem bindAll_each (values params : List Value) :
    Each (D := D) N params.length (bindAll D values params).1 (List.replicate values.length [.hole]) ∧
      (bindAll D values params).2 = params ++ values := by
  induction values generalizing params with
  | nil => exact ⟨.nil, (append_nil _).symm⟩
  | cons value values ih =>
    obtain ⟨heach, hparams⟩ := ih (params ++ [value])
    rw [length_append] at heach
    refine ⟨.cons (fills_hole _) heach, ?_⟩
    rw [bindAll, hparams, append_assoc]
    rfl

theorem length_bindAll (values params : List Value) : (bindAll D values params).1.length = values.length := by
  induction values generalizing params with
  | nil => rfl
  | cons value values ih => exact congrArg (· + 1) (ih _)

theorem bindAll_bound (values params : List Value) :
    Bound (D := D) N params values (", ".intercalate (bindAll D values params).1, (bindAll D values params).2)
      (joined D .comma (List.replicate values.length [.hole])) := by
  obtain ⟨heach, hparams⟩ := bindAll_each (D := D) N values params
  have hslots := heach.joined .comma
  rw [length_bindAll] at hslots
  exact ⟨hslots, hparams⟩

theorem isOr_shape (c : Condition) : c.shape.isOr = c.isOr := by
  cases c <;> rfl

mutual

theorem renderCondition_agrees (c : Condition) (params : List Value) :
    Agree (Bound N params c.values) (renderCondition D c params) (conditionParts D c.shape) := by
  cases c with
  | comparison column operator =>
    rw [renderCondition, Condition.shape, conditionParts]
    refine (checkOperator_agrees N operator).bind fun _ op hop => ?_
    refine (columnRef_agrees N column).bind fun s ps h => ?_
    have hfills := ((h.append (reads_word .blank)).append hop).fills (fills_hole params.length)
    rw [← String.append_assoc] at hfills
    exact ⟨hfills, rfl⟩
  | inList column values negated =>
    rw [renderCondition, Condition.shape, conditionParts]
    cases values with
    | nil =>
      cases negated with
      | false => exact (reads_word .falseWord).bound params
      | true => exact (reads_word .trueWord).bound params
    | cons value values =>
      refine (columnRef_agrees N column).bind fun s ps h => ?_
      have hbefore := ((h.append (reads_word .blank)).append (reads_ite .notWord negated)).append (reads_word .inOpen)
      exact ((bindAll_bound N (value :: values) params).before hbefore).after (reads_word .closeParen)
  | null column negated =>
    rw [renderCondition, Condition.shape, conditionParts]
    refine (columnRef_agrees N column).bind fun s ps h => ?_
    have hreads := ((h.append (reads_word .isWord)).append (reads_ite .notWord negated)).append (reads_word .nullWord)
    exact hreads.bound params
  | between column =>
    rw [renderCondition, Condition.shape, conditionParts]
    refine (columnRef_agrees N column).bind fun s ps h => ?_
    have hlow := (h.append (reads_word .between)).fills (fills_hole params.length)
    exact ⟨(hlow.reads (reads_word .andAlso)).append (fills_hole _), rfl⟩
  | group conditions =>
    rw [renderCondition, Condition.shape, conditionParts]
    refine (renderConditions_agrees true conditions params).bind fun r ps h => ?_
    exact (h.before (reads_word .openParen)).after (reads_word .closeParen)

theorem renderConditions_agrees (first : Bool) (cs : List Condition) (params : List Value) :
    Agree (Bound N params (valuesOf cs)) (renderConditions D first cs params)
      (conditionsParts D first (shapes cs)) := by
  cases cs with
  | nil =>
    rw [renderConditions, shapes, conditionsParts]
    exact reads_nil.bound params
  | cons c cs =>
    rw [renderConditions, shapes, conditionsParts]
    refine (renderCondition_agrees c params).bind fun r ps h => ?_
    refine (renderConditions_agrees false cs r.2).bind fun r' qs h' => ?_
    have hjoint : Reads N (if first then "" else if c.isOr then " or " else " and ")
        (if first then [] else [word D (if c.shape.isOr then .orElse else .andAlso)]) := by
      rw [isOr_shape]
      cases first with
      | true => exact reads_nil
      | false =>
        cases c.isOr with
        | true => exact reads_word .orElse
        | false => exact reads_word .andAlso
    exact (h.before hjoint).append h'

end

theorem isEmpty_shapes (cs : List Condition) : (shapes cs).isEmpty = cs.isEmpty := by
  cases cs with
  | nil | cons =>
    rfl

/-! ## Statements -/

namespace QueryBuilder

variable (q : QueryBuilder)

theorem renderWhere_agrees (params : List Value) :
    Agree (Bound N params (valuesOf q.conditions)) (q.renderWhere D params) (whereParts D (shapes q.conditions)) := by
  refine (renderConditions_agrees N true q.conditions params).bind fun r ps h => ?_
  exact h.before (reads_word .whereAll)

theorem renderFilters_agrees :
    Agree (Bound N [] (valuesOf q.conditions)) (q.renderFilters D) (filterParts D (shapes q.conditions)) := by
  unfold renderFilters filterParts
  rw [isEmpty_shapes]
  by_cases hempty : q.conditions.isEmpty = true
  · rw [if_pos hempty, if_pos hempty, List.isEmpty_iff.mp hempty]
    exact reads_nil.bound []
  · rw [if_neg hempty, if_neg hempty]
    exact renderWhere_agrees N q []

theorem renderColumns_agrees : Agree (Reads N) (q.renderColumns D) (columnsParts D q.columns) := by
  unfold renderColumns columnsParts
  split
  · exact reads_word .star
  · refine (Agree.mapM (columnRef_agrees N) _).bind fun ss pss h => ?_
    exact reads_joined .comma h

theorem renderJoin_agrees (join : Join) : Agree (Reads N) (renderJoin D join) (joinParts D join) := by
  refine (checkOperator_agrees N join.operator).bind fun _ op hop => ?_
  refine (quoteQualified_agrees N join.table).bind fun table tableParts htable => ?_
  refine (columnRef_agrees N join.left).bind fun left leftParts hleft => ?_
  refine (columnRef_agrees N join.right).bind fun right rightParts hright => ?_
  have hkind := ((reads_word (D := D) (N := N) .blank).append (reads_join join.kind)).append (reads_word .blank)
  have hcolumns := (((hkind.append htable).append (reads_word .onColumns)).append hleft).append (reads_word .blank)
  have hreads := (hcolumns.append hop).append hright
  rw [← String.append_assoc] at hreads
  exact hreads

theorem renderGroup_agrees : Agree (Reads N) (q.renderGroup D) (groupParts D q.group) := by
  unfold renderGroup groupParts
  split
  · exact reads_nil
  · refine (Agree.mapM (columnRef_agrees N) _).bind fun ss pss h => ?_
    exact (reads_word .groupBy).append (reads_joined .comma h)

theorem renderOrder_agrees : Agree (Reads N) (q.renderOrder D) (orderParts D q.order) := by
  unfold renderOrder orderParts
  split
  · exact reads_nil
  · refine (Agree.mapM (R := Reads N) (fun item => ?_) _).bind fun ss pss h => ?_
    · refine (columnRef_agrees N item.1).bind fun s ps h => ?_
      exact (h.append (reads_word .blank)).append (reads_direction item.2)
    · exact (reads_word .orderBy).append (reads_joined .comma h)

/-! ### Paging -/

section

theorem reads_number {i : Int} (hi : i.toNat ∈ N) : Reads N (k.text ++ i.toNat.repr) [number D k i] :=
  reads_piece (.number k i.toNat) (by rintro _ _ ⟨⟩; exact hi)

theorem reads_paging (limit : Option Int) : (∀ i ∈ limit, i.toNat ∈ N) →
    Reads N (match limit with | some limit => k.text ++ limit.toNat.repr | none => "")
      (match limit with | some limit => [number D k limit] | none => []) := by
  intro hlimit
  cases limit with
  | none => exact reads_nil
  | some limit => exact reads_number N k (hlimit limit rfl)

variable {limit offset : Option Int}

theorem limitOffset_reads (hlimit : ∀ i ∈ limit, i.toNat ∈ N) (hoffset : (offset.getD 0).toNat ∈ N) (ordered : Bool) :
    Reads N (D.limitOffset limit offset ordered) (pagingParts D limit offset ordered) := by
  have hoffset' : ∀ i ∈ offset, i.toNat ∈ N := by
    rintro i rfl
    exact hoffset
  cases D with
  | postgres => exact (reads_paging N .limit limit hlimit).append (reads_paging N .offset offset hoffset')
  | mySql =>
    cases limit with
    | some limit => exact (reads_number N .limit (hlimit _ rfl)).append (reads_paging N .offset offset hoffset')
    | none =>
      cases offset with
      | some => exact reads_number N .allRowsOffset hoffset
      | none => exact reads_nil
  | sqlite =>
    refine (reads_paging N .limit limit hlimit).append ?_
    cases offset with
    | none => exact reads_nil
    | some offset =>
      have hreads := (reads_ite (D := .sqlite) .noLimit limit.isNone).append (reads_number N .offset hoffset)
      rw [← String.append_assoc] at hreads
      exact hreads
  | sqlServer =>
    have horder : Reads N (if ordered then "" else " order by (select null)")
        (if ordered then [] else [word .sqlServer .orderByNull]) := by
      cases ordered with
      | true => exact reads_nil
      | false => exact reads_word .orderByNull
    have hrows := (horder.append (reads_number N .offset hoffset)).append (reads_word .rows)
    simp only [← String.append_assoc] at hrows
    cases limit with
    | none =>
      cases offset with
      | none => exact reads_nil
      | some => exact hrows.append reads_nil
    | some =>
      exact hrows.append ((reads_number N .fetchNext (hlimit _ rfl)).append (reads_word .rowsOnly))

end

/-! ### The statements -/

structure Assigned (N : List Nat) (params values : List Value) (r : List String × List Value)
    (pss : List (Parts D)) : Prop where
  each : Each N params.length r.1 pss
  length : r.1.length = values.length
  params : r.2 = params ++ values

theorem renderAssignments_agrees (values : List (String × Value)) (params : List Value) :
    Agree (Assigned N params (values.map (·.2))) (renderAssignments D values params)
      ((values.map (·.1)).mapM (assignmentParts D)) := by
  induction values generalizing params with
  | nil => exact ⟨.nil, rfl, (append_nil _).symm⟩
  | cons item values ih =>
    obtain ⟨column, value⟩ := item
    rw [renderAssignments, map_cons, map_cons, mapM_cons, assignmentParts, bind_assoc]
    refine (quoteIdentifier_agrees N column).bind fun s ps h => ?_
    refine (ih (params ++ [value])).bind fun r pss hr => ?_
    obtain ⟨heach, hlength, hparams⟩ := hr
    rw [length_append] at heach
    refine ⟨.cons ((h.append (reads_word .assign)).fills (fills_hole _)) heach, congrArg (· + 1) hlength, ?_⟩
    rw [hparams, append_assoc]
    rfl

theorem toSql_agrees (hlimit : ∀ i ∈ q.limit, i.toNat ∈ N) (hoffset : (q.offset.getD 0).toNat ∈ N) :
    Agree (Bound N [] (valuesOf q.conditions)) (q.toSql D) (statementParts D q.shape .select) := by
  refine (renderColumns_agrees N q).bind fun columns columnParts hcolumns => ?_
  refine (quoteQualified_agrees N q.table).bind fun table tableParts htable => ?_
  refine (Agree.mapM (renderJoin_agrees N) q.joins).bind fun joins joinParts hjoins => ?_
  refine (renderFilters_agrees N q).bind fun filtered filterParts hfiltered => ?_
  refine (renderGroup_agrees N q).bind fun group groupParts hgroup => ?_
  refine (renderOrder_agrees N q).bind fun order orderParts horder => ?_
  have hselect := (reads_word (D := D) (N := N) .select).append (reads_ite .distinct q.distinct)
  have hfrom := ((hselect.append hcolumns).append (reads_word .fromTable)).append htable
  have hwhere := hfiltered.before (hfrom.append (reads_flatten hjoins))
  exact ((hwhere.after hgroup).after horder).after (limitOffset_reads N hlimit hoffset _)

theorem toUpdateSql_agrees (values : List (String × Value)) :
    Agree (Bound N [] (values.map (·.2) ++ valuesOf q.conditions)) (q.toUpdateSql D values)
      (statementParts D q.shape (.update (values.map (·.1)))) := by
  unfold toUpdateSql statementParts
  have hvalues : (values.map (·.1)).isEmpty = values.isEmpty := isEmpty_map
  have hshape : q.shape.2.isEmpty = q.conditions.isEmpty := isEmpty_shapes q.conditions
  dsimp only
  rw [hvalues, hshape]
  by_cases hnone : values.isEmpty = true
  · rw [if_pos hnone, if_pos hnone]
    rfl
  rw [if_neg hnone, if_neg hnone]
  refine (renderAssignments_agrees N values []).bind fun r pss hr => ?_
  refine (quoteQualified_agrees N q.table).bind fun table tableParts htable => ?_
  by_cases hempty : q.conditions.isEmpty = true
  · rw [if_pos hempty, if_pos hempty]
    rfl
  rw [if_neg hempty, if_neg hempty]
  refine (renderWhere_agrees N q r.2).bind fun r' ps h => ?_
  have hset := ((reads_word .update).append htable).append (reads_word .setColumns)
  have hassign := hr.each.joined .comma
  rw [hr.length] at hassign
  have hbound : Bound N [] (values.map (·.2)) (_, r.2) _ := ⟨hset.fills hassign, hr.params⟩
  exact hbound.append h

theorem toDeleteSql_agrees (allowAll : Bool) : Agree (Bound N [] (valuesOf q.conditions)) (q.toDeleteSql D allowAll)
      (statementParts D q.shape (.delete allowAll)) := by
  refine (quoteQualified_agrees N q.table).bind fun table tableParts htable => ?_
  have hdelete := (reads_word .deleteFrom).append htable
  have hshape : q.shape.2.isEmpty = q.conditions.isEmpty := isEmpty_shapes q.conditions
  rw [hshape]
  by_cases hempty : q.conditions.isEmpty = true
  · rw [if_pos hempty, if_pos hempty, List.isEmpty_iff.mp hempty]
    cases allowAll with
    | false => rfl
    | true => exact hdelete.bound []
  · rw [if_neg hempty, if_neg hempty]
    refine (renderWhere_agrees N q []).bind fun r ps h => ?_
    exact h.before hdelete

theorem statement_agrees (verb : Verb) :
    Agree (Bound (q.numbers verb) [] (verb.values ++ valuesOf q.conditions)) (q.statement D verb)
      (statementParts D q.shape verb.shape) := by
  cases verb with
  | select =>
    refine toSql_agrees (q.numbers .select) q (fun i hi => ?_) (mem_cons_of_mem _ mem_cons_self)
    rw [numbers, hi]
    exact mem_cons_self ..
  | update values => exact toUpdateSql_agrees [] q values
  | delete allowAll => exact toDeleteSql_agrees [] q allowAll

end QueryBuilder

end

end Rustlavel.Db
