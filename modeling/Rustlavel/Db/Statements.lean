/-
  What a statement gives away of its values: nothing but their number.
-/

import Rustlavel.Db.Rendering

namespace Rustlavel.Db

open Template List String Prod Bool

/-! ## Numbered placeholders -/

def Dialect.style : Dialect → Option Style
  | .postgres => some { sign := '$', letters := [], not_digit := by decide, not_letter := by decide }
  | .sqlServer => some { sign := '@', letters := ['P'], not_digit := by decide, not_letter := by decide }
  | .mySql | .sqlite => none

variable {D : Dialect} {S : Style}

theorem placeholder_of_style (h : D.style = some S) : D.placeholder = S.mark := by
  cases D with
  | postgres | sqlServer =>
    cases h
    rfl
  | mySql | sqlite => cases h

theorem sign_of_style (h : D.style = some S) : S.sign = '$' ∨ S.sign = '@' ∧ S.letters = ['P'] := by
  cases D with
  | postgres =>
    cases h
    exact .inl rfl
  | sqlServer =>
    cases h
    exact .inr ⟨rfl, rfl⟩
  | mySql | sqlite => cases h

/-! ## Pieces without placeholders -/

structure Plain (text : List Char) : Prop where
  dollar : '$' ∉ text
  at_sign : '@' ∉ text
  ne_nil : text ≠ []
  noDigit : Style.NoDigit text

theorem Plain.quiet {text : List Char} (h : Plain text) (hS : D.style = some S) : S.Quiet text where
  silent := by
    apply Style.numbersIn_append_of_not_mem
    rcases sign_of_style hS with hsign | ⟨hsign, -⟩
    · rw [hsign]
      exact h.dollar
    · rw [hsign]
      exact h.at_sign
  ne_nil := h.ne_nil
  noDigit := h.noDigit

theorem Keyword.plain (k : Keyword) : Plain k.text.toList := by
  have htext : '$' ∉ k.text.toList ∧ '@' ∉ k.text.toList ∧ k.text.toList ≠ [] ∧
      k.text.toList.head?.all (fun c => !c.isDigit) = true := by
    cases k with
    | aggregate a => cases a <;> decide
    | _ => decide
  obtain ⟨hdollar, hat, hnil, hdigit⟩ := htext
  refine ⟨hdollar, hat, hnil, fun c hc => ?_⟩
  rw [hc] at hdigit
  have hnot : (!c.isDigit) = true := hdigit
  rwa [not_eq_true'] at hnot

theorem plain_number (k : Keyword) (n : Nat) : Plain (k.text ++ n.repr).toList := by
  have hk := k.plain
  obtain ⟨_, _, htext⟩ := exists_cons_of_ne_nil hk.ne_nil
  rw [toList_append]
  refine ⟨not_mem_append hk.dollar (Style.not_mem_digits (by decide) n),
    not_mem_append hk.at_sign (Style.not_mem_digits (by decide) n),
    append_ne_nil_of_left_ne_nil hk.ne_nil _, ?_⟩
  have hfirst := hk.noDigit
  rw [htext] at hfirst ⊢
  exact hfirst

def Dialect.quotes : Dialect → Char × Char
  | .postgres | .sqlite => ('"', '"')
  | .mySql => ('`', '`')
  | .sqlServer => ('[', ']')

theorem toList_quote (name : String) : (D.quote name).toList = D.quotes.1 :: (name.toList ++ [D.quotes.2]) := by
  cases D <;> simp [Dialect.quote, Dialect.quotes]

theorem Identifier.plain (x : Identifier D) : Plain (D.quote x.name).toList := by
  have hvalid := x.valid
  rw [isIdentifier, and_eq_true, all_eq_true] at hvalid
  have hchars {c : Char} (hc : (c.isAlphanum || c == '_') = false) : c ∉ x.name.toList := fun hmem =>
    false_ne_true (hc.symm.trans (hvalid.2 c hmem))
  rw [toList_quote]
  have hsign {c : Char} (hquotes : c ≠ D.quotes.1 ∧ c ≠ D.quotes.2) (hc : (c.isAlphanum || c == '_') = false) :
      c ∉ D.quotes.1 :: (x.name.toList ++ [D.quotes.2]) := by
    obtain ⟨hfirst, hlast⟩ := hquotes
    refine not_mem_cons_of_ne_of_not_mem hfirst (not_mem_append (hchars hc) ?_)
    exact not_mem_cons_of_ne_of_not_mem hlast not_mem_nil
  have hdollar : '$' ≠ D.quotes.1 ∧ '$' ≠ D.quotes.2 := by cases D <;> decide
  have hat : '@' ≠ D.quotes.1 ∧ '@' ≠ D.quotes.2 := by cases D <;> decide
  refine ⟨hsign hdollar (by decide), hsign hat (by decide), cons_ne_nil _ _, ?_⟩
  rintro c ⟨⟩
  cases D <;> decide

/-! ### Operators -/

theorem plain_of_allowed : ∀ op ∈ allowedOperators, ∀ c ∈ op.toList, c.isDigit = false ∧ c ≠ '$' := by
  have hall : allowedOperators.all (fun op => op.toList.all fun c => decide (c.isDigit = false ∧ c ≠ '$')) = true := by
    decide
  intro op hop c hc
  exact of_decide_eq_true (all_eq_true.mp (all_eq_true.mp hall op hop) c hc)

theorem signs_of_allowed : ∀ op ∈ allowedOperators, '@' ∈ op.toList →
    op.toList = ['@', '>'] ∨ op.toList = ['<', '@'] := by
  decide

theorem toLower_digit {c : Char} (h : c.isDigit = true) : c.toLower = c := by
  simp only [Char.isDigit, and_eq_true, decide_eq_true_eq, UInt32.le_iff_toNat_le] at h
  refine dif_neg fun hupper => ?_
  simp only [UInt32.le_iff_toNat_le, ge_iff_le] at hupper
  have hnine : '9'.val.toNat = 57 := rfl
  have hletter : 'A'.val.toNat = 65 := rfl
  omega

variable (op : Operator)

theorem Operator.mem_allowed {c : Char} (hc : c ∈ op.name.toList) (hlower : c.toLower = c) :
    c ∈ op.name.toLower.toList := by
  rw [toLower, toList_map]
  exact mem_map.mpr ⟨c, hc, hlower⟩

theorem Operator.noDigit : Style.NoDigit (op.name ++ " ").toList := by
  intro c hc
  have hmem := mem_of_mem_head? hc
  rw [toList_append] at hmem
  rcases mem_append.mp hmem with hmem | hmem
  · by_contra hdigit
    have hdigit : c.isDigit = true := of_not_eq_false hdigit
    have hplain := (plain_of_allowed _ op.allowed c (op.mem_allowed hmem (toLower_digit hdigit))).1
    rw [hdigit] at hplain
    cases hplain
  · rw [mem_singleton.mp hmem]
    decide

theorem Operator.at_sign (h : '@' ∈ op.name.toList) : ∃ a b, op.name.toList = [a, b] ∧ b ≠ 'P' := by
  have hlower : ∃ x y, op.name.toLower.toList = [x, y] ∧ y ≠ 'p' := by
    rcases signs_of_allowed _ op.allowed (op.mem_allowed h (by decide)) with hop | hop
    · exact ⟨_, _, hop, by decide⟩
    · exact ⟨_, _, hop, by decide⟩
  obtain ⟨_, _, hxy, hy⟩ := hlower
  rw [toLower, toList_map] at hxy
  obtain ⟨a, _, hname, rfl, htail⟩ := map_eq_cons_iff.mp hxy
  obtain ⟨b, _, rfl, rfl, hrest⟩ := map_eq_cons_iff.mp htail
  rw [map_eq_nil_iff.mp hrest] at hname
  refine ⟨a, b, hname, ?_⟩
  rintro rfl
  exact hy (by decide)

theorem Operator.quiet (hS : D.style = some S) : S.Quiet (op.name ++ " ").toList where
  silent := by
    intro rest
    rw [toList_append]
    rcases sign_of_style hS with hsign | ⟨hsign, hletters⟩
    · apply Style.numbersIn_append_of_not_mem
      rw [hsign]
      refine not_mem_append (fun hmem => ?_) (by decide)
      exact (plain_of_allowed _ op.allowed _ (op.mem_allowed hmem (by decide))).2 rfl
    · by_cases hat : '@' ∈ op.name.toList
      · obtain ⟨a, b, hname, hb⟩ := op.at_sign hat
        have hnumber {c : Char} (hc : c ≠ 'P') (text : List Char) : S.number (c :: text) = none := by
          apply Style.number_eq_none
          rw [hletters]
          exact fun h => hc (cons_prefix_cons.mp h).1.symm
        -- neither character begins a placeholder, and the blank after them does not
        have hblank : S.number ([' '] ++ rest) = none := hnumber (by decide) rest
        rw [hname]
        show S.numbersIn (a :: b :: ([' '] ++ rest)) = S.numbersIn rest
        rw [Style.numbersIn_cons_of_none (hnumber hb _), Style.numbersIn_cons_of_none hblank,
          Style.numbersIn_append_of_not_mem]
        rw [hsign]
        decide
      · apply Style.numbersIn_append_of_not_mem
        rw [hsign]
        exact not_mem_append hat (by decide)
  ne_nil := by
    rw [toList_append]
    exact append_ne_nil_of_right_ne_nil _ (by decide)
  noDigit := op.noDigit

theorem Piece.quiet (hS : D.style = some S) (p : Piece D) : S.Quiet p.text.toList := by
  cases p with
  | keyword k => exact k.plain.quiet hS
  | name x => exact x.plain.quiet hS
  | operator op => exact op.quiet hS
  | number k n => exact (plain_number k n).quiet hS

/-! ## Statements -/

namespace QueryBuilder

/-- Builders that differ only in their values make the same text or error. The parameters are the values in order,
    and between the numbered placeholders stand keywords, checked names, allowed operators and the numbers of the
    paging. -/
theorem statement_of_shape (D : Dialect) {q q' : QueryBuilder} {verb verb' : Verb} (hq : q.shape = q'.shape)
    (hverb : verb.shape = verb'.shape) : (q.statement D verb).map fst = (q'.statement D verb').map fst ∧
    ∀ sql params, q.statement D verb = .ok (sql, params) → params = verb.values ++ valuesOf q.conditions ∧
      (∀ S, D.style = some S → S.numbersIn sql.toList = List.range' 1 params.length) ∧
      ∃ ps : Parts D, sql = ps.text 0 ∧ holes ps = params.length ∧
        ∀ k i, .fixed (.number k i) ∈ ps → i ∈ q.numbers verb := by
  have hagrees := statement_agrees (D := D) q verb
  have hagrees' := statement_agrees (D := D) q' verb'
  rw [← hq, ← hverb] at hagrees'
  constructor
  · calc (q.statement D verb).map fst
      _ = (statementParts D q.shape verb.shape).map (Parts.text 0) := hagrees.map_eq fun r ps h => h.fills.text.symm
      _ = (q'.statement D verb').map fst := (hagrees'.map_eq fun r ps h => h.fills.text.symm).symm
  · intro sql params hok
    rw [hok] at hagrees
    obtain ⟨ps, -, hbound⟩ := hagrees.of_ok
    have hparams : params = verb.values ++ valuesOf q.conditions := hbound.params
    have hholes : holes ps = params.length := by rw [hbound.fills.holes, hparams]
    refine ⟨hparams, fun S hS => ?_, ps, hbound.fills.text.symm, hholes, hbound.fills.numbers⟩
    have htext : sql = fill Piece.text S.mark 0 ps := by
      rw [← placeholder_of_style hS]
      exact hbound.fills.text.symm
    rw [htext, (Style.numbersIn_fill ps (Piece.quiet hS) 0).1, hholes]

def searched (v w : Value) : QueryBuilder where
  table := "t"
  conditions := [.comparison "a" "=" v false, .group [.inList "b" [v, w] false false, .null "c" true true] true]

theorem statement_of_shape_of_searched :
    (searched (.int 1) (.int 2)).shape = (searched .null (.text "' or 1=1")).shape ∧
    ((searched (.int 1) (.int 2)).statement .postgres .select).map fst =
      .ok "select * from \"t\" where \"a\" = $1 or (\"b\" in ($2, $3) or \"c\" is not null)" ∧
    ((searched (.int 1) (.int 2)).statement .postgres .select).map fst =
      ((searched .null (.text "' or 1=1")).statement .postgres .select).map fst := by
  have hshape : (searched (.int 1) (.int 2)).shape = (searched .null (.text "' or 1=1")).shape := rfl
  exact ⟨hshape, by decide +kernel, (statement_of_shape .postgres hshape rfl).1⟩

/-! ## Numbers -/

theorem getLast_piece (p : Piece .postgres) (hp : ∀ k i, p ≠ .number k i) : p.text.toList.getLast? ≠ some '0' := by
  cases p with
  | keyword k =>
    cases k with
    | aggregate a => cases a <;> decide
    | _ => decide
  | name x =>
    show (Dialect.quote .postgres x.name).toList.getLast? ≠ _
    rw [toList_quote, ← cons_append, List.getLast?_concat]
    decide
  | operator op =>
    show (op.name ++ " ").toList.getLast? ≠ _
    rw [toList_append]
    show (op.name.toList ++ [' ']).getLast? ≠ _
    rw [List.getLast?_concat]
    decide
  | number k i => exact absurd rfl (hp k i)

theorem getLast_text {ps : Parts .postgres} (hps : ∀ k i, .fixed (.number k i) ∉ ps) {n : Nat}
    (hplain : '$' ∉ (ps.text n).toList) : (ps.text n).toList.getLast? ≠ some '0' := by
  induction ps with
  | nil => exact nofun
  | cons p ps ih =>
    cases p with
    | hole =>
      -- a placeholder begins with its sign
      have htext : (Parts.text n (.hole :: ps)).toList =
          ['$'] ++ (n + 1).repr.toList ++ (Parts.text (n + 1) ps).toList := by
        show ("$" ++ (n + 1).repr ++ Parts.text (n + 1) ps).toList = _
        rw [toList_append, toList_append]
        rfl
      rw [htext] at hplain
      exact absurd mem_cons_self hplain
    | fixed p =>
      have htext : (Parts.text n (.fixed p :: ps)).toList = p.text.toList ++ (Parts.text n ps).toList :=
        toList_append
      rw [htext] at hplain ⊢
      have hrest := ih (fun k i hmem => hps k i (mem_cons_of_mem _ hmem)) fun hmem => hplain (mem_append_right _ hmem)
      have hp := getLast_piece p fun k i hk => hps k i (hk ▸ mem_cons_self ..)
      rw [List.getLast?_append]
      cases hlast : (Parts.text n ps).toList.getLast? with
      | none => exact hp
      | some =>
        rw [hlast] at hrest
        exact hrest

/-- The limit is in the text, and it is no piece of any other kind. -/
theorem limit_in_text : ({ table := "t", limit := some 10 } : QueryBuilder).toSql .postgres =
      .ok ("select * from \"t\" limit 10", []) ∧
    ¬ ∃ ps : Parts .postgres, ps.text 0 = "select * from \"t\" limit 10" ∧ ∀ k i, .fixed (.number k i) ∉ ps := by
  refine ⟨by rfl, ?_⟩
  rintro ⟨ps, htext, hps⟩
  refine getLast_text hps (n := 0) ?_ ?_
  · rw [htext]
    decide
  · rw [htext]
    decide

end QueryBuilder

end Rustlavel.Db
