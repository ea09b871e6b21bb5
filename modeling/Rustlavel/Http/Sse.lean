/-
  Server-sent events: what `Event::to_bytes` of `sse.rs` writes, and what an `EventSource`
  makes of it.  The data is split at LF only, so a CR of its own ends a line that the
  sender did not end (`carriage_return_starts_field`).
-/

import Rustlavel.Lib.Text
import Rustlavel.Lib.Utf8

namespace Rustlavel.Http.Sse

open Text List

/-! ## Writing -/

/-- One event; the delay before a reconnection in milliseconds. -/
structure Event where
  id : Option String
  event : Option String
  data : String
  retry : Option Nat

def stripNewlines (text : String) : List Char := text.toList.map fun c => if c = '\r' ∨ c = '\n' then ' ' else c

def fieldLine (name value : List Char) : List Char := name ++ ':' :: ' ' :: value ++ ['\n']

def dataLines (data : List Char) : List (List Char) := (data.splitOn '\n').map (·.rdropWhile (· == '\r'))

variable (e : Event)

def Event.text : List Char := (e.id.map fun id => fieldLine "id".toList (stripNewlines id)).getD [] ++
    (e.event.map fun event => fieldLine "event".toList (stripNewlines event)).getD [] ++
    (e.retry.map fun retry => fieldLine "retry".toList (Nat.toDigits 10 retry)).getD [] ++
    (dataLines e.data.toList).flatMap (fieldLine "data".toList) ++ ['\n']

def Event.toBytes : List UInt8 := Utf8.encode e.text

/-! ## Reading -/

/-- The ended lines of a stream; a line ends at CR, LF or CRLF. -/
def streamLines (line : List Char) : List Char → List (List Char)
  | [] => []
  | '\r' :: '\n' :: rest => line :: streamLines [] rest
  | c :: rest => if c = '\r' ∨ c = '\n' then line :: streamLines [] rest else streamLines (line ++ [c]) rest

structure Message where
  name : List Char
  id : List Char
  data : List Char
  deriving DecidableEq

/-- The buffers of the event being read, and the events before it. -/
structure Reader where
  data : List Char := []
  name : List Char := []
  lastId : List Char := []
  dispatched : List Message := []

/-- A field's name and value; a comment is a field without a name. -/
def splitField (line : List Char) : List Char × List Char :=
  match splitOnce ':' line with
  | some (name, ' ' :: value) => (name, value)
  | some (name, value) => (name, value)
  | none => (line, [])

def Reader.dispatch (r : Reader) : Reader :=
  if r.data = [] then { r with name := [] }
  else { r with
    data := []
    name := []
    dispatched := r.dispatched ++ [⟨if r.name = [] then "message".toList else r.name, r.lastId, r.data.dropLast⟩] }

def Reader.processField (r : Reader) (name value : List Char) : Reader :=
  if name = "event".toList then { r with name := value }
  else if name = "data".toList then { r with data := r.data ++ (value ++ ['\n']) }
  else if name = "id".toList ∧ '\x00' ∉ value then { r with lastId := value }
  else r

def Reader.step (r : Reader) (line : List Char) : Reader :=
  if line = [] then r.dispatch else r.processField (splitField line).1 (splitField line).2

def Reader.feed (r : Reader) (text : List Char) : Reader := (streamLines [] text).foldl Reader.step r

/-- The events of a stream of bytes, without a byte order mark. -/
def parse (bytes : List UInt8) : List Message := (Reader.feed {} (Utf8.lossy bytes)).dispatched

/-! ## Lines -/

abbrev Plain (line : List Char) : Prop := '\r' ∉ line ∧ '\n' ∉ line

variable {line : List Char}

theorem streamLines_line (hline : Plain line) (front rest : List Char) :
    streamLines front (line ++ '\n' :: rest) = (front ++ line) :: streamLines [] rest := by
  induction line generalizing front with
  | nil => simp [streamLines]
  | cons c line ih =>
    obtain ⟨hcr, hlf⟩ := hline
    rw [mem_cons, not_or] at hcr hlf
    have hc : ¬ (c = '\r' ∨ c = '\n') := fun h => h.elim (hcr.1 ·.symm) (hlf.1 ·.symm)
    rw [cons_append, streamLines, if_neg hc, ih ⟨hcr.2, hlf.2⟩, append_assoc]
    · rfl
    · exact fun _ heq => absurd heq.symm hcr.1

variable {r : Reader} {name value : List Char}

theorem feed_field (hname : Plain name) (hcolon : ':' ∉ name) (hvalue : Plain value) (rest : List Char) :
    r.feed (fieldLine name value ++ rest) = (r.processField name value).feed rest := by
  have hline : Plain (name ++ ':' :: ' ' :: value) := by simpa [Plain, hname.1, hname.2] using hvalue
  have hsplit : splitField (name ++ ':' :: ' ' :: value) = (name, value) := by
    rw [splitField, splitOnce_append hcolon]
    rfl
  rw [fieldLine, append_assoc, singleton_append, Reader.feed, streamLines_line hline, foldl_cons, nil_append,
    Reader.step, if_neg (by simp), hsplit]
  rfl

theorem plain_stripNewlines (text : String) : Plain (stripNewlines text) := by
  constructor <;>
  · intro hmem
    obtain ⟨c, -, hc⟩ := mem_map.mp hmem
    split at hc
    · exact absurd hc (by decide)
    · rename_i hbreak
      simp [hc] at hbreak

theorem plain_toDigits (n : Nat) : Plain (Nat.toDigits 10 n) := by
  constructor <;> exact fun h => absurd (Nat.isDigit_of_mem_toDigits (by decide) (by decide) h) (by decide)

theorem feed_data {lines : List (List Char)} (hlines : ∀ line ∈ lines, Plain line) (rest : List Char) :
    r.feed (lines.flatMap (fieldLine "data".toList) ++ rest) =
      Reader.feed { r with data := r.data ++ lines.flatMap (· ++ ['\n']) } rest := by
  induction lines generalizing r with
  | nil => simp
  | cons line lines ih =>
    obtain ⟨hline, hlines⟩ := forall_mem_cons.mp hlines
    rw [flatMap_cons, append_assoc, feed_field (by decide) (by decide) hline, ih hlines]
    simp [Reader.processField]

/-! ## Line breaks of the data -/

/-- Every line break is LF. -/
def normalise : List Char → List Char
  | [] => []
  | '\r' :: '\n' :: rest => '\n' :: normalise rest
  | c :: rest => (if c = '\r' then '\n' else c) :: normalise rest

/-- Every CR is followed by LF. -/
def paired : List Char → Bool
  | [] => true
  | '\r' :: '\n' :: rest => paired rest
  | c :: rest => c != '\r' && paired rest

theorem dataLines_break (rest : List Char) : dataLines ('\n' :: rest) = [] :: dataLines rest := rfl

theorem dataLines_pair (rest : List Char) : dataLines ('\r' :: '\n' :: rest) = [] :: dataLines rest := rfl

theorem dataLines_char {c : Char} (hcr : c ≠ '\r') (hlf : c ≠ '\n') (rest : List Char) :
    dataLines (c :: rest) = (dataLines rest).modifyHead (c :: ·) := by
  have htrim (cs : List Char) : (c :: cs).rdropWhile (· == '\r') = c :: cs.rdropWhile (· == '\r') := by
    rw [rdropWhile, rdropWhile, reverse_cons, dropWhile_append]
    split
    · rename_i hempty
      rw [isEmpty_iff.mp hempty]
      simp [hcr]
    · simp
  rw [dataLines, splitOn, splitOnP_cons_eq_if_modifyHead, if_neg (by simpa using hlf), dataLines, splitOn]
  cases rest.splitOnP (· == '\n') with
  | nil => rfl
  | cons => simp [htrim]

theorem dataLines_of_paired {data : List Char} (h : paired data = true) : (∀ line ∈ dataLines data, Plain line) ∧
    (dataLines data).flatMap (· ++ ['\n']) = normalise data ++ ['\n'] := by
  fun_induction paired data with
  | case1 => exact ⟨by decide, rfl⟩
  | case2 rest ih =>
    obtain ⟨hplain, hlines⟩ := ih h
    rw [dataLines_pair, forall_mem_cons, flatMap_cons, hlines]
    exact ⟨⟨by decide, hplain⟩, rfl⟩
  | case3 c rest hnot ih =>
    rw [Bool.and_eq_true, bne_iff_ne] at h
    obtain ⟨hplain, hlines⟩ := ih h.2
    rw [normalise, if_neg h.1]
    · by_cases hlf : c = '\n'
      · rw [hlf, dataLines_break, forall_mem_cons, flatMap_cons, hlines]
        exact ⟨⟨by decide, hplain⟩, rfl⟩
      · rw [dataLines_char h.1 hlf]
        cases hrest : dataLines rest with
        | nil =>
          rw [hrest] at hlines
          simp at hlines
        | cons =>
          rw [hrest] at hplain hlines
          obtain ⟨hline, hplain⟩ := forall_mem_cons.mp hplain
          rw [modifyHead_cons, forall_mem_cons, cons_append, ← hlines]
          exact ⟨⟨by simp [Plain, hline.1, hline.2, h.1.symm, Ne.symm hlf], hplain⟩, rfl⟩
    · exact fun rest' hc hrest => hnot rest' hc hrest

/-! ## An event read back -/

theorem feed_optional {α : Type} {write : α → List Char} (hname : Plain name) (hcolon : ':' ∉ name)
    (hwrite : ∀ a, Plain (write a)) (field : Option α) (rest : List Char) :
    r.feed ((field.map fun a => fieldLine name (write a)).getD [] ++ rest) =
      ((field.map fun a => r.processField name (write a)).getD r).feed rest := by
  cases field with
  | none => rfl
  | some a => exact feed_field hname hcolon (hwrite a) rest

theorem nul_mem_stripNewlines {text : String} : '\x00' ∈ stripNewlines text ↔ '\x00' ∈ text.toList := by
  rw [stripNewlines, mem_map]
  refine ⟨?_, fun h => ⟨_, h, rfl⟩⟩
  rintro ⟨c, hc, heq⟩
  split at heq
  · exact absurd heq (by decide)
  · exact heq ▸ hc

/-- The id that a reader takes. -/
def Event.readId : List Char := ((e.id.map stripNewlines).filter ('\x00' ∉ ·)).getD []

theorem parse_fields : parse e.toBytes =
    (Reader.feed { name := (e.event.map stripNewlines).getD [], lastId := e.readId }
      ((dataLines e.data.toList).flatMap (fieldLine "data".toList) ++ ['\n'])).dispatched := by
  rw [parse, Event.toBytes, Utf8.lossy_encode, Event.text, append_assoc, append_assoc, append_assoc,
    feed_optional (by decide) (by decide) plain_stripNewlines,
    feed_optional (by decide) (by decide) plain_stripNewlines,
    feed_optional (by decide) (by decide) plain_toDigits]
  have hretry (r : Reader) : (e.retry.map fun retry => r.processField "retry".toList
    (Nat.toDigits 10 retry)).getD r = r := by
    cases e.retry <;> rfl
  rw [hretry, Event.readId]
  congr 2
  cases e.id with
  | none => cases e.event <;> rfl
  | some id =>
    by_cases hnul : '\x00' ∈ stripNewlines id <;> cases e.event <;>
      simp [Reader.processField, Option.filter, hnul]

/-! ## What a reader can have -/

/-- A measure of texts: a line of data has one `d` more than its value, for which the reader has a line break. -/
def weight (text : List Char) : Nat := text.countP fun c => c == 'd' || c == '\n'

/-- What a line adds to the data. -/
def gain (line : List Char) : Nat := if (splitField line).1 = "data".toList then weight (splitField line).2 + 1 else 0

/-- So much data, with the line break that is dropped at the end of each event; names, and no NUL in an id. -/
structure Reader.Within (r : Reader) (n : Nat) : Prop where
  data : weight r.data + (r.dispatched.map fun m => weight m.data + 1).sum ≤ n
  ended : r.data ≠ [] → weight r.data.dropLast + 1 = weight r.data
  id : '\x00' ∉ r.lastId
  named : ∀ m ∈ r.dispatched, m.name ≠ [] ∧ '\x00' ∉ m.id

theorem Reader.Within.processField {n : Nat} (h : r.Within n) (name value : List Char) :
    (r.processField name value).Within (n + if name = "data".toList then weight value + 1 else 0) := by
  obtain ⟨hdata, hended, hid, hnamed⟩ := h
  have hle := hdata.trans (Nat.le_add_right n (if name = "data".toList then weight value + 1 else 0))
  rw [Reader.processField]
  split
  · exact ⟨hle, hended, hid, hnamed⟩
  · split
    · have hadded : weight (r.data ++ (value ++ ['\n'])) = weight r.data + weight value + 1 := by
        simp [weight, Nat.add_assoc]
      refine ⟨?_, fun _ => ?_, hid, hnamed⟩
      · simp only [hadded]
        omega
      · rw [hadded, ← append_assoc, dropLast_concat, weight, countP_append]
        rfl
    · split
      next hnul => exact ⟨hdata, hended, hnul.2, hnamed⟩
      next => exact ⟨hdata, hended, hid, hnamed⟩

theorem Reader.Within.step {n : Nat} (h : r.Within n) (line : List Char) : (r.step line).Within (n + gain line) := by
  rw [Reader.step]
  split
  · obtain ⟨hdata, hended, hid, hnamed⟩ := h
    rw [Reader.dispatch]
    split
    next => exact ⟨hdata.trans (Nat.le_add_right ..), hended, hid, hnamed⟩
    next hsome =>
      have hlast := hended hsome
      have hnone : weight [] = 0 := rfl
      refine ⟨?_, fun h => absurd rfl h, hid, fun m hm => (mem_append.mp hm).elim (hnamed m) fun hm => ?_⟩
      · simp only [map_append, map_cons, map_nil, sum_append, sum_cons, sum_nil]
        omega
      · rw [mem_singleton.mp hm]
        refine ⟨?_, hid⟩
        show (if r.name = [] then "message".toList else r.name) ≠ []
        split
        · decide
        · assumption
  · exact h.processField ..

theorem Reader.Within.feed {n : Nat} (h : r.Within n) (text : List Char) :
    (r.feed text).Within (n + ((streamLines [] text).map gain).sum) := by
  rw [Reader.feed]
  induction streamLines [] text generalizing r n with
  | nil => exact h
  | cons line lines ih =>
    rw [map_cons, sum_cons, ← Nat.add_assoc]
    exact ih (h.step line)

theorem gain_le (line : List Char) : gain line ≤ weight line := by
  rw [gain]
  split
  · rename_i hname
    cases hsplit : splitOnce ':' line with
    | none =>
      rw [splitField, hsplit] at hname ⊢
      simp only at hname
      rw [hname]
      decide
    | some parts =>
      obtain ⟨name, value⟩ := parts
      have hweight := congrArg weight (eq_of_splitOnce hsplit).1
      rw [splitField, hsplit] at hname ⊢
      split at hname <;> simp_all [weight]
  · exact Nat.zero_le _

theorem gain_streamLines (front text : List Char) :
    ((streamLines front text).map gain).sum ≤ weight front + text.count 'd' := by
  have hnone : weight [] = 0 := rfl
  fun_induction streamLines front text with
  | case1 => exact Nat.zero_le _
  | case2 front rest ih =>
    have hfront := gain_le front
    simp only [map_cons, sum_cons, count_cons]
    omega
  | case3 front c rest hpair hbreak ih =>
    have hfront := gain_le front
    simp only [map_cons, sum_cons, count_cons]
    omega
  | case4 front c rest hpair hbreak ih =>
    have hweight : weight (front ++ [c]) = weight front + if c = 'd' then 1 else 0 := by
      simp [weight, (not_or.mp hbreak).2]
    simp only [count_cons, beq_iff_eq]
    omega

theorem gain_dataLines (data : List Char) :
    ((streamLines [] ((dataLines data).flatMap (fieldLine "data".toList) ++ ['\n'])).map gain).sum ≤
      weight data + 1 := by
  have hparts : ((data.splitOn '\n').map fun part => weight part + 1).sum = weight data + 1 := by
    rw [splitOn]
    induction data with
    | nil => rfl
    | cons c data ih =>
      rw [splitOnP_cons_eq_if_modifyHead]
      by_cases hc : c = '\n'
      · rw [if_pos (by simpa using hc), map_cons, sum_cons, ih]
        simp [weight, hc]
        omega
      · rw [if_neg (by simpa using hc)]
        cases hparts : data.splitOnP (· == '\n') with
        | nil => exact absurd hparts (splitOnP_ne_nil _ _)
        | cons part parts =>
          rw [hparts] at ih
          simp only [modifyHead_cons, map_cons, sum_cons, weight, countP_cons] at ih ⊢
          omega
  refine (gain_streamLines [] _).trans ?_
  rw [← hparts, count_append, count_flatMap, dataLines, map_map]
  refine (Nat.zero_add _).trans_le (sum_le_sum fun part _ => ?_)
  have hkept : part.rdropWhile (· == '\r') <+: part := rdropWhile_prefix _ _
  have htrim : (part.rdropWhile (· == '\r')).count 'd' ≤ weight part :=
    (hkept.sublist.count_le _).trans (countP_mono_left (by simp +contextual))
  simp [fieldLine]
  omega

/-! ## A CR of its own -/

theorem weight_normalise (data : List Char) :
    weight data + (if paired data then 0 else 1) ≤ weight (normalise data) := by
  fun_induction paired data with
  | case1 => decide
  | case2 rest ih =>
    rw [normalise]
    simp [weight] at ih ⊢
    omega
  | case3 c rest hnot ih =>
    rw [normalise]
    · by_cases hc : c = '\r'
      · simp [weight, hc] at ih ⊢
        split at ih <;> omega
      · simp [weight, hc, countP_cons] at ih ⊢
        omega
    · exact fun rest' hc hrest => hnot rest' hc hrest

theorem within_parse (e : Event) : ((parse e.toBytes).map fun m => weight m.data + 1).sum ≤ weight e.data.toList + 1 ∧
    ∀ m ∈ parse e.toBytes, m.name ≠ [] ∧ '\x00' ∉ m.id := by
  have hstart : Reader.Within { name := (e.event.map stripNewlines).getD [], lastId := e.readId } 0 := by
    refine ⟨Nat.le_refl _, fun h => absurd rfl h, ?_, fun _ hm => absurd hm not_mem_nil⟩
    show '\x00' ∉ e.readId
    rw [Event.readId]
    cases h : (e.id.map stripNewlines).filter ('\x00' ∉ ·) with
    | none => exact not_mem_nil
    | some id => simpa using (Option.filter_eq_some_iff.mp h).2
  rw [parse_fields]
  have hend := hstart.feed ((dataLines e.data.toList).flatMap (fieldLine "data".toList) ++ ['\n'])
  rw [Nat.zero_add] at hend
  exact ⟨(Nat.le_add_left _ _).trans (hend.data.trans (gain_dataLines _)), hend.named⟩

/-- An event is read back as itself and nothing else exactly if every CR of the data is before a LF, the id has no
    NUL, and there is no empty name. -/
theorem parse_toBytes (e : Event) :
    parse e.toBytes = [⟨(e.event.map stripNewlines).getD "message".toList, (e.id.map stripNewlines).getD [],
      normalise e.data.toList⟩] ↔
    paired e.data.toList = true ∧ (∀ id ∈ e.id, '\x00' ∉ id.toList) ∧ e.event ≠ some "" := by
  constructor
  · intro hparse
    obtain ⟨htotal, hnamed⟩ := within_parse e
    rw [hparse] at hnamed htotal
    obtain ⟨hname, hid⟩ := hnamed _ mem_cons_self
    refine ⟨?_, fun id hmem hnul => hid ?_, fun hempty => hname ?_⟩
    · by_contra hpaired
      have hless := weight_normalise e.data.toList
      rw [if_neg hpaired] at hless
      simp at htotal
      omega
    · rw [Option.mem_def.mp hmem]
      exact nul_mem_stripNewlines.mpr hnul
    · rw [hempty]
      rfl
  · rintro ⟨hdata, hid, hname⟩
    obtain ⟨hplain, hlines⟩ := dataLines_of_paired hdata
    rw [parse_fields, feed_data hplain, hlines]
    have hkept : e.readId = (e.id.map stripNewlines).getD [] := by
      rw [Event.readId]
      cases hcase : e.id with
      | none => rfl
      | some id => simp [Option.filter, nul_mem_stripNewlines, hid id hcase]
    have hmessage : (if (e.event.map stripNewlines).getD [] = [] then "message".toList
        else (e.event.map stripNewlines).getD []) = (e.event.map stripNewlines).getD "message".toList := by
      cases hcase : e.event with
      | none => rfl
      | some => exact if_neg fun hnil => hname (hcase.trans (congrArg some (by simpa [stripNewlines] using hnil)))
    have hopen : normalise e.data.toList ++ ['\n'] ≠ [] := by simp
    refine (congrArg Reader.dispatched (if_neg hopen)).trans ?_
    show [Message.mk _ _ (normalise e.data.toList ++ ['\n']).dropLast] = _
    rw [dropLast_concat, ← hmessage, hkept]

/-- After a CR of its own the data goes on as a field of the sender's event. -/
theorem carriage_return_starts_field :
    parse (Event.mk none (some "note") "a\revent: alert" none).toBytes = [⟨"alert".toList, [], "a".toList⟩] := by
  decide

end Rustlavel.Http.Sse
