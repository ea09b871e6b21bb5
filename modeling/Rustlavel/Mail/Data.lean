/-
  The DATA phase of SMTP: line endings, dot-stuffing and the terminator on the side of the
  client (`encode.rs`, `smtp/client.rs`), and a receiver of RFC 5321.
-/

import Rustlavel.Lib.Text

namespace Rustlavel.Mail

open List

open Text (splitCrlf splitCrlf_append)

def crlf : List Char := ['\r', '\n']

/-! ## The client -/

/-- `replace("\r\n", "\n")`. -/
def joinCrlf : List Char → List Char
  | '\r' :: '\n' :: cs => '\n' :: joinCrlf cs
  | c :: cs => c :: joinCrlf cs
  | [] => []

def normalizeCrlf (input : List Char) : List Char :=
  ((joinCrlf input).map fun c => if c = '\r' then '\n' else c).flatMap fun c => if c = '\n' then crlf else [c]

variable (line : List Char)

def stuff : List Char := if ['.'] <+: line then '.' :: line else line

def dotStuff (data : List Char) : List Char := crlf.intercalate ((splitCrlf (normalizeCrlf data)).map stuff)

/-- What `write_data` writes; the transport gives it the message's text after `dot_stuff`. -/
def writeData (data : List Char) : List Char := data ++ if crlf <:+ data then '.' :: crlf else crlf ++ '.' :: crlf

/-! ## The receiver -/

def unstuff : List Char → List Char
  | '.' :: line => line
  | line => line

def receive (line : List Char) : List Char → Option (List Char × List Char)
  | '\r' :: '\n' :: cs =>
    if line = ['.'] then some ([], cs) else (receive [] cs).map fun r => (unstuff line ++ crlf ++ r.1, r.2)
  | c :: cs => receive (line ++ [c]) cs
  | [] => none

/-! ## Lines -/

def ended (lines : List (List Char)) : List Char := lines.flatMap (· ++ crlf)

theorem unstuff_stuff : unstuff (stuff line) = line := by
  match line with
  | [] => rfl
  | c :: line =>
    by_cases hc : c = '.'
    · simp [stuff, unstuff, hc]
    · have hdot : ¬ ['.'] <+: c :: line := by simpa [cons_prefix_cons] using fun h => hc h.symm
      rw [stuff, if_neg hdot, unstuff]
      exact fun _ heq => hc (List.cons.inj heq).1

theorem stuff_ne_dot : stuff line ≠ ['.'] := by
  intro h
  by_cases hdot : ['.'] <+: line
  · rw [stuff, if_pos hdot, List.cons.injEq] at h
    simp [h.2] at hdot
  · rw [stuff, if_neg hdot] at h
    exact hdot (h ▸ prefix_rfl)

theorem receive_crlf (rest : List Char) : receive line (crlf ++ rest) =
    if line = ['.'] then some ([], rest) else (receive [] rest).map fun r => (unstuff line ++ crlf ++ r.1, r.2) := by
  show receive line ('\r' :: '\n' :: rest) = _
  rw [receive]

theorem receive_append {line : List Char} (h : '\r' ∉ line) (front rest : List Char) :
    receive front (line ++ crlf ++ rest) = receive (front ++ line) (crlf ++ rest) := by
  induction line generalizing front with
  | nil => simp
  | cons c line ih =>
    have hc : c ≠ '\r' := fun heq => h (heq ▸ mem_cons_self ..)
    rw [cons_append, cons_append, receive, ih fun hmem => h (mem_cons_of_mem c hmem)]
    · simp
    · exact fun _ heq => absurd heq hc

variable {lines : List (List Char)} {last : List Char}

theorem receive_ended (h : ∀ line ∈ lines, '\r' ∉ line) (rest : List Char) :
    receive [] (ended (lines.map stuff) ++ ('.' :: crlf ++ rest)) = some (ended lines, rest) := by
  induction lines with
  | nil => rfl
  | cons line lines ih =>
    have hstuffed : '\r' ∉ stuff line := by
      have hline := h line mem_cons_self
      rw [stuff]
      split <;> simp [hline]
    have hrest := ih fun line hmem => h line (mem_cons_of_mem _ hmem)
    have hsplit : ended ((line :: lines).map stuff) ++ ('.' :: crlf ++ rest) =
        stuff line ++ crlf ++ (ended (lines.map stuff) ++ ('.' :: crlf ++ rest)) := by simp [ended]
    rw [hsplit, receive_append hstuffed, nil_append, receive_crlf, if_neg (stuff_ne_dot line), hrest,
      Option.map_some, unstuff_stuff]
    rfl

theorem exists_lines {text : List Char} (h : '\r' ∉ text) : ∃ lines last, (∀ line ∈ lines, '\r' ∉ line) ∧
    '\r' ∉ last ∧ '\n' ∉ last ∧ text.flatMap (fun c => if c = '\n' then crlf else [c]) = ended lines ++ last := by
  induction text with
  | nil => exact ⟨[], [], by simp, by simp, by simp, rfl⟩
  | cons c text ih =>
    obtain ⟨lines, last, hlines, hcr, hlf, heq⟩ := ih fun hmem => h (mem_cons_of_mem c hmem)
    have hc : '\r' ≠ c := fun heq => h (heq ▸ mem_cons_self ..)
    by_cases hend : c = '\n'
    · exact ⟨[] :: lines, last, by simpa using hlines, hcr, hlf, by simp [hend, heq, ended]⟩
    · -- the character belongs to the first line, which may be the last
      match lines with
      | [] => exact ⟨[], c :: last, by simp, by simp [hc, hcr], by simp [Ne.symm hend, hlf], by simp [hend, heq, ended]⟩
      | line :: lines =>
        refine ⟨(c :: line) :: lines, last, ?_, hcr, hlf, by simp [hend, heq, ended]⟩
        simpa [hc] using hlines

theorem splitCrlf_ended (h : ∀ line ∈ lines, '\r' ∉ line)
    (hlast : '\r' ∉ last) : splitCrlf (ended lines ++ last) = lines ++ [last] := by
  induction lines with
  | nil =>
    induction last with
    | nil => rfl
    | cons c last ih =>
      have hc : c ≠ '\r' := fun heq => hlast (heq ▸ mem_cons_self ..)
      show splitCrlf (c :: (ended [] ++ last)) = _
      rw [splitCrlf, ih fun hmem => hlast (mem_cons_of_mem c hmem)]
      · rfl
      · exact fun _ heq => absurd heq hc
  | cons line lines ih =>
    have hsplit : ended (line :: lines) ++ last = line ++ '\r' :: '\n' :: (ended lines ++ last) := by
      simp [ended, crlf]
    rw [hsplit, splitCrlf_append (h line mem_cons_self), ih fun line hmem => h line (mem_cons_of_mem _ hmem)]
    rfl

theorem intercalate_concat (lines : List (List Char)) (last : List Char) :
    crlf.intercalate (lines ++ [last]) = ended lines ++ last := by
  induction lines with
  | nil => simp [ended]
  | cons line lines ih =>
    have hcons : crlf.intercalate (line :: (lines ++ [last])) = line ++ crlf ++ crlf.intercalate (lines ++ [last]) := by
      cases lines <;> simp
    rw [cons_append, hcons, ih]
    simp [ended]

theorem crlf_suffix_iff (h : '\n' ∉ last) : crlf <:+ ended lines ++ last ↔ last = [] ∧ lines ≠ [] := by
  constructor
  · rintro ⟨front, heq⟩
    have hlast : last = [] := by
      by_contra hne
      have hget : some '\n' = last.getLast? := by
        rw [← List.getLast?_append_of_ne_nil _ hne, ← heq]
        simp [crlf]
      exact h (mem_of_getLast? hget.symm)
    refine ⟨hlast, ?_⟩
    rintro rfl
    simp [hlast, ended, crlf] at heq
  · rintro ⟨rfl, hne⟩
    obtain ⟨lines, line, rfl⟩ := (eq_nil_or_concat' lines).resolve_left hne
    exact ⟨ended lines ++ line, by simp [ended]⟩

/-- Whatever the text, a receiver recovers it with its line ends made whole, and is then at
    the end of what was written. -/
theorem receive_writeData (data rest : List Char) : receive [] (writeData (dotStuff data) ++ rest) =
      some (if crlf <:+ normalizeCrlf data then normalizeCrlf data else normalizeCrlf data ++ crlf, rest) := by
  have hnormal : '\r' ∉ (joinCrlf data).map fun c => if c = '\r' then '\n' else c := by
    intro hmem
    obtain ⟨_, -, hc⟩ := mem_map.mp hmem
    split at hc
    · cases hc
    · contradiction
  obtain ⟨lines, last, hlines, hcr, hlf, heq⟩ := exists_lines hnormal
  have htext : normalizeCrlf data = ended lines ++ last := heq
  have hstuffed : dotStuff data = ended (lines.map stuff) ++ stuff last := by
    rw [dotStuff, htext, splitCrlf_ended hlines hcr, map_append, map_singleton, intercalate_concat]
  have hlf' : '\n' ∉ stuff last := by
    rw [stuff]
    split <;> simp [hlf]
  have hempty : stuff last = [] ↔ last = [] := by
    refine ⟨fun hnil => ?_, fun hnil => by simp [hnil, stuff]⟩
    rw [← unstuff_stuff last, hnil]
    rfl
  rw [writeData, hstuffed, htext]
  simp only [crlf_suffix_iff hlf, crlf_suffix_iff hlf', hempty, ne_eq, map_eq_nil_iff]
  split
  next hends =>
    have hreceive := receive_ended hlines rest
    simpa [hends.1, stuff] using hreceive
  next hends =>
    have hreceive := receive_ended (forall_mem_append.mpr ⟨hlines, forall_mem_singleton.mpr hcr⟩) rest
    simpa [ended] using hreceive

end Rustlavel.Mail
