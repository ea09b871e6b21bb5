/-
  Where a request goes: the table of `rustlavel-gateway/src/route.rs` is matched with the decoded path, and the
  URL of the upstream is made of the target as it arrived.
-/

import Rustlavel.Http.Links

namespace Rustlavel.Gateway

open Text Http Http.Url List String

structure Upstream where
  base : String
  strip : Option String
  deriving DecidableEq

/-- What comes after the base in `url_for`. -/
def Upstream.targetFor (u : Upstream) (target : String) : String :=
  let path := match u.strip with
    | some stripped =>
      if stripped.toList.isPrefixOf target.toList then ofList (target.toList.drop stripped.length) else target
    | none => target
  match path.toList with
  | [] => "/"
  | c :: _ => (if c = '/' then "" else "/") ++ path

def Upstream.urlFor (u : Upstream) (target : String) : String := u.base ++ u.targetFor target

abbrev Routes : Type := List (String × Upstream)

/-- The routes stay in order of length, the longest first. -/
def Routes.add (routes : Routes) (pattern : String) (u : Upstream) : Routes :=
  (routes ++ [(pattern, u)]).insertionSort fun a b => b.1.utf8ByteSize ≤ a.1.utf8ByteSize

def Routes.find (routes : Routes) (path : String) : Option Upstream :=
  routes.findSome? fun (pattern, u) =>
    if pattern.toList.getLast? = some '*' then
      if pattern.toList.dropLast.isPrefixOf path.toList then some u else none
    else if path = pattern then some u else none

/-- The target of the request that `Server::parse` makes of the one on the request line. -/
def received (target : String) : String := ofList (originForm target.toList)

/-- The path that is looked up in the table. -/
def pathOf (target : String) : String := decode (splitTarget (received target)).1

/-! ## Stripping -/

variable {stripped : List Char}

/-- The text before the first question mark. -/
def pathText (target : List Char) : List Char := target.takeWhile (· ≠ '?')

theorem splitTarget_fst (target : List Char) :
    decode (splitTarget (ofList target)).1 = ofList (decodeChars (pathText target)) := by
  rw [splitTarget_eq, decode_eq, toList_ofList]
  rfl

theorem splitTarget_snd_append (h : '?' ∉ stripped) (target : List Char) :
    (splitTarget (ofList (stripped ++ target))).2 = (splitTarget (ofList target)).2 := by
  have hplain : ∀ c ∈ stripped, decide (c ≠ '?') = true := fun c hc => decide_eq_true (ne_of_mem_of_not_mem hc h)
  rw [splitTarget_eq, splitTarget_eq, dropWhile_append_of_pos hplain]

theorem pathText_append (h : '?' ∉ stripped) (target : List Char) :
    pathText (stripped ++ target) = stripped ++ pathText target :=
  takeWhile_append_of_pos fun _ hc => decide_eq_true (ne_of_mem_of_not_mem hc h)

theorem pathText_slash (rest : List Char) : pathText ('/' :: rest) = '/' :: pathText rest :=
  takeWhile_cons_of_pos (by decide)

theorem isPrefixOf_append (a b : List Char) : a.isPrefixOf (a ++ b) = true := by
  rw [ isPrefixOf_iff_prefix]
  exact prefix_append ..

/-- `targetFor` on characters. -/
def sentFor (stripped target : List Char) : List Char :=
  let path := if stripped.isPrefixOf target then target.drop stripped.length else target
  if path.head? = some '/' then path else '/' :: path

theorem targetFor_eq {u : Upstream} {p : String} (h : u.strip = some p) (target : List Char) :
    u.targetFor (ofList target) = ofList (sentFor p.toList target) := by
  have hpath : (if p.toList.isPrefixOf target then ofList (target.drop p.length) else ofList target) =
      ofList (if p.toList.isPrefixOf target then target.drop p.toList.length else target) := by
    rw [length_toList]
    split <;> rfl
  simp only [Upstream.targetFor, h, sentFor, toList_ofList, hpath]
  generalize (if p.toList.isPrefixOf target then target.drop p.toList.length else target) = path
  cases path with
  | nil => rfl
  | cons c rest =>
    by_cases hc : c = '/'
    · simp [hc]
    · apply toList_injective
      simp [hc, toList_append]

/-- No prefix is found in what a part of it, or what follows it without a slash, decodes to: there is one slash
    more in the path than the escapes can give. -/
theorem not_matched {a b c : List Char} (h : decodeChars (a ++ b) = a ++ c)
    (hc : (decodeChars b).count '%' + (decodeChars b).count '/' < c.count '%' + c.count '/') : False := by
  have hless := count_decodeChars (by decide : '/' ∈ separators) a b
  rw [h, count_append, count_append] at hless
  omega

theorem decodeChars_slash (rest : List Char) : decodeChars ('/' :: rest) = '/' :: decodeChars rest := by
  have h := decodeChars_append (by decide : '/' ∈ separators) [] rest
  simpa [show decodeChars [] = [] from rfl] using h

theorem not_mem_of_matched {target found : List Char} (hbegins : stripped <+: target)
    (hmatched : decodeChars (pathText target) = stripped ++ '/' :: found) : '?' ∉ stripped := by
  intro hmem
  obtain ⟨rest, rfl⟩ := hbegins
  obtain ⟨front, back, rfl, hfront⟩ := eq_append_cons_of_mem hmem
  have hpath : pathText (front ++ '?' :: back ++ rest) = front := by
    rw [List.append_assoc, pathText_append hfront]
    simp [pathText]
  rw [hpath, ← append_nil front, List.append_assoc front, List.append_assoc front] at hmatched
  refine not_matched hmatched ?_
  have hempty : decodeChars [] = [] := rfl
  rw [hempty]
  simp only [nil_append, cons_append, count_append, count_cons, count_nil]
  simp

/-- What is sent is the matched path without the prefix exactly if the prefix stands in the target as it is
    written, followed by a slash, and is what it decodes to itself. -/
theorem sentFor_iff {target found : List Char}
    (hmatched : decodeChars (pathText target) = stripped ++ '/' :: found) :
    stripped ++ decodeChars (pathText (sentFor stripped target)) = decodeChars (pathText target) ↔
      stripped ++ ['/'] <+: target ∧ decodeChars stripped = stripped := by
  by_cases hbegins : stripped <+: target
  · have hquestion := not_mem_of_matched hbegins hmatched
    obtain ⟨rest, rfl⟩ := hbegins
    have hdrop : (if stripped.isPrefixOf (stripped ++ rest) then (stripped ++ rest).drop stripped.length
        else stripped ++ rest) = rest := by
      rw [if_pos (isPrefixOf_append ..), drop_left]
    rw [sentFor, hdrop, pathText_append hquestion]
    rw [pathText_append hquestion] at hmatched
    by_cases hslash : rest.head? = some '/'
    · obtain ⟨rest, rfl⟩ := head?_eq_some_iff.mp hslash
      have hwritten : stripped ++ ['/'] <+: stripped ++ '/' :: rest := ⟨rest, by simp⟩
      rw [if_pos hslash, pathText_slash, decodeChars_append (by decide), decodeChars_slash]
      simp only [hwritten, true_and, append_cancel_right_eq]
      exact eq_comm
    · rw [if_neg hslash, pathText_slash, decodeChars_slash]
      constructor
      · intro hsent
        refine (not_matched hsent.symm ?_).elim
        simp only [count_cons]
        simp
      · rintro ⟨hwritten, -⟩
        refine absurd ?_ hslash
        obtain ⟨tail, htail⟩ := hwritten
        rw [List.append_assoc, append_cancel_left_eq] at htail
        rw [← htail]
        rfl
  · have hwritten : ¬ stripped ++ ['/'] <+: target := fun h => hbegins ((prefix_append ..).trans h)
    simp only [hwritten, false_and, iff_false]
    intro hsent
    have hpositive : 0 < stripped.length := length_pos_iff.mpr fun hnil => hbegins (hnil ▸ nil_prefix)
    have hnot : ¬ stripped.isPrefixOf target = true := mt List.isPrefixOf_iff_prefix.mp hbegins
    have hlonger : (decodeChars (pathText target)).length ≤
        (decodeChars (pathText (sentFor stripped target))).length := by
      rw [sentFor, if_neg hnot]
      split
      · exact Nat.le_refl _
      · rw [pathText_slash, decodeChars_slash]
        exact Nat.le_succ _
    have hlength := congrArg List.length hsent
    rw [List.length_append] at hlength
    omega

/-- Of a target that the route `p/*` takes, the path that is sent is the one that was matched without the prefix,
    with the query of the request line, exactly if the prefix stands in the target as it was received, written
    out and followed by a slash, and decodes to itself, and the query was received. -/
theorem prefix_stripped {u : Upstream} {p : String} (hstrip : u.strip = some p) {target : String}
    (hmatched : (p ++ "/").toList <+: (pathOf target).toList) :
    (∃ sent, u.urlFor (received target) = u.base ++ sent ∧ p ++ decode (splitTarget sent).1 = pathOf target ∧
        (splitTarget sent).2 = (splitTarget target).2) ↔
      (p ++ "/").toList <+: (received target).toList ∧ decode p = p ∧
        (splitTarget (received target)).2 = (splitTarget target).2 := by
  obtain ⟨found, hfound⟩ := hmatched
  have hreceived : received target = ofList (originForm target.toList) := rfl
  have hpath : (pathOf target).toList = decodeChars (pathText (originForm target.toList)) := by
    rw [pathOf, hreceived, splitTarget_fst, toList_ofList]
  have hslash : (p ++ "/").toList = p.toList ++ ['/'] := toList_append
  rw [hpath, hslash, List.append_assoc] at hfound
  have hiff := sentFor_iff hfound.symm
  have hself : decode p = p ↔ decodeChars p.toList = p.toList := by
    rw [decode_eq, ← toList_inj, toList_ofList]
  have hsent : p ++ decode (splitTarget (ofList (sentFor p.toList (originForm target.toList)))).1 = pathOf target ↔
      p.toList ++ decodeChars (pathText (sentFor p.toList (originForm target.toList))) =
        decodeChars (pathText (originForm target.toList)) := by
    rw [splitTarget_fst, ← hpath, ← toList_inj, toList_append, toList_ofList]
  have hquery (hwritten : p.toList ++ ['/'] <+: originForm target.toList) :
      (splitTarget (ofList (sentFor p.toList (originForm target.toList)))).2 = (splitTarget (received target)).2 := by
    have hquestion := not_mem_of_matched ((prefix_append ..).trans hwritten) hfound.symm
    obtain ⟨rest, hrest⟩ := hwritten
    rw [hreceived, ← hrest, List.append_assoc, splitTarget_snd_append hquestion, sentFor,
      if_pos (isPrefixOf_append ..), drop_left]
    rfl
  rw [hself, hslash, hreceived, toList_ofList]
  constructor
  · rintro ⟨sent, hurl, hpath', hq⟩
    have heq : sent = ofList (sentFor p.toList (originForm target.toList)) := by
      rw [Upstream.urlFor, targetFor_eq hstrip] at hurl
      exact ((String.append_right_inj _).mp hurl).symm
    rw [heq] at hpath' hq
    obtain ⟨hwritten, hdecoded⟩ := hiff.mp (hsent.mp hpath')
    exact ⟨hwritten, hdecoded, by rw [← hreceived, ← hquery hwritten, hq]⟩
  · rintro ⟨hwritten, hdecoded, hq⟩
    refine ⟨_, by rw [Upstream.urlFor, targetFor_eq hstrip], hsent.mpr (hiff.mpr ⟨hwritten, hdecoded⟩), ?_⟩
    rw [hquery hwritten, hreceived, hq]

def api : Upstream := { base := "http://users", strip := some "/api" }

theorem prefix_stripped_of_users :
    ∃ sent, api.urlFor (received "/api/us%65rs?page=2") = "http://users" ++ sent ∧
      "/api" ++ decode (splitTarget sent).1 = pathOf "/api/us%65rs?page=2" ∧
      (splitTarget sent).2 = (splitTarget "/api/us%65rs?page=2").2 :=
  (prefix_stripped (u := api) rfl (by decide +kernel)).mpr (by decide +kernel)

/-- The prefix is matched in the decoded path, and looked for in the target as it arrived. -/
theorem prefix_not_stripped : (Routes.add [] "/api/*" api).find (pathOf "/%61pi/users") = some api ∧
    pathOf "/%61pi/users" = "/api/users" ∧ api.urlFor (received "/%61pi/users") = "http://users/%61pi/users" := by
  decide +kernel

end Rustlavel.Gateway
