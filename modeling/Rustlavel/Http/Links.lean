/-
  Between the text of a target and what is routed: which part of a target is the path, and the URL a named route
  is turned into (`fill` of `router.rs`).
-/

import Rustlavel.Http.Router

namespace Rustlavel.Http

open Text Words Reading List Option Url Prod String

/-! ## Paths and queries -/

theorem splitTarget_eq (target : List Char) : splitTarget (ofList target) =
    (ofList (target.takeWhile (· ≠ '?')), ofList ((target.dropWhile (· ≠ '?')).drop 1)) := by
  rw [splitTarget, toList_ofList]
  by_cases hmem : '?' ∈ target
  · obtain ⟨path, _, rfl, hpath⟩ := eq_append_cons_of_mem hmem
    have hplain : ∀ c ∈ path, decide (c ≠ '?') = true := fun c hc => decide_eq_true (ne_of_mem_of_not_mem hc hpath)
    rw [splitOnce_append hpath, takeWhile_append_of_pos hplain, dropWhile_append_of_pos hplain]
    simp
  · have hplain : ∀ c ∈ target, decide (c ≠ '?') = true := fun c hc => decide_eq_true (ne_of_mem_of_not_mem hc hmem)
    rw [splitOnce_eq_none hmem, takeWhile_eq_self_iff.mpr hplain, dropWhile_eq_nil_iff.mpr hplain]
    rfl

/-- The slashes of a text, the escaped ones among them. -/
def slashes (text : List Char) : Nat := (decodeChars text).count '/'

theorem slashes_append {sep : Char} (hsep : sep ∈ separators) (a b : List Char) :
    slashes (a ++ sep :: b) = slashes a + slashes b + if sep = '/' then 1 else 0 := by
  rw [slashes, decodeChars_append hsep, count_append, count_cons, slashes, slashes, Nat.add_assoc]
  simp

theorem slashes_append_slash (a b : List Char) : slashes (a ++ '/' :: b) = slashes a + slashes b + 1 :=
  slashes_append (by decide) a b

theorem slashes_cons_slash (b : List Char) : slashes ('/' :: b) = slashes b + 1 := by
  rw [← nil_append ('/' :: b), slashes_append_slash, show slashes [] = 0 from rfl, Nat.zero_add]

theorem slashes_parsePair (part : List Char) :
    (parsePair part).1.toList.count '/' + (parsePair part).2.toList.count '/' = slashes part := by
  rw [parsePair]
  by_cases hmem : '=' ∈ part
  · obtain ⟨key, value, rfl, hkey⟩ := eq_append_cons_of_mem hmem
    rw [splitOnce_append hkey, slashes_append (by decide)]
    simp [decode_eq, slashes]
  · rw [splitOnce_eq_none hmem]
    simp [decode_eq, slashes]

theorem slashes_parseQuery (query : List Char) : ((parseQuery (ofList query)).map fun pair =>
    pair.1.toList.count '/' + pair.2.toList.count '/').sum = slashes query := by
  have hparts (parts : List (List Char)) :
      ((parts.filter fun part => !part.isEmpty).map slashes).sum = slashes (['&'].intercalate parts) := by
    induction parts with
    | nil => rfl
    | cons part parts ih =>
      have hempty : slashes [] = 0 := rfl
      cases parts with
      | nil => cases part <;> simp [hempty]
      | cons =>
        rw [List.intercalate_cons_cons, List.append_assoc, singleton_append, slashes_append (by decide), ← ih]
        cases part <;> simp [hempty]
  rw [parseQuery, toList_ofList, List.map_map]
  have hpairs := hparts (query.splitOn '&')
  rw [intercalate_splitOn] at hpairs
  rw [← hpairs]
  exact congrArg sum (map_congr_left fun part _ => slashes_parsePair part)

/-- No cut of a target loses a slash, and none breaks an escape. -/
theorem slashes_splitTarget (target : List Char) :
    let parsed := (splitTarget (ofList target)).map decode parseQuery
    parsed.1.toList.count '/' + (parsed.2.map fun pair => pair.1.toList.count '/' + pair.2.toList.count '/').sum =
      slashes target := by
  rw [splitTarget, toList_ofList]
  by_cases hmem : '?' ∈ target
  · obtain ⟨path, query, rfl, hpath⟩ := eq_append_cons_of_mem hmem
    rw [splitOnce_append hpath, slashes_append (by decide)]
    simp only [Prod.map, slashes_parseQuery]
    rw [decode_eq, toList_ofList, toList_ofList, ← slashes, if_neg (by decide), Nat.add_zero]
  · rw [splitOnce_eq_none hmem]
    simp only [Prod.map]
    rw [decode_eq, toList_ofList, toList_ofList, ← slashes]
    rfl

/-- What is taken for the target has fewer slashes than an origin-form target with `://` in it. -/
theorem slashes_originForm {target : List Char} (hslash : target.head? = some '/')
    (hscheme : "://".toList <:+: target) :
    slashes (originForm target) < slashes target := by
  obtain ⟨i, hi⟩ := position_of_infix hscheme (by decide)
  obtain ⟨after, hafter⟩ := prefix_of_position hi
  have hdrop : target.drop (i + 3) = after := by
    rw [← drop_drop, ← hafter]
    rfl
  have htaken : slashes (originForm target) ≤ slashes after + 1 := by
    rw [originForm, hi]
    simp only [hdrop]
    split
    · rename_i path hpath
      obtain ⟨tail, htail⟩ := prefix_of_position hpath
      have hsplit := slashes_append_slash (after.take path) tail
      rw [← singleton_append, htail, take_append_drop] at hsplit
      rw [← drop_drop, hdrop, ← htail, singleton_append, slashes_cons_slash]
      omega
    · have hone : slashes ['/'] = 1 := rfl
      omega
  -- two slashes follow the colon, and the first character is a third one
  have htarget : target = target.take i ++ ':' :: '/' :: '/' :: after := by
    conv_lhs => rw [← take_append_drop i target, ← hafter]
    rfl
  obtain ⟨front, hfront⟩ : ∃ front, target.take i = '/' :: front := by
    cases i with
    | zero =>
      rw [take_zero, nil_append] at htarget
      rw [htarget] at hslash
      exact absurd hslash (by simp)
    | succ i =>
      obtain ⟨rest, rfl⟩ := head?_eq_some_iff.mp hslash
      exact ⟨rest.take i, rfl⟩
  have hcount : slashes target = slashes (front ++ [':']) + slashes after + 3 := by
    have hparts : target = '/' :: ((front ++ [':']) ++ '/' :: '/' :: after) := by
      rw [htarget, hfront]
      simp
    rw [hparts, slashes_cons_slash, slashes_append_slash, slashes_cons_slash]
    omega
  omega

/-- A target in origin form is cut at its first question mark and nowhere else, exactly when it has no `://` in it. -/
theorem parse_target (S : Server) (method : Method) (target version rest : List Char) (peer : IpAddr.Ip)
    (conn conn' : Conn) (request : Request) (keepAlive : Bool) (hslash : target.head? = some '/')
    (hspace : ' ' ∉ target) (hline : '\r' ∉ target) (hversion : '\r' ∉ version)
    (hparse : S.parse (requestHead method target version rest) peer conn = .ok ((request, keepAlive), conn')) :
    request.path = decode (ofList (target.takeWhile (· ≠ '?'))) ∧
      request.query = parseQuery (ofList ((target.dropWhile (· ≠ '?')).drop 1)) ↔ ¬ "://".toList <:+: target := by
  obtain ⟨-, hrequest⟩ := request_of_parse hspace hline hversion hparse
  have hcut := splitTarget_eq target
  constructor
  · rintro ⟨hpath, hquery⟩ hscheme
    have hfewer := slashes_originForm hslash hscheme
    -- the same path and query would have the same slashes
    have hsame : slashes (originForm target) = slashes target := by
      rw [← slashes_splitTarget, ← slashes_splitTarget target, ← hrequest, hcut]
      simp only [Prod.map, hpath, hquery]
    omega
  · intro hscheme
    rw [originForm_of_no_scheme hscheme, hcut] at hrequest
    exact ⟨congrArg fst hrequest, congrArg snd hrequest⟩

theorem parse_target_of_search :
    let S : Server := { maxHeaderBytes := 65536, maxBodyBytes := 10485760 }
    let peer := IpAddr.Ip.v4 ⟨[127, 0, 0, 1], rfl⟩
    let conn : Conn := { buffer := [], source := { pending := [], cuts := [] } }
    ∃ r, S.parse (requestHead .get "/a%20b?q=1".toList "HTTP/1.1".toList "\r\n".toList) peer conn = .ok r ∧
      r.1.1.path = decode (ofList ("/a%20b?q=1".toList.takeWhile (· ≠ '?'))) := by
  intro S peer conn
  refine ⟨_, rfl, ?_⟩
  exact ((parse_target S .get "/a%20b?q=1".toList "HTTP/1.1".toList "\r\n".toList peer conn _ _ _ (by decide)
    (by decide) (by decide) (by decide) rfl).mpr (by decide +kernel)).1

/-- An address in the query of a target is taken for the target. -/
theorem query_taken_for_host :
    let S : Server := { maxHeaderBytes := 65536, maxBodyBytes := 10485760 }
    let peer := IpAddr.Ip.v4 ⟨[127, 0, 0, 1], rfl⟩
    let conn : Conn := { buffer := [], source := { pending := [], cuts := [] } }
    let head := requestHead .get "/login?next=http://shop.test/admin?x=1".toList "HTTP/1.1".toList "\r\n".toList
    (S.parse head peer conn).toOption.map (fun r => (r.1.1.path, r.1.1.query)) = some ("/admin", [("x", "1")]) := by
  decide

/-! ## Patterns and URLs -/

def parsePattern (pattern : String) : List Segment := (splitPath pattern).map fun part =>
    match part with
    | '\x7b' :: name =>
      if name.getLast? = some '\x7d' then
        if [':', '*'].isSuffixOf name.dropLast then .wildcard (ofList (name.dropLast.take (name.length - 3)))
        else .param (ofList name.dropLast)
      else .static (ofList part)
    | _ => .static (ofList part)

def lookup (params : Params) (key : String) : Option String := (params.find? (·.1 == key)).map (·.2)

def Segment.fill (params : Params) : Segment → Option (List Char)
  | .static text => some text.toList
  | .param name => (lookup params name).map fun value => (encode value).toList
  | .wildcard name => (lookup params name).map String.toList

def fillSegments (params : Params) : List Segment → Option (List Char)
  | [] => some []
  | segment :: segments => do return '/' :: (← segment.fill params) ++ (← fillSegments params segments)

def fill (segments : List Segment) (params : Params) : Option String :=
  (fillSegments params segments).map fun out => if out.isEmpty then "/" else ofList out

/-- The names a pattern binds, in order. -/
def bound (segments : List Segment) : List String := segments.filterMap fun
  | .static _ => none
  | .param name | .wildcard name => some name

/-- A value that is there, and in a wildcard has no slash too many. -/
def Segment.Assigned (params : Params) : Segment → Prop
  | .static _ => True
  | .param name => lookup params name ≠ some ""
  | .wildcard name => ∀ value, lookup params name = some value → [] ∉ value.toList.splitOn '/'

/-- Nothing that ends the path, and in a wildcard nothing that is decoded to something else. -/
def Segment.Restorable (params : Params) : Segment → Prop
  | .static text => '?' ∉ text.toList
  | .param _ => True
  | .wildcard name => ∀ value, lookup params name = some value → decode value = value ∧ '?' ∉ value.toList

variable {params : Params} {segments : List Segment}

theorem words_slash (out : List Char) : words (· == '/') ('/' :: out) = words (· == '/') out := by
  rfl

/-- What comes before the first question mark. -/
abbrev beforeQuery (out : List Char) : List Char := out.takeWhile (· ≠ '?')

theorem beforeQuery_append {text : List Char} (h : '?' ∉ text) (out : List Char) :
    beforeQuery (text ++ out) = text ++ beforeQuery out :=
  takeWhile_append_of_pos fun _ hc => decide_eq_true (ne_of_mem_of_not_mem hc h)

theorem beforeQuery_cut {text : List Char} (h : '?' ∉ text) (rest : List Char) :
    beforeQuery (text ++ '?' :: rest) = text := by
  rw [beforeQuery_append h, beforeQuery, takeWhile_cons_of_neg (by simp), append_nil]

theorem words_fillSegments {text out : List Char} (htext : IsWord (· == '/') text)
    (hout : fillSegments params segments = some out) :
    words (· == '/') ('/' :: text ++ beforeQuery out) = text :: words (· == '/') (beforeQuery out) := by
  rw [cons_append, words_slash]
  have hkept (rest : List (List Char)) : (text :: rest).filter (!·.isEmpty) = text :: rest.filter (!·.isEmpty) :=
    filter_cons_of_pos (by simpa using htext.1)
  cases segments with
  | nil =>
    cases hout
    rw [beforeQuery, takeWhile_nil, append_nil, words, splitOnP_eq_singleton htext.2, hkept]
    rfl
  | cons =>
    obtain ⟨_, -, hout⟩ := bind_eq_some_iff.mp hout
    obtain ⟨_, -, hout⟩ := bind_eq_some_iff.mp hout
    cases hout
    rw [cons_append, beforeQuery, takeWhile_cons_of_pos (by decide), words_slash, words,
      splitOnP_append_cons_of_forall_mem htext.2 '/' rfl, hkept]
    rfl

theorem isWord_encode {value : String} (hvalue : value ≠ "") : IsWord (· == '/') (encode value).toList := by
  constructor
  · intro hnil
    have hempty : encode value = "" := toList_inj.mp hnil
    rw [← decode_encode value, hempty] at hvalue
    exact hvalue rfl
  · intro c hc
    exact beq_eq_false_iff_ne.mpr (ne_of_mem_of_not_mem hc (not_mem_encode value (by decide)))

theorem Params.insert_fresh {found : Params} {name : String} (hname : name ∉ found.map fst) (value : String) :
    found.insert name value = found ++ [(name, value)] := by
  rw [Params.insert, filter_eq_self.mpr]
  intro p hp
  exact bne_iff_ne.mpr (ne_of_mem_of_not_mem (mem_map_of_mem hp) hname)

def assigned (params : Params) (segments : List Segment) : Params :=
  (bound segments).map fun name => (name, (lookup params name).getD "")

/-- A wildcard's value is cut at a question mark: what is decoded has fewer percent and question marks. -/
theorem decode_cut_ne {value : List Char} (h : '?' ∈ value) :
    decodeChars (['/'].intercalate (words (· == '/') (beforeQuery value))) ≠ value := by
  intro heq
  have hless := count_decodeChars (by decide : '?' ∈ separators)
    (['/'].intercalate (words (· == '/') (beforeQuery value))) []
  rw [List.append_nil, heq, show decodeChars [] = [] from rfl] at hless
  have hparts (c : Char) (hc : c ≠ '/') (parts : List (List Char)) :
      (['/'].intercalate (parts.filter (!·.isEmpty))).count c = (['/'].intercalate parts).count c := by
    have hsum : ∀ parts : List (List Char), (['/'].intercalate parts).count c = (parts.map (List.count c)).sum := by
      intro parts
      induction parts with
      | nil => rfl
      | cons part parts ih =>
        cases parts with
        | nil => simp
        | cons =>
          rw [List.intercalate_cons_cons, count_append, count_append, ih]
          simp [hc.symm]
    rw [hsum, hsum]
    induction parts with
    | nil => rfl
    | cons part parts ih => cases part <;> simp [ih]
  have hwords (c : Char) (hc : c ≠ '/') :
      (['/'].intercalate (words (· == '/') (beforeQuery value))).count c = (beforeQuery value).count c := by
    rw [words, hparts c hc]
    exact congrArg (List.count c) (intercalate_splitOn ..)
  obtain ⟨front, rest, hvalue, hfront⟩ := eq_append_cons_of_mem h
  have hcut : beforeQuery value = front := by rw [hvalue, beforeQuery_cut hfront]
  rw [hwords '%' (by decide), hwords '?' (by decide), hcut, hvalue] at hless
  simp only [count_append, count_cons_self, count_nil] at hless
  omega

theorem matchSegments_fill (hwords : ∀ text, .static text ∈ segments → IsWord (· == '/') text.toList)
    (hlast : segments.Pairwise fun segment _ => ∀ name, segment ≠ .wildcard name)
    (hvalues : ∀ segment ∈ segments, segment.Assigned params) {found : Params}
    (hnames : (found.map fst ++ bound segments).Nodup) {out : List Char}
    (hout : fillSegments params segments = some out) :
    matchSegments segments (words (· == '/') (beforeQuery out)) found = some (found ++ assigned params segments) ↔
      ∀ segment ∈ segments, segment.Restorable params := by
  induction segments generalizing found out with
  | nil =>
    cases hout
    simp [assigned, bound, words, matchSegments]
  | cons segment segments ih =>
    obtain ⟨text, htext, hout⟩ := bind_eq_some_iff.mp hout
    obtain ⟨rest', hrest, hout⟩ := bind_eq_some_iff.mp hout
    cases hout
    obtain ⟨hhead, htail⟩ := pairwise_cons.mp hlast
    obtain ⟨hvalue, hvalues'⟩ := forall_mem_cons.mp hvalues
    have hwords' : ∀ text, .static text ∈ segments → IsWord (· == '/') text.toList :=
      fun text hmem => hwords text (mem_cons_of_mem _ hmem)
    rw [forall_mem_cons]
    cases segment with
    | static expected =>
      cases htext
      have hword := hwords expected mem_cons_self
      by_cases hplain : '?' ∈ expected.toList
      · -- the path ends in this segment, which is not found
        refine ⟨fun hmatch => ?_, fun hfits => absurd hplain hfits.1⟩
        obtain ⟨front, rest, hsplit, hfront⟩ := eq_append_cons_of_mem hplain
        have hcut : words (· == '/') (beforeQuery ('/' :: expected.toList ++ rest')) =
            if front = [] then [] else [front] := by
          have hslash : ∀ c ∈ front, (c == '/') = false := fun c hc => hword.2 c (hsplit ▸ mem_append_left _ hc)
          have htext : '/' :: expected.toList ++ rest' = ('/' :: front) ++ '?' :: (rest ++ rest') := by simp [hsplit]
          rw [htext, beforeQuery_cut (by simp [hfront]), words_slash, words, splitOnP_eq_singleton hslash]
          cases front <;> simp
        rw [hcut] at hmatch
        split at hmatch
        · cases hmatch
        · rw [matchSegments] at hmatch
          split at hmatch
          · rename_i hsame
            rw [← hsame, toList_ofList] at hplain
            exact absurd hplain hfront
          · cases hmatch
      · rw [beforeQuery_append (by simp [hplain]), words_fillSegments hword hrest, matchSegments,
          if_pos String.ofList_toList, show assigned params (.static expected :: segments) = assigned params segments
          from rfl, ih hwords' htail hvalues' hnames hrest]
        exact ⟨fun h => ⟨hplain, h⟩, And.right⟩
    | param name =>
      obtain ⟨value, hlookup, rfl⟩ := map_eq_some_iff.mp htext
      have hword : IsWord (· == '/') (encode value).toList := isWord_encode fun hempty => hvalue (hempty ▸ hlookup)
      have hfresh : name ∉ found.map fst := fun hmem => (nodup_append.mp hnames).2.2 _ hmem _ mem_cons_self rfl
      have hnames' : ((found ++ [(name, value)]).map fst ++ bound segments).Nodup := by
        simpa [bound] using hnames
      have hassigned : found ++ assigned params (.param name :: segments) =
          found ++ [(name, value)] ++ assigned params segments := by simp [assigned, bound, hlookup]
      rw [beforeQuery_append (by simp [not_mem_encode value (c := '?') (by decide)]),
        words_fillSegments hword hrest, matchSegments, if_neg (by simpa using hword.1), String.ofList_toList,
        decode_encode, Params.insert_fresh hfresh, hassigned, ih hwords' htail hvalues' hnames' hrest]
      exact ⟨fun h => ⟨trivial, h⟩, And.right⟩
    | wildcard name =>
      obtain ⟨value, hlookup, rfl⟩ := map_eq_some_iff.mp htext
      have hnil : segments = [] := eq_nil_iff_forall_not_mem.mpr fun s hs => hhead s hs name rfl
      subst hnil
      cases hrest
      have hfresh : name ∉ found.map fst := fun hmem => (nodup_append.mp hnames).2.2 _ hmem _ mem_cons_self rfl
      have hassigned : assigned params [.wildcard name] = [(name, value)] := by simp [assigned, bound, hlookup]
      have hfits : Segment.Restorable params (.wildcard name) ↔ decode value = value ∧ '?' ∉ value.toList := by
        simp [Segment.Restorable, hlookup]
      rw [append_nil, beforeQuery, takeWhile_cons_of_pos (by decide), words_slash, matchSegments,
        Params.insert_fresh hfresh, hassigned, hfits, decode_eq, toList_ofList]
      simp only [some.injEq, append_cancel_left_eq, cons.injEq, Prod.mk.injEq, and_true, true_and]
      by_cases hplain : '?' ∈ value.toList
      · refine ⟨fun heq => absurd (congrArg String.toList heq) ?_, fun hfits => absurd hplain hfits.1.2⟩
        rw [toList_ofList]
        exact decode_cut_ne hplain
      · have hkept : words (· == '/') value.toList = value.toList.splitOn '/' :=
          filter_eq_self.mpr fun part hpart => by simpa using ne_of_mem_of_not_mem hpart (hvalue value hlookup)
        have hcut : value.toList.takeWhile (· ≠ '?') = value.toList :=
          takeWhile_eq_self_iff.mpr fun c hc => decide_eq_true (ne_of_mem_of_not_mem hc hplain)
        rw [hcut, hkept, intercalate_splitOn, ← decode_eq]
        simp [hplain]

theorem isWord_parsePattern {pattern text : String} (h : .static text ∈ parsePattern pattern) :
    IsWord (· == '/') text.toList := by
  obtain ⟨part, hpart, htext⟩ := mem_map.mp h
  have hword := isWord_of_mem_words hpart
  suffices hsame : ofList part = text by rwa [← hsame, toList_ofList]
  revert htext
  split
  · split
    · split <;> exact nofun
    · exact Segment.static.inj
  · exact Segment.static.inj

/-- A route's URL is answered by the route with the values it was made from, exactly when no static segment has a
    question mark and the wildcard's value has none and is decoded to itself. -/
theorem matchPath_fill (route : Route) (params : Params) (url : String)
    (hpattern : route.segments = parsePattern route.pattern) (hnames : (bound route.segments).Nodup)
    (hlast : route.segments.Pairwise fun segment _ => ∀ name, segment ≠ .wildcard name)
    (hvalues : ∀ segment ∈ route.segments, segment.Assigned params) (hurl : fill route.segments params = some url) :
    route.matchPath (splitTarget url).1 = some (assigned params route.segments) ↔
      ∀ segment ∈ route.segments, segment.Restorable params := by
  obtain ⟨out, hout, rfl⟩ := map_eq_some_iff.mp hurl
  have hwords : ∀ text, .static text ∈ route.segments → IsWord (· == '/') text.toList :=
    fun text hmem => isWord_parsePattern (hpattern ▸ hmem)
  rw [← @matchSegments_fill params _ hwords hlast hvalues [] hnames out hout]
  cases out with
  | nil => rfl
  | cons c out =>
    rw [isEmpty_cons, if_neg Bool.false_ne_true, splitTarget_eq, Route.matchPath, splitPath, toList_ofList]
    rfl

theorem matchPath_fill_of_file :
    let segments := parsePattern "/files/\x7bowner\x7d/\x7bpath:*\x7d"
    let params := [("path", "a/100%"), ("owner", "x y")]
    fill segments params = some "/files/x%20y/a/100%" ∧
      (Route.mk .get "/files/\x7bowner\x7d/\x7bpath:*\x7d" segments).matchPath
        (splitTarget "/files/x%20y/a/100%").1 = some (assigned params segments) := by
  intro segments params
  have hurl : fill segments params = some "/files/x%20y/a/100%" := by decide
  have hsegments : segments = [.static "files", .param "owner", .wildcard "path"] := by decide
  refine ⟨hurl, ?_⟩
  have hpath : ∀ value, lookup params "path" = some value → value = "a/100%" :=
    fun value hvalue => (some.inj hvalue).symm
  have hvalues : ∀ segment ∈ segments, segment.Assigned params := by
    rw [hsegments]
    simp only [forall_mem_cons, Segment.Assigned]
    exact ⟨trivial, by decide, fun value hvalue => hpath value hvalue ▸ by decide, nofun⟩
  refine (matchPath_fill ⟨.get, _, segments⟩ params _ rfl (by decide) (by rw [hsegments]; simp) hvalues hurl).mpr ?_
  rw [hsegments]
  simp only [forall_mem_cons, Segment.Restorable]
  exact ⟨by decide, trivial, fun value hvalue => hpath value hvalue ▸ by decide, nofun⟩

/-- The escapes in a wildcard's value do not survive. -/
theorem wildcard_not_restored :
    let segments := parsePattern "/\x7bpath:*\x7d"
    fill segments [("path", "a%20b")] = some "/a%20b" ∧
      (Route.mk .get "/\x7bpath:*\x7d" segments).matchPath "/a%20b" = some [("path", "a b")] := by
  decide

end Rustlavel.Http
