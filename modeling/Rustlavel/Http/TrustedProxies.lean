/-
  Whose `X-Forwarded-For` to believe: `rustlavel-http/src/trusted_proxies.rs`. A chain of addresses is read from
  the right, trusted ones are passed over, and the first other one is the client.
-/

import Rustlavel.Http.Request

namespace Rustlavel.Http

open Text IpAddr List Request

inductive Trusted where
  | any
  | address (a : Ip)
  | network (base : Ip) (prefixLen : Nat) (h : prefixLen ≤ 8 * base.octets.length)

def inNetwork (base : Ip) (prefixLen : Nat) (address : Ip) : Bool :=
  match base, address with
  | .v4 _, .v6 _ => false
  | .v6 _, .v4 _ => false
  | _, _ =>
    let whole := prefixLen / 8
    let leftover := prefixLen % 8
    if base.octets.take whole != address.octets.take whole then false
    else if leftover = 0 then true
    else
      let mask := UInt8.ofNat (0xff <<< (8 - leftover))
      (base.octets.getD whole 0) &&& mask == (address.octets.getD whole 0) &&& mask

namespace Trusted

def contains : Trusted → Ip → Bool
  | .any, _ => true
  | .address trusted, a => trusted == a
  | .network base prefixLen _, a => inNetwork base prefixLen a

def parse (entry : String) : Option Trusted :=
  let entry := trim entry.toList
  if entry = ['*'] ∨ entry.map Char.toLower = "any".toList then some .any
  else
    match splitOnce '/' entry with
    | none => (IpAddr.parse entry).map .address
    | some (base, prefixText) =>
      match IpAddr.parse (trim base), parseUnsigned 10 256 (trim prefixText) with
      | some base, some prefixLen =>
        if h : prefixLen ≤ 8 * base.octets.length then some (.network base prefixLen h) else none
      | _, _ => none

end Trusted

structure TrustProxies where
  proxies : List Trusted

def stripPort (hop : List Char) : List Char :=
  match trim hop with
  | '[' :: rest => rest.takeWhile (· != ']')
  | hop =>
    match rsplitOnce ':' hop with
    | some (address, _) => if ':' ∈ address then hop else address
    | none => hop

namespace TrustProxies

variable (T : TrustProxies)

def «at» (proxies : List String) : TrustProxies := { proxies := proxies.filterMap Trusted.parse }

def trusts (address : Ip) : Bool := T.proxies.any (·.contains address)

def hops (chain : String) : List (List Char) := ((chain.toList.splitOn ',').map trim).filter fun hop => !hop.isEmpty

def walk : List (List Char) → Option (Option String)
  | [] => some none
  | hop :: hops =>
    match IpAddr.parse (stripPort hop) with
    | none => none
    | some address => if T.trusts address then walk hops else some (some address.toString)

def clientFrom (chain : String) : Option String :=
  match T.walk (hops chain).reverse with
  | none => none
  | some (some address) => some address
  | some none => (hops chain).head?.map fun hop => String.ofList (stripPort hop)

def firstItem (value : String) : List Char := trim (value.toList.takeWhile (· != ','))

def forwarded (request : Request) : Forwarded :=
  { ip := (request.header "x-forwarded-for").bind T.clientFrom
    scheme := (request.header "x-forwarded-proto").bind fun value =>
      let scheme := String.ofList ((firstItem value).map Char.toLower)
      if scheme = "http" ∨ scheme = "https" then some scheme else none
    host := (request.header "x-forwarded-host").bind fun value =>
      if (firstItem value).isEmpty then none else some (String.ofList (firstItem value))
    port := (request.header "x-forwarded-port").bind fun value => parseUnsigned 10 65536 (firstItem value) }

def handle (request : Request) : Request :=
  if request.peer.any T.trusts then { request with forwarded := some (T.forwarded request) } else request

/-! ## What a proxy writes -/

def Writes (c : Ip) (element : String) : Prop :=
  IpAddr.parse (stripPort element.toList) = some c ∧ ',' ∉ element.toList ∧ ∀ x ∈ element.toList, isControl x = false

/-- The line a proxy leaves: its own item, or what it was sent with the item added at the end. -/
inductive Line (element : String) : String → Prop where
  | own : Line element element
  | added (sent gap : String) (hgap : ∀ x ∈ gap.toList, x = ' ') : Line element (sent ++ "," ++ gap ++ element)

theorem clientFrom_of_last {c : Ip} (huntrusted : T.trusts c = false) {front : List (List Char)}
    {element : List Char} {chain : String} (hsplit : chain.toList.splitOn ',' = front ++ [element])
    (helement : IpAddr.parse (stripPort element) = some c) : T.clientFrom chain = some c.toString := by
  have hne : trim element ≠ [] := by
    intro hnil
    rw [stripPort, hnil] at helement
    cases helement
  have hhops : hops chain = (front.map trim).filter (fun hop => !hop.isEmpty) ++ [trim element] := by
    rw [hops, hsplit, map_append, filter_append, map_singleton, filter_cons_of_pos (by simpa using hne)]
    rfl
  have hstrip : stripPort (trim element) = stripPort element := by
    rw [stripPort, stripPort, trim_trim]
  rw [clientFrom, hhops, reverse_append, reverse_singleton, singleton_append, walk, hstrip, helement]
  simp only [huntrusted, Bool.false_eq_true, if_false]

theorem splitOn_line {c : Ip} {element line : String} (helement : Writes c element) (hline : Line element line) :
    ∃ front last, (sanitise line).toList.splitOn ',' = front ++ [last] ∧ IpAddr.parse (stripPort last) = some c := by
  obtain ⟨hparse, hcomma, hcontrol⟩ := helement
  have hclean : ∀ x ∈ element.toList, (x == '\t' || !isControl x) = true := by
    intro x hx
    simp [hcontrol x hx]
  cases hline with
  | own =>
    refine ⟨[], element.toList, ?_, hparse⟩
    rw [sanitise, String.toList_ofList, filter_eq_self.mpr hclean, splitOn_eq_singleton hcomma]
    rfl
  | added sent gap hgap =>
    have hspaces : ∀ x ∈ gap.toList, (x == '\t' || !isControl x) = true := by
      intro x hx
      rw [hgap x hx]
      rfl
    -- the client's part of the line may be anything: it ends at the comma
    have hchain : (sanitise (sent ++ "," ++ gap ++ element)).toList =
        (sanitise sent).toList ++ ',' :: (gap.toList ++ element.toList) := by
      simp only [sanitise, String.toList_ofList, String.toList_append, filter_append,
        filter_eq_self.mpr hclean, filter_eq_self.mpr hspaces, append_assoc]
      rfl
    have hnone : ',' ∉ gap.toList ++ element.toList := by
      intro hmem
      rcases mem_append.mp hmem with hmem | hmem
      · exact absurd (hgap _ hmem) (by decide)
      · exact hcomma hmem
    refine ⟨(sanitise sent).toList.splitOn ',', gap.toList ++ element.toList, ?_, ?_⟩
    · rw [hchain, splitOn_append_cons_self, splitOn_eq_singleton hnone]
    · have hspace : ∀ x ∈ gap.toList, isWhitespace x = true := by
        intro x hx
        rw [hgap x hx]
        rfl
      rw [stripPort, trim_append hspace]
      exact hparse

/-- A first line that is one address decides, trusted or not. -/
theorem clientFrom_address {a : Ip} {text : String} (hops : hops text = [text.toList])
    (hparse : IpAddr.parse (stripPort text.toList) = some a) (hwritten : a.toString = text)
    (hstrip : stripPort text.toList = text.toList) : T.clientFrom text = some text := by
  rw [clientFrom, hops, reverse_singleton, walk, hparse]
  cases h : T.trusts a with
  | true => simp [h, walk, hstrip]
  | false => simp [h, hwritten]

/-- Behind a trusted proxy, the client is whoever the proxy saw, whatever it had sent, exactly when no line
    comes before the one the proxy has written to. -/
theorem ip_of_appended (peer c : Ip) (element line : String) (htrusted : T.trusts peer = true)
    (huntrusted : T.trusts c = false) (helement : Writes c element) (hline : Line element line) (lines : Nat) :
    (∀ (request : Request) (before : List String), request.peer = some peer → before.length = lines →
      request.headers.getAll "x-forwarded-for" = (before ++ [line]).map sanitise →
        (T.handle request).ip = some c.toString) ↔ lines = 0 := by
  constructor
  · intro h
    by_contra hlines
    -- two lines that the client may send first, and that are both believed
    have hfirst : ∀ text, sanitise text = text → T.clientFrom text = some text → text = c.toString := by
      intro text hclean hclient
      have hip := h { new .get "/" with
          peer := some peer
          headers := ⟨((text :: replicate (lines - 1) "" ++ [line]).map sanitise).map fun value =>
            ("x-forwarded-for", value)⟩ } (text :: replicate (lines - 1) "") rfl (by simp; omega) (by
        rw [Headers.getAll, filter_eq_self.mpr, map_map]
        · exact map_id _
        · intro entry hentry
          obtain ⟨value, -, rfl⟩ := mem_map.mp hentry
          simp [lowercase])
      rw [handle, if_pos (by simpa using htrusted), ip] at hip
      simpa [forwarded, header, Headers.get, Headers.getAll, lowercase, hclean, hclient] using hip
    have hone := hfirst "203.0.113.9" (by decide)
      (T.clientFrom_address (a := .v4 ⟨[203, 0, 113, 9], rfl⟩) (by decide) (by decide) (by decide) (by decide))
    have hother := hfirst "192.0.2.1" (by decide)
      (T.clientFrom_address (a := .v4 ⟨[192, 0, 2, 1], rfl⟩) (by decide) (by decide) (by decide) (by decide))
    exact absurd (hone.trans hother.symm) (by decide)
  · rintro rfl request before hpeer hlength hget
    obtain rfl := length_eq_zero_iff.mp hlength
    obtain ⟨front, last, hsplit, hparse⟩ := splitOn_line helement hline
    have hclient := T.clientFrom_of_last huntrusted hsplit hparse
    have hany : request.peer.any T.trusts = true := by rw [hpeer, Option.any_some, htrusted]
    rw [handle, if_pos hany, ip]
    simp only [forwarded, header, Headers.get, hget, nil_append, map_singleton, head?_cons, Option.bind_some, hclient]

theorem ip_of_appended_spoofed :
    let T := TrustProxies.at ["10.0.0.0/8"]
    let headers := Headers.append {} "X-Forwarded-For" "203.0.113.9, 198.51.100.7"
    (T.handle { new .get "/" with
      peer := some (Ip.v4 ⟨[10, 0, 0, 1], rfl⟩), headers := headers }).ip = some "198.51.100.7" :=
  (ip_of_appended (TrustProxies.at ["10.0.0.0/8"]) (Ip.v4 ⟨[10, 0, 0, 1], rfl⟩) (Ip.v4 ⟨[198, 51, 100, 7], rfl⟩)
    "198.51.100.7" _ (by decide) (by decide) ⟨by decide, by simp, by simp [isControl]⟩
    (.added "203.0.113.9" " " (by simp)) 0).mpr rfl _ [] rfl rfl (by decide)

/-- With the proxy's line after the client's, the client is who it says it is. -/
theorem further_line_ignored :
    let T := TrustProxies.at ["10.0.0.0/8"]
    let request (sent : String) := { new .get "/" with
      peer := some (Ip.v4 ⟨[10, 0, 0, 1], rfl⟩)
      headers := (Headers.append {} "X-Forwarded-For" sent).append "X-Forwarded-For" "198.51.100.7" }
    (T.handle (request "203.0.113.9")).ip = some "203.0.113.9" ∧
      (T.handle (request "192.0.2.1")).ip = some "192.0.2.1" := by
  decide

end TrustProxies

end Rustlavel.Http
