/-
  How a route is matched with a path (`match_path` of `rustlavel-http/src/router.rs`), and the path and query of a
  request that comes over the wire.
-/

import Rustlavel.Http.Server
import Rustlavel.Lib.Words

namespace Rustlavel.Http

open Outcome Reading Text List Utf8 Url Request Bool

/-! ## Routes -/

inductive Segment where
  | static (text : String)
  | param (name : String)
  /-- The rest of the path, slashes included. -/
  | wildcard (name : String)
  deriving DecidableEq

structure Route where
  method : Method
  pattern : String
  segments : List Segment
  deriving DecidableEq

abbrev Params : Type := List (String × String)

def Params.insert (params : Params) (name value : String) : Params :=
  params.filter (fun p => p.1 != name) ++ [(name, value)]

def splitPath (path : String) : List (List Char) := (path.toList.splitOn '/').filter fun part => !part.isEmpty

def matchSegments : List Segment → List (List Char) → Params → Option Params
  | [], [], params => some params
  | [], _ :: _, _ => none
  | .wildcard name :: _, parts, params =>
    some (params.insert name (decode (String.ofList (['/'].intercalate parts))))
  | .static _ :: _, [], _ => none
  | .static expected :: segments, part :: parts, params =>
    if String.ofList part = expected then matchSegments segments parts params else none
  | .param _ :: _, [], _ => none
  | .param name :: segments, part :: parts, params =>
    if part.isEmpty then none
    else matchSegments segments parts (params.insert name (decode (String.ofList part)))

def Route.matchPath (route : Route) (path : String) : Option Params :=
  matchSegments route.segments (splitPath path) []

variable {method : Method}

/-! ## Requests from the wire -/

def requestHead (method : Method) (target version rest : List Char) : List UInt8 :=
  encode (method.asStr.toList ++ ' ' :: target ++ ' ' :: version ++ '\r' :: '\n' :: rest)

theorem readRequestLine_of_parts {target version : List Char} (htarget : ' ' ∉ target) :
    readRequestLine (method.asStr.toList ++ ' ' :: target ++ ' ' :: version) =
      .ok { method := method, target := target, version := (version.splitOn ' ')[0]?.getD "HTTP/1.1".toList } := by
  have hmethod : ' ' ∉ method.asStr.toList := by cases method <;> decide
  have hsplit : (method.asStr.toList ++ ' ' :: target ++ ' ' :: version).splitOn ' ' =
      method.asStr.toList :: target :: version.splitOn ' ' := by
    rw [append_assoc, cons_append, splitOn_append_cons_self_of_not_mem hmethod,
      splitOn_append_cons_self_of_not_mem htarget]
  rw [readRequestLine, hsplit]
  simp only [headD_cons, String.ofList_toList, Method.parse_asStr, List.getElem?_cons_succ, List.getElem?_cons_zero]

theorem request_of_parse {S : Server} {target version rest : List Char} {peer : IpAddr.Ip} {conn conn' : Conn}
    {request : Request} {keepAlive : Bool} (hspace : ' ' ∉ target) (htarget : '\r' ∉ target) (hversion : '\r' ∉ version)
    (hparse : S.parse (requestHead method target version rest) peer conn = .ok ((request, keepAlive), conn')) :
    request.method = method ∧ (request.path, request.query) =
      (splitTarget (String.ofList (originForm target))).map decode parseQuery := by
  have hline : '\r' ∉ method.asStr.toList ++ ' ' :: target ++ ' ' :: version := by
    have hmethod : '\r' ∉ method.asStr.toList := by cases method <;> decide
    simp [hmethod, htarget, hversion]
  obtain ⟨_, hparsed, hparse⟩ := bind_eq_ok.mp hparse
  obtain ⟨_, -, hparse⟩ := bind_eq_ok.mp hparse
  cases hparse
  rw [parseHead, requestHead, fromUtf8_encode] at hparsed
  simp only at hparsed
  rw [splitCrlf_append hline, headD_cons, tail_cons] at hparsed
  rw [readRequestLine_of_parts hspace, ok_bind] at hparsed
  obtain ⟨_, -, hparsed⟩ := bind_eq_ok.mp hparsed
  obtain ⟨⟨⟩, -, hparsed⟩ := bind_eq_ok.mp hparsed
  cases hparsed
  exact ⟨rfl, by simp only [Head.request, Prod.map]⟩

theorem originForm_of_no_scheme {target : List Char} (h : ¬ "://".toList <:+: target) : originForm target = target := by
  rw [originForm, position_eq_none h]

end Rustlavel.Http
