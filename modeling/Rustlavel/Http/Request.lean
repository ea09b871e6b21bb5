/-
  Requests and their headers: `rustlavel-http/src/request.rs`, `headers.rs` and `method.rs`. Of the values
  middleware attaches to a request, what a proxy said of the client (`Forwarded`) is kept here.
-/

import Rustlavel.Http.Url
import Rustlavel.Lib.IpAddr

namespace Rustlavel.Http

open Text Url

/-! ## Headers -/

def sanitise (text : String) : String := String.ofList (text.toList.filter fun c => c == '\t' || !isControl c)

def lowercase (text : String) : String := String.ofList (text.toList.map Char.toLower)

structure Headers where
  entries : List (String × String) := []
  deriving DecidableEq

namespace Headers

variable (h : Headers) (name : String)

def append (name value : String) : Headers :=
  { entries := h.entries ++ [(lowercase (sanitise name), sanitise value)] }

def getAll : List String :=
  (h.entries.filter fun entry => entry.1 == lowercase name).map (·.2)

def get : Option String := (h.getAll name).head?

def remove : Headers :=
  { entries := h.entries.filter fun entry => entry.1 != lowercase name }

def set (name value : String) : Headers := (h.remove (sanitise name)).append name value

def contentLength : Option Nat :=
  (h.get "content-length").bind fun value => parseUnsigned 10 (2 ^ 64) (trim value.toList)

end Headers

/-! ## Requests -/

inductive Method where
  | get
  | head
  | post
  | put
  | patch
  | delete
  | options
  deriving DecidableEq

namespace Method

def asStr : Method → String
  | .get => "GET"
  | .head => "HEAD"
  | .post => "POST"
  | .put => "PUT"
  | .patch => "PATCH"
  | .delete => "DELETE"
  | .options => "OPTIONS"

def parse (value : String) : Option Method :=
  if value = "GET" then some .get
  else if value = "HEAD" then some .head
  else if value = "POST" then some .post
  else if value = "PUT" then some .put
  else if value = "PATCH" then some .patch
  else if value = "DELETE" then some .delete
  else if value = "OPTIONS" then some .options
  else none

theorem parse_asStr (m : Method) : parse m.asStr = some m := by
  cases m <;> decide

end Method

structure Forwarded where
  ip : Option String := none
  scheme : Option String := none
  host : Option String := none
  port : Option Nat := none
  deriving DecidableEq

structure Request where
  method : Method
  target : String
  path : String
  query : List (String × String)
  headers : Headers := {}
  body : List UInt8 := []
  params : List (String × String) := []
  /-- The address that opened the socket. -/
  peer : Option IpAddr.Ip := none
  route : Option String := none
  forwarded : Option Forwarded := none
  deriving DecidableEq

namespace Request

def new (method : Method) (target : String) : Request :=
  let (path, query) := splitTarget target
  { method := method, target := target, path := path, query := parseQuery query }

variable (r : Request)

def header (name : String) : Option String := r.headers.get name

def ip (r : Request) : Option String :=
  match r.forwarded.bind (·.ip) with
  | some ip => some ip
  | none => r.peer.map IpAddr.Ip.toString

def withHeader (name value : String) : Request := { r with headers := r.headers.set name value }

def withForm (fields : List (String × String)) : Request :=
  { r.withHeader "content-type" "application/x-www-form-urlencoded" with body := Utf8.encode (queryText fields) }

/-- A form is read back field by field, and an escaped text as it was. -/
theorem form_read_back (r : Request) (fields : List (String × String)) (s : String) :
    (Utf8.fromUtf8 (r.withForm fields).body).map (fun text => parseQuery (String.ofList text)) = some fields ∧
    decode (encode s) = s ∧ Url.Escaped (encode s).toList := by
  refine ⟨?_, decode_encode s, escaped_encode s⟩
  rw [withForm, Utf8.fromUtf8_encode, Option.map_some, parseQuery_queryText]

end Request

end Rustlavel.Http
