/-
  Links that prove they came from this application: `rustlavel-auth/src/signed_url.rs`. The MAC, written in
  base64, is a parameter.
-/

import Rustlavel.Http.Url
import Rustlavel.Lib.Reading

namespace Rustlavel.Auth.SignedUrl

open Http.Url Text List Reading String

/-! ## Signing -/

def splitUrl (url : List Char) : List Char × List Char × List Char :=
  let (location, query) := (splitOnce '?' url).getD (url, [])
  let start := match position "://".toList location with
    | some scheme => match (location.drop (scheme + 3)).findIdx? (· = '/') with
      | some offset => scheme + 3 + offset
      | none => location.length
    | none => 0
  (location.take start, location.drop start, query)

def rooted (path : List Char) : List Char := if path.isEmpty then ['/'] else path

def canonical (path : List Char) (pairs : List (String × String)) : List Char :=
  let query := queryText (pairs.mergeSort fun a b => a.1 ≤ b.1)
  if query.isEmpty then rooted path else rooted path ++ '?' :: query

def render (path : List Char) (pairs : List (String × String)) : List Char :=
  if pairs.isEmpty then rooted path else rooted path ++ '?' :: queryText pairs

def signedPairs (query : List Char) (expiresAt : Option Nat) : List (String × String) :=
  ((parseQuery (ofList query)).filter fun pair => pair.1 ≠ "signature" ∧ pair.1 ≠ "expires") ++
    (expiresAt.map fun expires => ("expires", toString expires)).toList

section

variable (mac : List Char → String)

def minted (url : List Char) (expiresAt : Option Nat) : String :=
  mac (canonical (splitUrl url).2.1 (signedPairs (splitUrl url).2.2 expiresAt))

def sign (url : List Char) (expiresAt : Option Nat) : List Char :=
  let (origin, path, query) := splitUrl url
  origin ++ render path (signedPairs query expiresAt ++ [("signature", minted mac url expiresAt)])

inductive SignatureError where
  | missing
  | invalid
  | expired
  deriving DecidableEq

def verify (url : List Char) (now : Nat) : Except SignatureError Unit :=
  let (_, path, query) := splitUrl url
  let pairs := parseQuery (ofList query)
  match pairs.find? fun pair => pair.1 = "signature" with
  | none => .error .missing
  | some (_, signature) =>
    let signed := pairs.filter fun pair => pair.1 ≠ "signature"
    if mac (canonical path signed) ≠ signature then .error .invalid
    else match signed.find? fun pair => pair.1 = "expires" with
      | none => .ok ()
      | some (_, value) => match parseUnsigned 10 (2 ^ 64) value.toList with
        | some expires => if now ≤ expires then .ok () else .error .expired
        | none => .error .invalid

end

/-! ## What a signature covers -/

def location (url : List Char) : List Char := ((splitOnce '?' url).getD (url, [])).1

def query (url : List Char) : List Char := ((splitOnce '?' url).getD (url, [])).2

variable {url path : List Char} {now : Nat}

end Rustlavel.Auth.SignedUrl
