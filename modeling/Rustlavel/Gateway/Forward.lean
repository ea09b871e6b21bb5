/-
  The headers that cross the gateway: `rustlavel-gateway/src/forward.rs`, with `is_forwardable` of `route.rs`.
-/

import Rustlavel.Http.Response

namespace Rustlavel.Gateway

open Http Text List Headers

def hopByHop : List String :=
  ["connection", "keep-alive", "proxy-authenticate", "proxy-authorization", "te", "trailer", "transfer-encoding",
    "upgrade", "content-length", "host"]

def isForwardable (name : String) : Bool := lowercase name ∉ hopByHop

def copy (into h : Headers) : Headers :=
  h.entries.foldl (fun out entry => if isForwardable entry.1 then out.set entry.1 entry.2 else out) into

variable (lines : List (String × String))

variable {h into : Headers} {name : String}

end Rustlavel.Gateway
