/-
  Where a message ends. The fields of a head, as they stand in it, say how long the body is (`Framed`) or
  contradict each other (`Ambiguous`).
-/

import Rustlavel.Http.Stream

namespace Rustlavel.Http

open Outcome Reading Text List Utf8 Headers

/-! ## Fields -/

variable (fields : List (List Char × List Char))

variable {field : List Char × List Char} {name : String} {headers : Headers} {line : List UInt8}

namespace Server

variable {S : Server} {fuel : Nat} {rest before head : List UInt8} {r : List UInt8 × List UInt8}
  {taken body : List UInt8}

end Server

end Rustlavel.Http
