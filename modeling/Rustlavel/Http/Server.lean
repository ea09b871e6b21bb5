/-
  How a connection becomes requests: `rustlavel-http/src/server.rs`, from `check_framing` to `find_crlf`.
-/

import Rustlavel.Http.Request
import Rustlavel.Lib.Reading

namespace Rustlavel.Http

open Outcome Reading Text String

abbrev Conn : Type := Buffered UInt8

def addUsize (a b : Nat) : Result String Nat := if a + b < 2 ^ 64 then .ok (a + b) else .error .panic

structure Server where
  maxHeaderBytes : Nat
  maxBodyBytes : Nat

/-! ## Framing -/

def listedEncodings (values : List String) : List String :=
  ((values.flatMap fun value => (value.toList.splitOn ',').map trim).filter fun part => !part.isEmpty).map
    ofList

def checkFraming (headers : Headers) : Result String Unit :=
  let lengths := headers.getAll "content-length"
  if 1 < lengths.length && lengths.any (· != lengths.head!) then
    fail "more than one Content-Length, and they disagree"
  else if !lengths.isEmpty && (headers.get "transfer-encoding").isSome then
    fail "both Transfer-Encoding and Content-Length: a message may say where it ends once, not twice"
  else
    let encodings := headers.getAll "transfer-encoding"
    let listed := listedEncodings encodings
    if !encodings.isEmpty && (listed.getLast? != some "chunked" || listed.count "chunked" != 1) then
      fail ("unsupported Transfer-Encoding: " ++ ", ".intercalate listed)
    else .ok ()

/-! ## Reading -/

def crlf : List UInt8 := [13, 10]

variable (buffer : List UInt8)

def findHeadEnd : Option Nat := (position (crlf ++ crlf) buffer).map (· + 4)

def findCrlf : Option Nat := position crlf buffer

/-- What `read_head` finds in the buffer. -/
inductive HeadSeen where
  | ends (offset : Nat)
  | tooLarge

namespace Server

variable (S : Server) (conn : Conn)

def seeHead (buffer : List UInt8) : Option HeadSeen :=
  match findHeadEnd buffer with
  | some e => some (.ends e)
  | none => if S.maxHeaderBytes < buffer.length then some .tooLarge else none

/-- The next head, `none` if the client hung up between requests. -/
def readHead : Result String (Option (List UInt8) × Conn) := do
  let seen ← conn.await S.seeHead (fun _ => 4096)
  match seen.1 with
  | some (.ends e) =>
    let head ← seen.2.drain e
    return (some head.1, head.2)
  | some .tooLarge => fail "request headers are too large"
  | none =>
    if seen.2.buffer.isEmpty then return (none, seen.2)
    else fail "connection closed mid-request"

def awaitCrlf : Result String (Option Nat × Conn) := conn.await findCrlf (fun _ => 4096)

def awaitLength (n : Nat) (ask : List UInt8 → Nat) (conn : Conn) : Result String (Option Unit × Conn) :=
  conn.await (fun buffer => if n ≤ buffer.length then some () else none) ask

def chunkSize (line : List UInt8) : Option Nat :=
  parseUnsigned 16 (2 ^ 64) (trim ((Utf8.lossy line).takeWhile (· != ';')))

def skipTrailers : Nat → Conn → Result String Conn
  | 0, _ => .error .diverged
  | fuel + 1, conn => do
    let line ← awaitCrlf conn
    match line.1 with
    | none => return line.2
    | some e =>
      let rest ← line.2.drain (e + 2)
      if e = 0 then return rest.2 else skipTrailers fuel rest.2

def readChunk (size : Nat) (body : List UInt8) (conn : Conn) : Result String (List UInt8 × Conn) := do
  let total ← addUsize body.length size
  if S.maxBodyBytes < total then fail "request body is too large"
  else
    let need ← addUsize size 2
    let filled ← awaitLength need (fun _ => 4096) conn
    match filled.1 with
    | none => fail "chunked body ended early"
    | some () =>
      let data ← filled.2.drain size
      let rest ← data.2.drain 2
      return (body ++ data.1, rest.2)

def readChunks : Nat → List UInt8 → Conn → Result String (List UInt8 × Conn)
  | 0, _, _ => .error .diverged
  | fuel + 1, body, conn => do
    let line ← awaitCrlf conn
    match line.1 with
    | none => fail "chunked body ended early"
    | some e =>
      let header ← line.2.drain (e + 2)
      match chunkSize (header.1.take e) with
      | none => fail "invalid chunk size"
      | some 0 =>
        let conn ← skipTrailers (header.2.all.length + 1) header.2
        return (body, conn)
      | some size =>
        let chunk ← S.readChunk size body header.2
        readChunks fuel chunk.1 chunk.2

def readChunkedBody : Result String (List UInt8 × Conn) := S.readChunks (conn.all.length + 1) [] conn

def readBody (headers : Headers) (conn : Conn) : Result String (List UInt8 × Conn) :=
  if (headers.get "transfer-encoding").isSome then S.readChunkedBody conn
  else
    match headers.contentLength with
    | none => .ok ([], conn)
    | some length =>
      if S.maxBodyBytes < length then fail "request body is too large"
      else do
        let filled ← awaitLength length (fun buffer => min (length - buffer.length) (64 * 1024)) conn
        match filled.1 with
        | none => fail "request body ended early"
        | some () => filled.2.drain length

end Server

/-! ## The head -/

def readHeaders : List (List Char) → Headers → Result String Headers
  | [], headers => .ok headers
  | line :: lines, headers =>
    if line.isEmpty then readHeaders lines headers
    else
      match splitOnce ':' line with
      | none => fail ("malformed header line: " ++ ofList line)
      | some (name, value) =>
        if name.getLast? = some ' ' ∨ name.getLast? = some '\t' then
          fail "a header name may not be followed by whitespace before the colon"
        else readHeaders lines (headers.append (ofList (trim name)) (ofList (trim value)))

structure RequestLine where
  method : Method
  target : List Char
  version : List Char

def readRequestLine (line : List Char) : Result String RequestLine :=
  let parts := line.splitOn ' '
  match Method.parse (ofList (parts.headD [])) with
  | none => fail "unsupported method"
  | some method =>
    match parts[1]? with
    | none => fail "missing request target"
    | some target =>
      .ok { method := method, target := target, version := (parts[2]?).getD "HTTP/1.1".toList }

def originForm (target : List Char) : List Char :=
  match position "://".toList target with
  | none => target
  | some scheme =>
    match position ['/'] (target.drop (scheme + 3)) with
    | some path => target.drop (scheme + 3 + path)
    | none => ['/']

def keepsAlive (headers : Headers) (version : List Char) : Bool :=
  match headers.get "connection" with
  | some value =>
    if lowercase value = "close" then false
    else if lowercase value = "keep-alive" then true
    else version != "HTTP/1.0".toList
  | none => version != "HTTP/1.0".toList

structure Head where
  line : RequestLine
  headers : Headers

def parseHead (head : List UInt8) : Result String Head :=
  match Utf8.fromUtf8 head with
  | none => fail "headers are not UTF-8"
  | some text => do
    let lines := splitCrlf text
    let line ← readRequestLine (lines.headD [])
    let headers ← readHeaders lines.tail {}
    checkFraming headers
    return { line := line, headers := headers }

def Head.request (head : Head) (peer : IpAddr.Ip) (body : List UInt8) : Request :=
  let target := ofList (originForm head.line.target)
  let parts := Url.splitTarget target
  { Request.new head.line.method target with
    path := Url.decode parts.1
    query := Url.parseQuery parts.2
    headers := head.headers
    peer := some peer
    body := body }

def Head.keepAlive (head : Head) : Bool := keepsAlive head.headers head.line.version

namespace Server

variable (S : Server)

def parse (head : List UInt8) (peer : IpAddr.Ip) (conn : Conn) : Result String ((Request × Bool) × Conn) := do
  let parsed ← parseHead head
  let body ← S.readBody parsed.headers conn
  return ((parsed.request peer body.1, parsed.keepAlive), body.2)

/-! ## Connections -/

inductive Ending (σ : Type) where
  /-- The client hung up between requests, or was told to. -/
  | closed
  /-- A request that was refused, with what it was told. -/
  | refused (message : String)
  /-- A handler took over what is left of the stream. -/
  | upgraded (left : σ)
  /-- `serve_connection` itself failed. -/
  | failed (fault : Fault String)

def Ending.map {σ τ : Type} (f : σ → τ) : Ending σ → Ending τ
  | .closed => .closed
  | .refused message => .refused message
  | .upgraded left => .upgraded (f left)
  | .failed fault => .failed fault

abbrev Dispatched : Type := List (Request × Bool)

def serve (upgrades : Dispatched → Bool) (peer : IpAddr.Ip) : Nat → Dispatched → Conn → Dispatched × Ending Conn
  | 0, done, _ => (done, .failed .diverged)
  | fuel + 1, done, conn =>
    match S.readHead conn with
    | .error fault => (done, .failed fault)
    | .ok (none, _) => (done, .closed)
    | .ok (some head, conn) =>
      match S.parse head peer conn with
      | .error (.error message) => (done, .refused ("malformed request: " ++ message))
      | .error fault => (done, .failed fault)
      | .ok (parsed, conn) =>
        let done := done ++ [parsed]
        if upgrades done then (done, .upgraded conn)
        else if parsed.2 then serve upgrades peer fuel done conn
        else (done, .closed)

def serveConnection (upgrades : Dispatched → Bool) (peer : IpAddr.Ip) (stream : Source UInt8) :
    Dispatched × Ending Conn :=
  S.serve upgrades peer (stream.pending.length + 1) [] { buffer := [], source := stream }

end Server

end Rustlavel.Http
