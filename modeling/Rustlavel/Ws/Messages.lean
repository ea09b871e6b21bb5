/-
  What `recv` makes of a stream of messages. A message is sent in fragments, with pings and pongs between them,
  and the stream arrives in reads of any size.
-/

import Rustlavel.Ws.Connection

namespace Rustlavel.Ws

open Outcome Reading Utf8 List Message Nat

/-! ## What a peer sends -/

/-- A ping or a pong, whose payload is short by the protocol. -/
structure Control where
  isPing : Bool
  mask : Mask
  payload : List UInt8
  short : payload.length ≤ 125

def Control.frame (c : Control) : Frame :=
  { fin := true, opcode := if c.isPing then .ping else .pong, mask := some c.mask, payload := c.payload }

/-- A data frame of a message, with the control frames that come before it. -/
structure Piece where
  controls : List Control
  mask : Mask
  payload : List UInt8

/-- A message as a client cuts it up: the pieces, the first one with the opcode. -/
structure Plan where
  opcode : OpCode
  first : Piece
  more : List Piece
  data : opcode = .text ∨ opcode = .binary

def Piece.frame (p : Piece) (opcode : OpCode) (fin : Bool) : Frame :=
  { fin := fin, opcode := opcode, mask := some p.mask, payload := p.payload }

def Piece.frames (p : Piece) (opcode : OpCode) (fin : Bool) : List Frame :=
  p.controls.map Control.frame ++ [p.frame opcode fin]

/-- The frames after the first, of which the last one ends the message. -/
def continuations : List Piece → List Frame
  | [] => []
  | p :: ps => p.frames .continuation ps.isEmpty ++ continuations ps

def payloads (ps : List Piece) : List UInt8 := ps.flatMap Piece.payload

def pings (cs : List Control) : List (List UInt8) := (cs.filter Control.isPing).map Control.payload

namespace Plan

def frames (plan : Plan) : List Frame := plan.first.frames plan.opcode plan.more.isEmpty ++ continuations plan.more

def bytes (plan : Plan) : List UInt8 := plan.frames.flatMap Frame.encode

def payload (plan : Plan) : List UInt8 := plan.first.payload ++ payloads plan.more

/-- What has to be answered with pongs, in order. -/
def pings (plan : Plan) : List (List UInt8) := (plan.first :: plan.more).flatMap fun p => Ws.pings p.controls

/-- What the receiver should get: the whole payload, checked as text if it is text. -/
def message (plan : Plan) : Except WsError Message := fromData plan.opcode plan.payload

end Plan

/-- A piece within the limit for frames, of a length that a frame can have. -/
structure Piece.Fits (config : Config) (p : Piece) : Prop where
  payload : p.payload.length ≤ config.maxFrameSize
  size : p.payload.length < 2 ^ 63
  controls : ∀ c ∈ p.controls, c.payload.length ≤ config.maxFrameSize

/-- A message within both limits. -/
structure Plan.Fits (config : Config) (plan : Plan) : Prop where
  pieces : ∀ p ∈ plan.first :: plan.more, p.Fits config
  message : plan.payload.length ≤ config.maxMessageSize

/-! ## Reading one frame -/

variable {fuel : Nat} {r : Option Message × WebSocket} {input : Buffered UInt8} {payload : List UInt8}
  {opcode : OpCode}

section

variable {f : Frame} {max : Nat} {rest : List UInt8}

theorem readLoop_frame (hlegal : f.Legal .server) (hmax : f.payload.length ≤ max)
    (budget : Option Nat) (hall : input.all = f.encode ++ rest) (hfuel : input.source.pending.length < fuel) :
    ∃ input', (readLoop max fuel budget input = .ok (.frame f, input') ∧ input'.all = rest) ∨
      (budget ≠ none ∧ readLoop max fuel budget input = .ok (.late, input') ∧ input'.all = input.all) := by
  have hreads := Frame.reads_encode hlegal hmax
  have hstable := Frame.stable_decoder .server max
  induction fuel generalizing budget input with
  | zero => omega
  | succ fuel ih =>
    have hbegins : input.buffer <+: f.encode ++ rest := hall ▸ prefix_append _ _
    rcases lt_or_ge input.buffer.length f.encode.length with hshort | hlong
    · -- not all of the frame is there
      have hfront := prefix_of_prefix_length_le hbegins (prefix_append _ _) (le_of_lt hshort)
      have hne : input.buffer ≠ f.encode := fun heq => absurd (heq ▸ hshort) (lt_irrefl _)
      have hnone : Frame.decode input.buffer .server max = .ok none := hreads.undecided hstable hfront hne
      rw [readLoop, hnone]
      by_cases hbudget : budget = some 0
      · refine ⟨input, .inr ⟨by simp [hbudget], ?_, rfl⟩⟩
        rw [if_pos hbudget]
      · obtain ⟨hsplit, hnil⟩ := input.source.read_spec 8192
        generalize input.source.read 8192 = r at hsplit hnil
        obtain ⟨chunk, source⟩ := r
        simp only at hsplit hnil ⊢
        have hread : chunk ≠ [] := by
          intro hempty
          rcases hnil hempty with hzero | hend
          · cases hzero
          · rw [Buffered.all, hend, append_nil] at hall
            rw [hall, length_append] at hshort
            omega
        have hall' : Buffered.all { buffer := input.buffer ++ chunk, source := source } = input.all := by
          rw [Buffered.all, Buffered.all, append_assoc, hsplit]
        have hless : source.pending.length < fuel := by
          have hlength := congrArg List.length hsplit
          have hpos := length_pos_iff.mpr hread
          rw [length_append] at hlength
          omega
        obtain ⟨input', hnext⟩ := ih (budget.map (· - 1)) (hall'.trans hall) hless
        rw [if_neg hbudget, if_neg (by simpa using hread)]
        rw [hall'] at hnext
        refine ⟨input', hnext.imp_right fun h => ⟨?_, h.2⟩⟩
        intro hbudget'
        rw [hbudget'] at h
        exact h.1 rfl
    · -- the frame, and perhaps more
      have hfront := prefix_of_prefix_length_le (prefix_append _ _) hbegins hlong
      obtain ⟨beyond, hbuffer⟩ := hfront
      have hsome : Frame.decode input.buffer .server max = .ok (some (f, f.encode.length)) := by
        rw [← hbuffer]
        exact hreads.decode beyond
      obtain ⟨input', hdrain, hall'⟩ := Buffered.drain_spec (ε := Empty) (b := input) hlong
      refine ⟨input', .inl ⟨?_, ?_⟩⟩
      · rw [readLoop, hsome]
        simp only
        rw [hdrain, ok_bind]
      · rw [hall', hall, drop_left]

end

/-! ## Between frames -/

/-- No two reads in a row time out, so that a ping is answered before the next one would be due. -/
def Patient (timers : List (Option Nat)) : Prop := timers.IsChain fun a b => a = none ∨ b = none

/-- The payloads of the pongs among what was sent. -/
def pongs (outgoing : List Message) : List (List UInt8) := outgoing.filterMap fun
    | .pong payload => some payload
    | _ => none

namespace WebSocket

/-- An open connection that waits for nothing: what holds between two messages. -/
structure Ready (ws : WebSocket) : Prop where
  opened : ws.closed = false
  unclosed : ws.closeFrame = none
  room : ws.room = none
  awaiting : ws.awaitingPong = false
  patient : Patient ws.timers

/-- What a stretch of reading leaves as it was, and the pongs `sent` on the way. -/
structure Went (ws ws' : WebSocket) (sent : List (List UInt8)) : Prop where
  config : ws'.config = ws.config
  pongs : pongs ws'.outgoing = pongs ws.outgoing ++ sent

theorem Went.refl (ws : WebSocket) : Went ws ws [] := ⟨rfl, (append_nil _).symm⟩

variable {ws' : WebSocket} {sent sent' : List (List UInt8)} {opcode : OpCode} {checked : Nat}
  {bytes : List UInt8} {plan : Plan} {rest : List UInt8} {ws : WebSocket}

theorem Went.trans {ws ws'' : WebSocket} (h : Went ws ws' sent)
    (h' : Went ws' ws'' sent') : Went ws ws'' (sent ++ sent') :=
  ⟨h'.config.trans h.config, by rw [h'.pongs, h.pongs, append_assoc]⟩

section

variable {ws : WebSocket} {f : Frame} {rest : List UInt8} (hready : ws.Ready) (hlegal : f.Legal .server)
  (hmax : f.payload.length ≤ ws.config.maxFrameSize) (hall : ws.input.all = f.encode ++ rest)

include hlegal hmax hall

theorem readFrame_frame (budget : Option Nat) :
    ∃ input, (ws.readFrame budget = .ok (.frame f, { ws with input := input }) ∧ input.all = rest) ∨
      (budget ≠ none ∧ ws.readFrame budget = .ok (.late, { ws with input := input }) ∧ input.all = ws.input.all) := by
  obtain ⟨input, hread⟩ := readLoop_frame hlegal hmax budget hall (lt_succ_self _)
  refine ⟨input, hread.imp (fun h => ⟨?_, h.2⟩) fun h => ⟨h.1, ?_, h.2.2⟩⟩
  · rw [readFrame, h.1, ok_bind]
  · rw [readFrame, h.2.1, ok_bind]

theorem readFrame_none :
    ∃ input, ws.readFrame none = .ok (.frame f, { ws with input := input }) ∧ input.all = rest := by
  obtain ⟨input, hread | ⟨hne, -⟩⟩ := readFrame_frame hlegal hmax hall none
  · exact ⟨input, hread⟩
  · exact absurd rfl hne

theorem nextFrameLoop_quiet (timers : List (Option Nat)) (hquiet : ∀ budget ∈ timers.head?, budget = none) :
    ∃ input, nextFrameLoop timers ws = .ok (.frame f, { ws with input := input, timers := timers.tail }) ∧
      input.all = rest := by
  obtain ⟨input, hread, hrest⟩ := readFrame_none hlegal hmax hall
  refine ⟨input, ?_, hrest⟩
  cases timers with
  | nil =>
    rw [nextFrameLoop, hread, ok_bind]
    rfl
  | cons budget =>
    rw [hquiet budget rfl, nextFrameLoop, hread, ok_bind, if_pos (by simp)]
    rfl

include hready

theorem nextFrame_frame :
    ∃ ws', ws.nextFrame = .ok (.frame f, ws') ∧ ws'.input.all = rest ∧ ws'.assembling = ws.assembling ∧
      Ready { ws' with awaitingPong := false } ∧ Went ws ws' [] := by
  obtain ⟨hopened, hunclosed, hroom, hawaiting, hpatient⟩ := hready
  rw [nextFrame]
  split
  · cases htimers : ws.timers with
    | nil =>
      obtain ⟨input, hloop, hrest⟩ := nextFrameLoop_quiet hlegal hmax hall [] (by simp)
      exact ⟨_, hloop, hrest, rfl, ⟨hopened, hunclosed, hroom, rfl, List.IsChain.nil⟩, rfl, (append_nil _).symm⟩
    | cons budget timers =>
      rw [htimers] at hpatient
      obtain ⟨input, ⟨hread, hrest⟩ | ⟨hbudget, hlate, hsame⟩⟩ := readFrame_frame hlegal hmax hall budget
      · refine ⟨{ ws with input := input, timers := timers }, ?_, hrest, rfl, ?_, rfl, (append_nil _).symm⟩
        · rw [nextFrameLoop, hread, ok_bind, if_pos (by simp)]
        · exact ⟨hopened, hunclosed, hroom, rfl, hpatient.tail⟩
      · -- the peer is pinged, and answers with the frame
        have hquiet : ∀ next ∈ timers.head?, next = none := by
          intro next hnext
          cases timers with
          | nil => cases hnext
          | cons =>
            cases hnext
            exact (isChain_cons_cons.mp hpatient).1.resolve_left hbudget
        obtain ⟨pinged, hpinged⟩ : ∃ pinged : WebSocket, pinged =
            { ws with input := input, awaitingPong := true, outgoing := ws.outgoing ++ [.ping []] } := ⟨_, rfl⟩
        have hsend : send { ws with input := input, awaitingPong := true } (.ping []) = (true, pinged) := by
          simp [hpinged, send, hroom]
        have hmax' : f.payload.length ≤ pinged.config.maxFrameSize := by
          rw [hpinged]
          exact hmax
        have hall' : pinged.input.all = f.encode ++ rest := by
          rw [hpinged]
          exact hsame.trans hall
        obtain ⟨input', hloop, hrest⟩ := nextFrameLoop_quiet hlegal hmax' hall' timers hquiet
        rw [hpinged] at hloop
        refine ⟨{ ws with
          input := input', awaitingPong := true, outgoing := ws.outgoing ++ [.ping []], timers := timers.tail },
          ?_, hrest, rfl, ⟨hopened, hunclosed, hroom, rfl, hpatient.tail.tail⟩, rfl, ?_⟩
        · rw [nextFrameLoop, hlate, ok_bind, if_neg (by simp)]
          simp only [hawaiting, Bool.false_eq_true, if_false, hsend, if_true, hpinged]
          exact hloop
        · simp [pongs]
  · obtain ⟨_, hread, hrest⟩ := readFrame_none hlegal hmax hall
    exact ⟨_, hread, hrest, rfl, ⟨hopened, hunclosed, hroom, rfl, hpatient⟩, rfl, (append_nil _).symm⟩

theorem recvLoop_frame : ∃ ws', ws'.Ready ∧ ws'.input.all = rest ∧ ws'.assembling = ws.assembling ∧ Went ws ws' [] ∧
      ∀ fuel, recvLoop (fuel + 1) ws = (do
        let s ← ws'.onFrame f
        match s.1 with
        | some message => .ok (message, s.2)
        | none => recvLoop fuel s.2) := by
  obtain ⟨_, hnext, hrest, hassembling, hready', hwent⟩ := nextFrame_frame hready hlegal hmax hall
  refine ⟨_, hready', hrest, hassembling, ⟨hwent.config, hwent.pongs⟩, fun fuel => ?_⟩
  rw [recvLoop, hready.opened, hnext]
  rfl

end

/-! ## Control frames -/

theorem legal_control (c : Control) : c.frame.Legal .server := by
  obtain ⟨_, _, _, short⟩ := c
  refine ⟨fun _ => short, fun _ => rfl, by simp [Control.frame], ?_⟩
  exact lt_of_le_of_lt short (by decide)

theorem recvLoop_control {c : Control} (hready : ws.Ready)
    (hmax : c.payload.length ≤ ws.config.maxFrameSize) (hall : ws.input.all = c.frame.encode ++ rest) :
    ∃ ws', ws'.Ready ∧ ws'.input.all = rest ∧ ws'.assembling = ws.assembling ∧ Went ws ws' (pings [c]) ∧
      ∀ fuel, recvLoop (fuel + 1) ws = recvLoop fuel ws' := by
  obtain ⟨ws', hready', hrest, hassembling, hwent, hloop⟩ := recvLoop_frame hready (legal_control c) hmax hall
  cases hping : c.isPing with
  | false =>
    have hpong : c.frame.opcode = .pong := by simp [Control.frame, hping]
    have hsent : pings [c] = [] := by simp [pings, hping]
    refine ⟨ws', hready', hrest, hassembling, by rw [hsent]; exact hwent, fun fuel => ?_⟩
    rw [hloop, onFrame, hpong]
    rfl
  | true =>
    have hop : c.frame.opcode = .ping := by simp [Control.frame, hping]
    have hsent : pings [c] = [c.payload] := by simp [pings, hping]
    have hanswer : ws'.onPing c.frame = (none, { ws' with outgoing := ws'.outgoing ++ [.pong c.payload] }) := by
      simp [onPing, send, hready'.room, Control.frame]
    refine ⟨{ ws' with outgoing := ws'.outgoing ++ [.pong c.payload] }, ?_, hrest, hassembling, ?_, fun fuel => ?_⟩
    · exact ⟨hready'.opened, hready'.unclosed, hready'.room, hready'.awaiting, hready'.patient⟩
    · refine ⟨hwent.config, ?_⟩
      have hpongs := hwent.pongs
      rw [append_nil] at hpongs
      rw [hsent, ← hpongs]
      simp [pongs]
    · rw [hloop, onFrame, hop]
      simp only [hanswer, ok_bind]

theorem recvLoop_controls {cs : List Control} (hready : ws.Ready)
    (hmax : ∀ c ∈ cs, c.payload.length ≤ ws.config.maxFrameSize)
    (hall : ws.input.all = (cs.map Control.frame).flatMap Frame.encode ++ rest) :
    ∃ ws', ws'.Ready ∧ ws'.input.all = rest ∧ ws'.assembling = ws.assembling ∧ Went ws ws' (pings cs) ∧
      ∀ fuel, recvLoop (cs.length + fuel) ws = recvLoop fuel ws' := by
  induction cs generalizing ws with
  | nil => exact ⟨ws, hready, hall, rfl, Went.refl ws, fun fuel => by rw [length_nil, zero_add]⟩
  | cons c cs ih =>
    rw [map_cons, flatMap_cons, append_assoc] at hall
    obtain ⟨_, hready', hall', hassembling, hwent, hloop⟩ := recvLoop_control hready (hmax c mem_cons_self) hall
    obtain ⟨ws'', hready'', hall'', hassembling', hwent', hloop'⟩ := ih hready'
      (fun c hc => hwent.config ▸ hmax c (mem_cons_of_mem _ hc)) hall'
    have hpings : pings (c :: cs) = pings [c] ++ pings cs := by
      rw [pings, pings, pings, ← map_append, ← filter_append]
      rfl
    refine ⟨ws'', hready'', hall'', hassembling'.trans hassembling, hpings ▸ hwent.trans hwent', fun fuel => ?_⟩
    rw [length_cons, add_right_comm, hloop, hloop']

theorem recvLoop_piece {p : Piece} {fin : Bool}
    (hready : ws.Ready) (hfits : p.Fits ws.config) (hdata : opcode.isControl = false)
    (hall : ws.input.all = (p.frames opcode fin).flatMap Frame.encode ++ rest) :
    ∃ ws', ws'.Ready ∧ ws'.input.all = rest ∧ ws'.assembling = ws.assembling ∧ Went ws ws' (pings p.controls) ∧
      ∀ fuel, recvLoop ((p.frames opcode fin).length + fuel) ws = (do
        let s ← ws'.onFrame (p.frame opcode fin)
        match s.1 with
        | some message => .ok (message, s.2)
        | none => recvLoop fuel s.2) := by
  rw [Piece.frames, flatMap_append, flatMap_singleton, append_assoc] at hall
  obtain ⟨ws', hready', hall', hassembling, hwent, hloop⟩ := recvLoop_controls hready hfits.controls hall
  have hlegal : (p.frame opcode fin).Legal .server :=
    ⟨fun h => absurd h (by simp [Piece.frame, hdata]), fun h => absurd h (by simp [Piece.frame, hdata]),
      by simp [Piece.frame], hfits.size⟩
  have hmax : (p.frame opcode fin).payload.length ≤ ws'.config.maxFrameSize := by
    rw [hwent.config]
    exact hfits.payload
  obtain ⟨ws'', hready'', hall'', hassembling', hwent', hloop'⟩ := recvLoop_frame hready' hlegal hmax hall'
  have hwhole := hwent.trans hwent'
  rw [append_nil] at hwhole
  refine ⟨ws'', hready'', hall'', hassembling'.trans hassembling, hwhole, fun fuel => ?_⟩
  rw [Piece.frames, length_append, length_map, length_singleton, add_assoc, hloop, add_comm 1, hloop']

/-! ## Text that is still arriving -/

/-- The part of a text that has been checked ends between two characters. -/
def Boundary (opcode : OpCode) (bytes : List UInt8) (checked : Nat) : Prop :=
  opcode = .text → ∃ cs tail, bytes = encode cs ++ tail ∧ checked = (encode cs).length

theorem keep_cases (ws : WebSocket) {before : List UInt8}
    (hboundary : Boundary opcode before checked) (new : List UInt8) :
    (∃ checked', ws.keep opcode (before ++ new) checked =
        .ok (none, { ws with assembling := some (opcode, before ++ new, checked') }) ∧
      Boundary opcode (before ++ new) checked') ∨
    (ws.keep opcode (before ++ new) checked = .ok (some none, ws.fail .invalidUtf8) ∧
      ∀ more, fromData opcode (before ++ new ++ more) = .error .invalidUtf8) := by
  by_cases htext : opcode = .text
  · obtain ⟨cs, tail, hbefore, hchecked⟩ := hboundary htext
    have hdrop : (before ++ new).drop checked = tail ++ new := by
      rw [hbefore, hchecked, append_assoc, drop_left]
    have hlong : ¬ (before ++ new).length < checked := by
      rw [hbefore, hchecked]
      simp only [length_append]
      omega
    have hspec := validity_spec (tail ++ new)
    rw [keep, checkSoFar, if_pos htext, textSoFarIsValid, if_neg hlong, hdrop]
    cases hvalidity : validity (tail ++ new) with
    | valid =>
      rw [hvalidity] at hspec
      obtain ⟨ds, hds⟩ := hspec
      refine .inl ⟨(before ++ new).length, rfl, fun _ => ⟨cs ++ ds, [], ?_, ?_⟩⟩
      · rw [encode_append, ← hds, hbefore, append_assoc, append_nil]
      · rw [encode_append, ← hds, hbefore, append_assoc]
    | unfinished upTo =>
      rw [hvalidity] at hspec
      obtain ⟨ds, tail', hds, hupTo⟩ := hspec
      refine .inl ⟨checked + upTo, rfl, fun _ => ⟨cs ++ ds, tail', ?_, ?_⟩⟩
      · rw [encode_append, append_assoc, ← hds, hbefore, append_assoc]
      · rw [encode_append, length_append, hchecked, hupTo]
    | invalid =>
      rw [hvalidity] at hspec
      refine .inr ⟨rfl, fun more => ?_⟩
      have hnone : fromUtf8 (before ++ new ++ more) = none := by
        rw [hbefore, append_assoc, append_assoc, fromUtf8_encode_append, ← append_assoc, hspec more]
        rfl
      rw [htext, fromData, hnone]
  · refine .inl ⟨checked, ?_, fun h => absurd h htext⟩
    rw [keep, checkSoFar, if_neg htext, ok_bind]
    rfl

/-! ## Whole messages -/

/-- How a read of the bytes of one message ends: the message is returned and the connection is ready for `rest`,
    or, for bytes that are no text, it is closed with the reason. -/
def Settles (ws : WebSocket) (opcode : OpCode) (bytes : List UInt8) (sent : List (List UInt8)) (rest : List UInt8)
    (r : Option Message × WebSocket) : Prop :=
  match fromData opcode bytes with
  | .ok message => r.1 = some message ∧ r.2.Ready ∧ r.2.assembling = none ∧ r.2.input.all = rest ∧ Went ws r.2 sent
  | .error e => r.1 = none ∧ r.2.closed = true ∧ r.2.closeFrame = some e.close

theorem closed_fail (hready : ws.Ready) (e : WsError) :
    (ws.fail e).closed = true ∧ (ws.fail e).closeFrame = some e.close := by
  refine ⟨rfl, ?_⟩
  simp [fail, send, markClosed, hready.room, hready.unclosed]

theorem settles_deliver (ws : WebSocket) (hready : ws'.Ready)
    (hassembling : ws'.assembling = none) (hwent : Went ws ws' sent) (opcode : OpCode) (bytes : List UInt8) :
    Settles ws opcode bytes sent ws'.input.all (ws'.deliver opcode bytes) := by
  rw [Settles, deliver]
  cases fromData opcode bytes with
  | ok =>
    exact ⟨rfl, ⟨hready.opened, hready.unclosed, hready.room, hready.awaiting, hready.patient⟩, hassembling, rfl,
      hwent.config, hwent.pongs⟩
  | error e => exact ⟨rfl, closed_fail hready e⟩

theorem settles_refused (hready : ws'.Ready) {e : WsError} (he : fromData opcode bytes = .error e) :
    Settles ws opcode bytes sent rest (none, ws'.fail e) := by
  rw [Settles, he]
  exact ⟨rfl, closed_fail hready e⟩

theorem Settles.after (hwent : Went ws ws' sent) (h : Settles ws' opcode bytes sent' rest r) :
    Settles ws opcode bytes (sent ++ sent') rest r := by
  rw [Settles] at h ⊢
  cases hmessage : fromData opcode bytes with
  | error =>
    rw [hmessage] at h
    exact h
  | ok =>
    rw [hmessage] at h
    obtain ⟨hreturned, hready, hassembling, hrest, hwent'⟩ := h
    exact ⟨hreturned, hready, hassembling, hrest, hwent.trans hwent'⟩

theorem recvLoop_continuations {ps : List Piece} (hne : ps ≠ [])
    {assembled : List UInt8} (fuel : Nat) (hready : ws.Ready)
    (hassembling : ws.assembling = some (opcode, assembled, checked)) (hboundary : Boundary opcode assembled checked)
    (hfits : ∀ p ∈ ps, p.Fits ws.config) (hsize : (assembled ++ payloads ps).length ≤ ws.config.maxMessageSize)
    (hall : ws.input.all = (continuations ps).flatMap Frame.encode ++ rest)
    (hfuel : (continuations ps).length ≤ fuel) : ∃ r, recvLoop fuel ws = .ok r ∧
      Settles ws opcode (assembled ++ payloads ps) (ps.flatMap fun p => pings p.controls) rest r := by
  induction ps generalizing ws assembled checked fuel with
  | nil => exact absurd rfl hne
  | cons p ps ih =>
    rw [continuations, flatMap_append, append_assoc] at hall
    rw [continuations, length_append] at hfuel
    obtain ⟨fuel, rfl⟩ : ∃ n, fuel = (p.frames .continuation ps.isEmpty).length + n :=
      ⟨fuel - (p.frames .continuation ps.isEmpty).length, by omega⟩
    obtain ⟨ws', hready', hall', hassembling', hwent, hloop⟩ := recvLoop_piece hready (hfits p mem_cons_self) rfl hall
    have hbytes : assembled ++ payloads (p :: ps) = assembled ++ p.payload ++ payloads ps := by
      rw [payloads, flatMap_cons, ← append_assoc, payloads]
    rw [hbytes] at hsize ⊢
    have htotal : ¬ ws'.config.maxMessageSize < assembled.length + p.payload.length := by
      rw [hwent.config, ← length_append]
      rw [length_append] at hsize
      omega
    have hcleared : Ready { ws' with assembling := none } :=
      ⟨hready'.opened, hready'.unclosed, hready'.room, hready'.awaiting, hready'.patient⟩
    have hframe : ws'.onFrame (p.frame .continuation ps.isEmpty) =
        if ps.isEmpty then
          .ok (some (deliver { ws' with assembling := none } opcode (assembled ++ p.payload)).1,
            (deliver { ws' with assembling := none } opcode (assembled ++ p.payload)).2)
        else keep { ws' with assembling := none } opcode (assembled ++ p.payload) checked := by
      rw [onFrame]
      simp only [Piece.frame, onContinuation, hassembling', hassembling]
      exact if_neg htotal
    rw [hloop, hframe, flatMap_cons]
    cases ps with
    | nil =>
      have hrest := hall'
      refine ⟨_, rfl, ?_⟩
      have hsettles := settles_deliver ws hcleared rfl ⟨hwent.config, hwent.pongs⟩ opcode (assembled ++ p.payload)
      simp only [hrest] at hsettles
      rw [flatMap_nil, append_nil, payloads, flatMap_nil, append_nil]
      exact hsettles
    | cons q qs =>
      rw [if_neg (by simp)]
      rcases keep_cases { ws' with assembling := none } hboundary p.payload with
        ⟨checked', hkeep, hboundary'⟩ | ⟨hrefuse, hinvalid⟩
      · rw [hkeep, ok_bind]
        have hwent' : Went ws { ws' with assembling := some (opcode, assembled ++ p.payload, checked') }
            (pings p.controls) := ⟨hwent.config, hwent.pongs⟩
        have hready'' : Ready { ws' with assembling := some (opcode, assembled ++ p.payload, checked') } :=
          ⟨hready'.opened, hready'.unclosed, hready'.room, hready'.awaiting, hready'.patient⟩
        obtain ⟨r, hr, hsettles⟩ := ih (cons_ne_nil q qs) fuel hready'' rfl hboundary'
          (fun q hq => hwent.config ▸ hfits q (mem_cons_of_mem _ hq)) (hwent.config ▸ hsize) hall' (by omega)
        exact ⟨r, hr, hsettles.after hwent'⟩
      · rw [hrefuse, ok_bind]
        exact ⟨_, rfl, settles_refused hcleared (hinvalid _)⟩

theorem recvLoop_plan (hready : ws.Ready)
    (hassembling : ws.assembling = none) (hfits : plan.Fits ws.config) (hall : ws.input.all = plan.bytes ++ rest)
    (hfuel : plan.frames.length ≤ fuel) :
    ∃ r, recvLoop fuel ws = .ok r ∧ Settles ws plan.opcode plan.payload plan.pings rest r := by
  obtain ⟨opcode, first, more, hdata⟩ := plan
  obtain ⟨hpieces, hmessage⟩ := hfits
  simp only [Plan.bytes, Plan.frames, flatMap_append, append_assoc] at hall
  simp only [Plan.frames, length_append] at hfuel
  obtain ⟨fuel, rfl⟩ : ∃ n, fuel = (first.frames opcode more.isEmpty).length + n :=
    ⟨fuel - (first.frames opcode more.isEmpty).length, by omega⟩
  have hcontrol : opcode.isControl = false := by
    rcases hdata with rfl | rfl <;> rfl
  obtain ⟨ws', hready', hall', hassembling', hwent, hloop⟩ :=
    recvLoop_piece hready (hpieces first mem_cons_self) hcontrol hall
  rw [hassembling] at hassembling'
  have hframe : ws'.onFrame (first.frame opcode more.isEmpty) =
      if more.isEmpty then .ok (some (ws'.deliver opcode first.payload).1, (ws'.deliver opcode first.payload).2)
      else ws'.keep opcode first.payload 0 := by
    have hcases : ws'.onFrame (first.frame opcode more.isEmpty) = ws'.onData (first.frame opcode more.isEmpty) := by
      rcases hdata with rfl | rfl <;> rfl
    rw [hcases, onData, hassembling']
    rfl
  rw [hloop, hframe]
  simp only [Plan.payload, Plan.pings, flatMap_cons]
  cases more with
  | nil =>
    have hrest := hall'
    refine ⟨_, rfl, ?_⟩
    have hsettles := settles_deliver ws hready' hassembling' hwent opcode first.payload
    rw [hrest] at hsettles
    rw [flatMap_nil, append_nil, payloads, flatMap_nil, append_nil]
    exact hsettles
  | cons q qs =>
    have hstart : Boundary opcode [] 0 := fun _ => ⟨[], [], rfl, rfl⟩
    rw [if_neg (by simp)]
    rcases keep_cases ws' hstart first.payload with ⟨checked, hkeep, hboundary⟩ | ⟨hrefuse, hinvalid⟩
    · rw [nil_append] at hkeep hboundary
      rw [hkeep, ok_bind]
      have hwent' : Went ws { ws' with assembling := some (opcode, first.payload, checked) }
          (pings first.controls) := ⟨hwent.config, hwent.pongs⟩
      have hready'' : Ready { ws' with assembling := some (opcode, first.payload, checked) } :=
        ⟨hready'.opened, hready'.unclosed, hready'.room, hready'.awaiting, hready'.patient⟩
      obtain ⟨r, hr, hsettles⟩ := recvLoop_continuations (cons_ne_nil q qs) fuel hready'' rfl hboundary
        (fun q hq => hwent.config ▸ hpieces q (mem_cons_of_mem _ hq)) (hwent.config ▸ hmessage) hall' (by omega)
      exact ⟨r, hr, hsettles.after hwent'⟩
    · rw [nil_append] at hrefuse
      rw [hrefuse, ok_bind]
      exact ⟨_, rfl, settles_refused hready' (hinvalid _)⟩

theorem length_frames_le (plan : Plan) : plan.frames.length ≤ plan.bytes.length := by
  have hframes : ∀ fs : List Frame, fs.length ≤ (fs.flatMap Frame.encode).length := by
    intro fs
    induction fs with
    | nil => exact le_refl 0
    | cons =>
      rw [flatMap_cons, length_append, length_cons, Frame.encode]
      simp only [length_cons]
      omega
  exact hframes plan.frames

theorem recv_plan (hready : ws.Ready)
    (hassembling : ws.assembling = none) (hfits : plan.Fits ws.config) (hall : ws.input.all = plan.bytes ++ rest) :
    ∃ r, ws.recv = .ok r ∧ Settles ws plan.opcode plan.payload plan.pings rest r := by
  have hlength := length_frames_le plan
  refine recvLoop_plan hready hassembling hfits hall ?_
  rw [hall, length_append]
  omega

theorem recvs_plans {plans : List Plan} {messages : List Message}
    (hready : ws.Ready) (hassembling : ws.assembling = none) (hfits : ∀ plan ∈ plans, plan.Fits ws.config)
    (hall : ws.input.all = plans.flatMap Plan.bytes ++ rest) (hmessages : plans.mapM Plan.message = .ok messages) :
    ∃ ws', ws.recvs plans.length = .ok (messages.map some, ws') ∧ ws'.Ready ∧ ws'.assembling = none ∧
      ws'.input.all = rest ∧ Went ws ws' (plans.flatMap Plan.pings) := by
  induction plans generalizing ws messages with
  | nil =>
    cases hmessages
    exact ⟨ws, rfl, hready, hassembling, hall, Went.refl ws⟩
  | cons plan plans ih =>
    rw [mapM_cons] at hmessages
    cases hmessage : plan.message with
    | error =>
      rw [hmessage] at hmessages
      cases hmessages
    | ok message =>
      cases hrest : plans.mapM Plan.message with
      | error =>
        rw [hmessage, hrest] at hmessages
        cases hmessages
      | ok =>
        rw [hmessage, hrest] at hmessages
        cases hmessages
        rw [flatMap_cons, append_assoc] at hall
        obtain ⟨_, hrecv, hsettles⟩ := recv_plan hready hassembling (hfits plan mem_cons_self) hall
        rw [Plan.message] at hmessage
        rw [Settles, hmessage] at hsettles
        obtain ⟨hreturned, hready', hassembling', hall', hwent⟩ := hsettles
        obtain ⟨ws', hrecvs, hready'', hassembling'', hall'', hwent'⟩ := ih hready' hassembling'
          (fun plan hplan => hwent.config ▸ hfits plan (mem_cons_of_mem _ hplan)) hall' hrest
        refine ⟨ws', ?_, hready'', hassembling'', hall'', ?_⟩
        · rw [length_cons, recvs, hrecv, ok_bind, hrecvs, ok_bind, hreturned]
          rfl
        · exact hwent.trans hwent'

end WebSocket

/-! ## Streams of messages -/

/-- However messages are cut into frames and reads, they come out in order, each ping is answered, and a text is
    refused exactly if it is none. -/
theorem recvs_stream (ws : WebSocket) (hready : ws.Ready) (hassembling : ws.assembling = none) (plans : List Plan)
    (hfits : ∀ plan ∈ plans, plan.Fits ws.config) (rest : List UInt8)
    (hall : ws.input.all = plans.flatMap Plan.bytes ++ rest) (messages : List Message)
    (hmessages : plans.mapM Plan.message = .ok messages) :
    ∃ ws', ws.recvs plans.length = .ok (messages.map some, ws') ∧ ws'.input.all = rest ∧
      pongs ws'.outgoing = pongs ws.outgoing ++ plans.flatMap Plan.pings ∧
      ∀ (plan : Plan) (rest' : List UInt8), plan.opcode = .text → plan.Fits ws.config → rest = plan.bytes ++ rest' →
        ((∃ ws'', ws'.recv = .ok (none, ws'') ∧ ws''.closeFrame = some WsError.invalidUtf8.close) ↔
          fromUtf8 plan.payload = none) := by
  obtain ⟨ws', hrecvs, hready', hassembling', hall', hwent⟩ :=
    WebSocket.recvs_plans hready hassembling hfits hall hmessages
  refine ⟨ws', hrecvs, hall', hwent.pongs, fun plan rest' htext hfits' hrest => ?_⟩
  obtain ⟨r, hrecv, hsettles⟩ := WebSocket.recv_plan hready' hassembling' (hwent.config ▸ hfits') (hall'.trans hrest)
  rw [WebSocket.Settles, htext, fromData] at hsettles
  constructor
  · rintro ⟨ws'', hrefused, -⟩
    cases hdecode : fromUtf8 plan.payload with
    | none => rfl
    | some =>
      rw [hdecode] at hsettles
      obtain ⟨hreturned, -⟩ := hsettles
      rw [hrefused] at hrecv
      cases hrecv
      cases hreturned
  · intro hnone
    rw [hnone] at hsettles
    obtain ⟨hreturned, -, hclose⟩ := hsettles
    refine ⟨r.2, ?_, hclose⟩
    rw [hrecv, ← hreturned]

theorem recvs_stream_split :
    let plan : Plan :=
      { opcode := .text, first := ⟨[], ⟨1, 2, 3, 4⟩, [0xc3]⟩,
        more := [⟨[⟨true, ⟨5, 6, 7, 8⟩, [0x21], by decide⟩], ⟨9, 10, 11, 12⟩, [0xa9]⟩], data := .inl rfl }
    let ws : WebSocket :=
      { input := ⟨[], ⟨plan.bytes, [0, 0, 0]⟩⟩, timers := [some 2, none], room := none, outgoing := [],
        config := ⟨1024, 1024, true⟩, assembling := none, awaitingPong := false, closed := false, closeFrame := none,
        received := 0 }
    ∃ ws', ws.recvs 1 = .ok ([some (.text "é")], ws') ∧ pongs ws'.outgoing = [[0x21]] := by
  intro plan ws
  have hready : ws.Ready := ⟨rfl, rfl, rfl, rfl, .cons_cons (.inr rfl) (.singleton _)⟩
  have hfits : plan.Fits ws.config := by
    refine ⟨fun p hp => ?_, by decide⟩
    rcases mem_cons.mp hp with rfl | hp
    · exact ⟨by decide, by decide, by simp [plan]⟩
    · rw [mem_singleton.mp hp]
      exact ⟨by decide, by decide, by simp [ws]⟩
  obtain ⟨ws', hrecvs, -, hpongs, -⟩ := recvs_stream ws hready rfl [plan]
    (fun p hp => mem_singleton.mp hp ▸ hfits) [] rfl [.text "é"] (by decide)
  exact ⟨ws', hrecvs, hpongs⟩

/-! ## How long a message can be -/

/-- The payload of a message. -/
def Message.bytes : Message → List UInt8
  | text body => encode body.toList
  | binary bytes | ping bytes | pong bytes => bytes
  | close _ => []

theorem Message.bytes_of_fromData {m : Message} (h : fromData opcode payload = .ok m) : m.bytes = payload := by
  cases opcode with
  | text =>
    rw [fromData] at h
    split at h <;> cases h
    rename_i htext
    rw [bytes, String.toList_ofList, ← encode_of_fromUtf8 htext]
  | binary =>
    cases h
    rfl
  | continuation | close | ping | pong => cases h

variable {config : Config} {ws : WebSocket} {reply : Reply × WebSocket} {budget : Option Nat}

theorem length_readLoop {r} (h : readLoop config.maxFrameSize fuel budget input = .ok r) :
    ∀ f, r.1 = .frame f → f.payload.length ≤ config.maxFrameSize := by
  induction fuel generalizing budget input with
  | zero => cases h
  | succ fuel ih =>
    rw [readLoop] at h
    split at h
    · rename_i hdecode
      obtain ⟨_, -, h⟩ := bind_eq_ok.mp h
      cases h
      rintro _ ⟨⟩
      exact (Frame.writes_decoder hdecode).2
    · split at h
      · cases h
        nofun
      · dsimp only at h
        split at h
        · cases h
          nofun
        · exact ih h
    all_goals cases h
    nofun

namespace WebSocket

/-- A frame that was read is within the limits, which stay as they are. -/
def Fetched (config : Config) (r : Reply × WebSocket) : Prop :=
  r.2.config = config ∧ ∀ f, r.1 = .frame f → f.payload.length ≤ config.maxFrameSize

/-- A message that is returned is within the limit. -/
def Limited (config : Config) (r : Option Message × WebSocket) : Prop :=
  r.2.config = config ∧ ∀ m ∈ r.1, m.bytes.length ≤ config.maxMessageSize

theorem readFrame_fetched (hws : ws.config = config) (h : ws.readFrame budget = .ok reply) :
    Fetched config reply := by
  obtain ⟨_, hread, h⟩ := bind_eq_ok.mp h
  cases h
  rw [hws] at hread
  exact ⟨hws, length_readLoop hread⟩

theorem config_send (hws : ws.config = config) (message : Message) : (ws.send message).2.config = config := by
  rw [send]
  split <;> exact hws

theorem nextFrameLoop_fetched (hws : ws.config = config) {timers : List (Option Nat)}
    (h : nextFrameLoop timers ws = .ok reply) : Fetched config reply := by
  induction timers generalizing ws with
  | nil =>
    obtain ⟨_, hread, h⟩ := bind_eq_ok.mp h
    obtain ⟨hr, hframe⟩ := readFrame_fetched hws hread
    cases h
    exact ⟨hr, hframe⟩
  | cons budget timers ih =>
    obtain ⟨r, hread, h⟩ := bind_eq_ok.mp h
    obtain ⟨hr, hframe⟩ := readFrame_fetched hws hread
    split at h
    · cases h
      exact ⟨hr, hframe⟩
    · split at h
      · cases h
        exact ⟨hr, nofun⟩
      · dsimp only at h
        split at h
        · exact ih (config_send (by exact hr) _) h
        · cases h
          exact ⟨config_send (by exact hr) _, nofun⟩

theorem nextFrame_fetched (hws : ws.config = config) (h : ws.nextFrame = .ok reply) : Fetched config reply := by
  rw [nextFrame] at h
  split at h
  · exact nextFrameLoop_fetched hws h
  · exact readFrame_fetched hws h

theorem limited_fail (hws : ws.config = config) (e : WsError) : Limited config (none, ws.fail e) :=
  ⟨config_send hws _, nofun⟩

theorem limited_deliver (hws : ws.config = config) (opcode : OpCode)
    (h : payload.length ≤ config.maxMessageSize) : Limited config (ws.deliver opcode payload) := by
  rw [deliver]
  split
  · rename_i hdata
    refine ⟨hws, ?_⟩
    rintro _ ⟨⟩
    rwa [bytes_of_fromData hdata]
  · exact limited_fail hws _

variable {s : Option (Option Message) × WebSocket} {f : Frame}

theorem limited_keep (hws : ws.config = config) {bytes : List UInt8} {checked : Nat}
    (h : ws.keep opcode bytes checked = .ok s) : Limited config (s.1.join, s.2) := by
  obtain ⟨_, -, h⟩ := bind_eq_ok.mp h
  split at h <;> cases h
  · exact ⟨hws, nofun⟩
  · exact limited_fail hws _

theorem limited_onData (hws : ws.config = config) (hsize : f.payload.length ≤ config.maxMessageSize)
    (h : ws.onData f = .ok s) : Limited config (s.1.join, s.2) := by
  rw [onData] at h
  split at h
  · cases h
    exact limited_fail hws _
  · split at h
    · cases h
      exact limited_deliver hws _ hsize
    · exact limited_keep hws h

theorem limited_onContinuation (hws : ws.config = config) (h : ws.onContinuation f = .ok s) :
    Limited config (s.1.join, s.2) := by
  rw [onContinuation] at h
  split at h
  · cases h
    exact limited_fail hws _
  · have hws' : ({ ws with assembling := none } : WebSocket).config = config := hws
    dsimp only at h
    split at h
    · cases h
      exact limited_fail hws' _
    · rename_i hfits
      split at h
      · cases h
        refine limited_deliver hws' _ ?_
        rw [length_append, ← hws]
        exact Nat.le_of_not_lt hfits
      · exact limited_keep hws' h

theorem limited_onFrame (hws : ws.config = config) (hsize : f.payload.length ≤ config.maxMessageSize)
    (h : ws.onFrame f = .ok s) : Limited config (s.1.join, s.2) := by
  rw [onFrame] at h
  split at h
  · cases h
    rw [onPing]
    split <;> exact ⟨config_send hws _, nofun⟩
  · cases h
    exact ⟨hws, nofun⟩
  · cases h
    rw [onClose]
    split
    · exact limited_fail hws _
    · exact ⟨config_send hws _, nofun⟩
  · exact limited_onData hws hsize h
  · exact limited_onData hws hsize h
  · exact limited_onContinuation hws h

theorem limited_recvLoop (hlimits : config.maxFrameSize ≤ config.maxMessageSize) (hws : ws.config = config)
    (h : recvLoop fuel ws = .ok r) : Limited config r := by
  induction fuel generalizing ws with
  | zero => cases h
  | succ fuel ih =>
    rw [recvLoop] at h
    split at h
    · cases h
      exact ⟨hws, nofun⟩
    · obtain ⟨_, hnext, h⟩ := bind_eq_ok.mp h
      obtain ⟨hnew, hsize⟩ := nextFrame_fetched hws hnext
      split at h
      · cases h
        exact ⟨hnew, nofun⟩
      · cases h
        exact ⟨hnew, nofun⟩
      · cases h
        exact limited_fail hnew _
      · rename_i f hf
        obtain ⟨_, hframe, h⟩ := bind_eq_ok.mp h
        have hlimited := limited_onFrame (by exact hnew) (le_trans (hsize f hf) hlimits) hframe
        split at h
        · rename_i hmessage
          cases h
          rw [hmessage] at hlimited
          exact hlimited
        · exact ih hlimited.1 h

/-- Where a frame may be no longer than a message, `recv` returns no message that is longer. -/
theorem recv_within (ws : WebSocket) (hlimits : ws.config.maxFrameSize ≤ ws.config.maxMessageSize) {message : Message}
    {ws' : WebSocket} (h : ws.recv = .ok (some message, ws')) : message.bytes.length ≤ ws.config.maxMessageSize :=
  (limited_recvLoop hlimits rfl h).2 message rfl

def fresh (config : Config) (input : List UInt8) : WebSocket :=
  { input := ⟨[], ⟨input, []⟩⟩, timers := [], room := none, outgoing := [], config := config, assembling := none,
    awaitingPong := false, closed := false, closeFrame := none, received := 0 }

theorem recv_within_two : (binary [1, 2]).bytes.length ≤ 2 :=
  recv_within (fresh ⟨2, 2, false⟩ [0x82, 0x82, 0, 0, 0, 0, 1, 2]) (by decide) rfl

/-- One frame of two bytes, where a message may have one. -/
theorem long_frame_returned : ∃ ws', recv (fresh ⟨1, 2, false⟩ [0x82, 0x82, 0, 0, 0, 0, 1, 2]) =
    .ok (some (.binary [1, 2]), ws') :=
  ⟨_, rfl⟩

end WebSocket

end Rustlavel.Ws
