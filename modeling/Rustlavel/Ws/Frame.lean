/-
  Frames of a WebSocket: two bytes of header, a length in one of three forms, a mask if a client sends the
  frame, and the payload.
-/

import Rustlavel.Lib.BigEndian
import Rustlavel.Lib.Incremental
import Rustlavel.Lib.Utf8

namespace Rustlavel.Ws

open Incremental Incremental.Decoder Outcome List BigEndian Nat

inductive Role where
  | server
  | client
  deriving DecidableEq

inductive OpCode where
  | continuation
  | text
  | binary
  | close
  | ping
  | pong
  deriving DecidableEq

inductive WsError where
  | protocol (message : String)
  | tooLarge (size limit : Nat)
  | invalidUtf8
  | idle
  | full
  | closed
  deriving DecidableEq

namespace OpCode

def bits : OpCode → UInt8
  | continuation => 0x0
  | text => 0x1
  | binary => 0x2
  | close => 0x8
  | ping => 0x9
  | pong => 0xa

def fromBits (bits : UInt8) : Except WsError OpCode :=
  if bits = 0x0 then .ok continuation
  else if bits = 0x1 then .ok text
  else if bits = 0x2 then .ok binary
  else if bits = 0x8 then .ok close
  else if bits = 0x9 then .ok ping
  else if bits = 0xa then .ok pong
  else .error (.protocol (String.ofList ("opcode 0x".toList ++ toDigits 16 bits.toNat ++ " is reserved".toList)))

def isControl : OpCode → Bool
  | close | ping | pong => true
  | _ => false

end OpCode

/-! ## Masks -/

structure Mask where
  (m0 m1 m2 m3 : UInt8)
  deriving DecidableEq

namespace Mask

def bytes (m : Mask) : List UInt8 := [m.m0, m.m1, m.m2, m.m3]

def ofBytes (bs : List UInt8) : Mask := ⟨bs.getD 0 0, bs.getD 1 0, bs.getD 2 0, bs.getD 3 0⟩

def get (m : Mask) (i : Nat) : UInt8 := m.bytes.getD (i % 4) 0

theorem bytes_ofBytes {bs : List UInt8} (h : bs.length = 4) : (ofBytes bs).bytes = bs := by
  match bs, h with
  | [_, _, _, _], _ => rfl

end Mask

variable (payload : List UInt8) (m : Mask)

def applyMask : List UInt8 := payload.mapIdx fun i b => b ^^^ m.get i

@[simp] theorem length_applyMask : (applyMask payload m).length = payload.length := length_mapIdx

theorem applyMask_applyMask : applyMask (applyMask payload m) m = payload := by
  rw [applyMask, applyMask, mapIdx_mapIdx]
  refine ext_getElem (by simp) fun i _ _ => ?_
  simp

/-! ## Frames -/

structure Frame where
  fin : Bool
  opcode : OpCode
  mask : Option Mask
  payload : List UInt8
  deriving DecidableEq

namespace Frame

variable (mask : Option Mask) (payload : List UInt8)

def masked : List UInt8 :=
  match mask with
  | some m => applyMask payload m
  | none => payload

def maskBytes (mask : Option Mask) : List UInt8 := mask.elim [] Mask.bytes

def firstByte (fin : Bool) (opcode : OpCode) : UInt8 := (if fin then 0x80 else 0) ||| opcode.bits

def secondByte (masked : Bool) (code : Nat) : UInt8 := (if masked then 0x80 else 0) ||| UInt8.ofNat code

def lengthForm (length : Nat) : Nat × List UInt8 :=
  if length < 126 then (length, [])
  else if length ≤ 65535 then (126, toBytes 2 length)
  else (127, toBytes 8 length)

def encode (f : Frame) : List UInt8 :=
  let form := lengthForm f.payload.length
  firstByte f.fin f.opcode :: secondByte f.mask.isSome form.1 ::
    (form.2 ++ (maskBytes f.mask ++ masked f.mask f.payload))

def declaredLength (code : UInt8) : Decoder UInt8 WsError Nat :=
  if code = 126 then do
    let bytes ← take 2
    reject (fromBytes bytes < 126) (.protocol "16-bit length used for a payload that fits in 7 bits")
    pure (fromBytes bytes)
  else if code = 127 then do
    let bytes ← take 8
    reject (2 ^ 63 ≤ fromBytes bytes) (.protocol "64-bit length has its high bit set")
    reject (fromBytes bytes ≤ 65535) (.protocol "64-bit length used for a payload that fits in 16 bits")
    pure (fromBytes bytes)
  else pure code.toNat

def maskField (masked : Bool) : Decoder UInt8 WsError (Option Mask) :=
  if masked then do
    let bytes ← take 4
    pure (some (Mask.ofBytes bytes))
  else pure none

def body (role : Role) (maxPayload : Nat) (fin : Bool) (opcode : OpCode) (isMasked : Bool) (length : Nat) :
    Decoder UInt8 WsError Frame := do
  reject (maxPayload < length) (.tooLarge length maxPayload)
  reject (opcode.isControl ∧ 125 < length) (.protocol "a control frame payload must be 125 bytes or fewer")
  reject (opcode.isControl ∧ ¬ fin) (.protocol "a control frame must not be fragmented")
  reject (role = .server ∧ ¬ isMasked) (.protocol "a frame from a client must be masked")
  reject (role = .client ∧ isMasked) (.protocol "a frame from a server must not be masked")
  let mask ← maskField isMasked
  let payload ← take length
  pure { fin := fin, opcode := opcode, mask := mask, payload := masked mask payload }

/-- `Frame::decode`, from a position on. -/
def decoder (role : Role) (maxPayload : Nat) : Decoder UInt8 WsError Frame := do
  let header ← take 2
  let first := header.getD 0 0
  let second := header.getD 1 0
  reject (first &&& 0x70 ≠ 0) (.protocol "a reserved bit is set but no extension was negotiated")
  let opcode ← check (OpCode.fromBits (first &&& 0x0f))
  let length ← declaredLength (second &&& 0x7f)
  body role maxPayload (first &&& 0x80 != 0) opcode (second &&& 0x80 != 0) length

def decode (bytes : List UInt8) (role : Role) (maxPayload : Nat) : Result WsError (Option (Frame × Nat)) :=
  decoder role maxPayload bytes 0

/-! ## The bits of the header -/

theorem firstByte_bits (fin : Bool) (opcode : OpCode) :
    firstByte fin opcode &&& 0x70 = 0 ∧ OpCode.fromBits (firstByte fin opcode &&& 0x0f) = .ok opcode ∧
      (firstByte fin opcode &&& 0x80 != 0) = fin := by
  cases fin <;> cases opcode <;> decide

variable {opcode : OpCode} {code : UInt8} {bs : List UInt8} {i j maxPayload : Nat} {role : Role} {f : Frame}
  {isMasked : Bool} {length : Nat}

theorem firstByte_of_bits {b : UInt8} (hreserved : b &&& 0x70 = 0)
    (hopcode : OpCode.fromBits (b &&& 0x0f) = .ok opcode) : firstByte (b &&& 0x80 != 0) opcode = b := by
  have hall : ∀ b, b &&& 0x70 = 0 → ∀ opcode ∈ (OpCode.fromBits (b &&& 0x0f)).toOption,
      firstByte (b &&& 0x80 != 0) opcode = b := Utf8.forall_byte (by decide +kernel)
  exact hall b hreserved opcode (by rw [hopcode]; rfl)

theorem secondByte_bits (isMasked : Bool) {code : Nat} (h : code < 128) :
    (secondByte isMasked code &&& 0x7f).toNat = code ∧ (secondByte isMasked code &&& 0x80 != 0) = isMasked := by
  have hall : ∀ code : Fin 128, ∀ isMasked, (secondByte isMasked code.val &&& 0x7f).toNat = code.val ∧
      (secondByte isMasked code.val &&& 0x80 != 0) = isMasked := by decide
  exact hall ⟨code, h⟩ isMasked

theorem secondByte_of_bits : ∀ b, secondByte (b &&& 0x80 != 0) (b &&& 0x7f).toNat = b :=
  Utf8.forall_byte (by decide +kernel)

/-! ## The length -/

section

variable {length : Nat}

theorem lengthForm_short (h : length < 126) : lengthForm length = (length, []) := if_pos h

theorem lengthForm_middle (h : ¬ length < 126) (h' : length ≤ 65535) :
    lengthForm length = (126, toBytes 2 length) := by
  rw [lengthForm, if_neg h, if_pos h']

theorem lengthForm_wide (h : ¬ length ≤ 65535) : lengthForm length = (127, toBytes 8 length) := by
  rw [lengthForm, if_neg (by omega), if_neg h]

end

theorem lengthForm_lt (length : Nat) : (lengthForm length).1 < 128 := by
  by_cases hshort : length < 126
  · rw [lengthForm_short hshort]
    exact lt_trans hshort (by decide)
  · by_cases hmiddle : length ≤ 65535
    · rw [lengthForm_middle hshort hmiddle]
      simp
    · rw [lengthForm_wide hmiddle]
      simp

theorem reads_declaredLength (h : length < 2 ^ 63)
    (hcode : code.toNat = (lengthForm length).1) : Reads (declaredLength code) (lengthForm length).2 length := by
  by_cases hshort : length < 126
  · rw [lengthForm_short hshort] at hcode ⊢
    have hmiddle : code ≠ 126 := by
      rintro rfl
      exact absurd hcode (ne_of_gt hshort)
    have hwide : code ≠ 127 := by
      rintro rfl
      exact absurd hcode (ne_of_gt (lt_succ_of_lt hshort))
    rw [declaredLength, if_neg hmiddle, if_neg hwide, hcode]
    exact reads_pure length
  · by_cases hmiddle : length ≤ 65535
    · rw [lengthForm_middle hshort hmiddle] at hcode ⊢
      have hread : fromBytes (toBytes 2 length) = length := fromBytes_toBytes (by omega)
      have htake := reads_take (ε := WsError) (toBytes 2 length)
      rw [declaredLength, if_pos (UInt8.toNat_inj.mp hcode)]
      refine htake.bind ?_
      rw [hread]
      exact (reads_pure length).reject_bind hshort
    · rw [lengthForm_wide hmiddle] at hcode ⊢
      have hread : fromBytes (toBytes 8 length) = length := fromBytes_toBytes (by omega)
      have htake := reads_take (ε := WsError) (toBytes 8 length)
      have hcode' : code = 127 := UInt8.toNat_inj.mp hcode
      rw [hcode', declaredLength, if_neg (by decide), if_pos rfl]
      refine htake.bind ?_
      rw [hread]
      exact ((reads_pure length).reject_bind hmiddle).reject_bind (not_le.mpr h)

theorem writes_declaredLength (hcode : code.toNat < 128) (h : declaredLength code bs i = .ok (some (length, j))) :
    (lengthForm length).1 = code.toNat ∧ bs.drop i = (lengthForm length).2 ++ bs.drop j ∧
      j = i + (lengthForm length).2.length := by
  rw [declaredLength] at h
  by_cases hmiddle : code = 126
  · rw [if_pos hmiddle] at h
    obtain ⟨bytes, _, htake, h⟩ := bind_eq_some.mp h
    obtain ⟨hlong, h⟩ := reject_bind_eq_some.mp h
    obtain ⟨rfl, rfl⟩ := pure_eq_some.mp h
    obtain ⟨hsplit, hk⟩ := writes_take 2 htake
    have hlt := fromBytes_lt bytes
    have hback := toBytes_fromBytes bytes
    rw [length_of_take htake] at hlt hback
    rw [lengthForm_middle hlong (by omega), hback, hmiddle]
    exact ⟨rfl, hsplit, hk⟩
  · rw [if_neg hmiddle] at h
    by_cases hwide : code = 127
    · rw [if_pos hwide] at h
      obtain ⟨bytes, _, htake, h⟩ := bind_eq_some.mp h
      obtain ⟨-, h⟩ := reject_bind_eq_some.mp h
      obtain ⟨hlong, h⟩ := reject_bind_eq_some.mp h
      obtain ⟨rfl, rfl⟩ := pure_eq_some.mp h
      obtain ⟨hsplit, hk⟩ := writes_take 8 htake
      have hback := toBytes_fromBytes bytes
      rw [length_of_take htake] at hback
      rw [lengthForm_wide hlong, hback, hwide]
      exact ⟨rfl, hsplit, hk⟩
    · rw [if_neg hwide] at h
      have hne : code.toNat ≠ 126 ∧ code.toNat ≠ 127 :=
        ⟨fun heq => hmiddle (UInt8.toNat_inj.mp heq), fun heq => hwide (UInt8.toNat_inj.mp heq)⟩
      obtain ⟨rfl, rfl⟩ := pure_eq_some.mp h
      rw [lengthForm_short (by omega)]
      exact ⟨rfl, rfl, rfl⟩

/-! ## Whole frames -/

theorem stable_decoder (role : Role) (maxPayload : Nat) : Stable (decoder role maxPayload) := by
  have hlength : ∀ code, Stable (declaredLength code) := by
    intro code
    rw [declaredLength]
    split
    · exact stable_bind (stable_take 2) fun _ => stable_bind (stable_reject _ _) fun _ => stable_pure _
    · split
      · exact stable_bind (stable_take 8) fun _ => stable_bind (stable_reject _ _) fun _ =>
          stable_bind (stable_reject _ _) fun _ => stable_pure _
      · exact stable_pure _
  have hmask : ∀ isMasked, Stable (maskField isMasked) := by
    intro isMasked
    rw [maskField]
    split
    · exact stable_bind (stable_take 4) fun _ => stable_pure _
    · exact stable_pure _
  have hbody : ∀ fin opcode isMasked length, Stable (body role maxPayload fin opcode isMasked length) := by
    intro fin opcode isMasked length
    refine stable_bind (stable_reject _ _) fun _ => stable_bind (stable_reject _ _) fun _ =>
      stable_bind (stable_reject _ _) fun _ => stable_bind (stable_reject _ _) fun _ =>
      stable_bind (stable_reject _ _) fun _ => ?_
    exact stable_bind (hmask isMasked) fun _ => stable_bind (stable_take length) fun _ => stable_pure _
  exact stable_bind (stable_take 2) fun _ => stable_bind (stable_reject _ _) fun _ =>
    stable_bind (stable_check _) fun _ => stable_bind (hlength _) fun _ => hbody _ _ _ _

/-- A frame that may be sent to an end: a control frame is short and final, a client masks
    its frames and a server does not. -/
structure Legal (role : Role) (f : Frame) : Prop where
  short : f.opcode.isControl → f.payload.length ≤ 125
  final : f.opcode.isControl → f.fin = true
  direction : f.mask.isSome ↔ role = .server
  size : f.payload.length < 2 ^ 63

@[simp] theorem length_masked : (masked mask payload).length = payload.length := by
  cases mask with
  | none => rfl
  | some m => exact length_applyMask payload m

theorem masked_masked : masked mask (masked mask payload) = payload := by
  cases mask with
  | none => rfl
  | some m => exact applyMask_applyMask payload m

theorem reads_maskField (mask : Option Mask) : Reads (maskField mask.isSome) (maskBytes mask) mask := by
  cases mask with
  | none => exact reads_pure none
  | some m =>
    have htake := reads_take (ε := WsError) m.bytes
    exact htake.bind (reads_pure _)

theorem reads_body (hlegal : f.Legal role) (hmax : f.payload.length ≤ maxPayload) :
    Reads (body role maxPayload f.fin f.opcode f.mask.isSome f.payload.length)
      (maskBytes f.mask ++ masked f.mask f.payload) f := by
  have hpayload := reads_take (ε := WsError) (masked f.mask f.payload)
  rw [length_masked] at hpayload
  have hmasked : ¬ (role = .server ∧ ¬ f.mask.isSome = true) := fun h => h.2 (hlegal.direction.mpr h.1)
  have hunmasked : ¬ (role = .client ∧ f.mask.isSome = true) := by
    rintro ⟨hclient, hsome⟩
    rw [hlegal.direction.mp hsome] at hclient
    cases hclient
  have hshort : ¬ (f.opcode.isControl = true ∧ 125 < f.payload.length) := fun h =>
    absurd (hlegal.short h.1) (not_le.mpr h.2)
  have hfinal : ¬ (f.opcode.isControl = true ∧ ¬ f.fin = true) := fun h => h.2 (hlegal.final h.1)
  have hframe : Reads (maskField f.mask.isSome >>= fun mask => take f.payload.length >>= fun payload =>
      pure { fin := f.fin, opcode := f.opcode, mask := mask, payload := masked mask payload })
      (maskBytes f.mask ++ masked f.mask f.payload) f := by
    refine (reads_maskField f.mask).bind ?_
    rw [← append_nil (masked f.mask f.payload)]
    refine hpayload.bind ?_
    rw [masked_masked]
    exact reads_pure f
  exact ((((hframe.reject_bind hunmasked).reject_bind hmasked).reject_bind hfinal).reject_bind hshort).reject_bind
    (not_lt.mpr hmax)

theorem reads_encode (hlegal : f.Legal role)
    (hmax : f.payload.length ≤ maxPayload) : Reads (decoder role maxPayload) f.encode f := by
  obtain ⟨hreserved, hopcode, hfin⟩ := firstByte_bits f.fin f.opcode
  obtain ⟨hcode, hmasked⟩ := secondByte_bits f.mask.isSome (lengthForm_lt f.payload.length)
  have hlength := reads_declaredLength hlegal.size hcode
  have hbody := reads_body hlegal hmax
  rw [← hfin, ← hmasked] at hbody
  have hheader := reads_take (ε := WsError)
    [firstByte f.fin f.opcode, secondByte f.mask.isSome (lengthForm f.payload.length).1]
  exact hheader.bind (((hlength.bind hbody).check_bind hopcode).reject_bind (not_not_intro hreserved))

theorem writes_maskField {mask : Option Mask} (h : maskField isMasked bs i = .ok (some (mask, j))) :
    mask.isSome = isMasked ∧ bs.drop i = maskBytes mask ++ bs.drop j ∧ j = i + (maskBytes mask).length := by
  rw [maskField] at h
  split at h
  · rename_i hmasked
    obtain ⟨bytes, k, htake, hpure⟩ := bind_eq_some.mp h
    obtain ⟨rfl, rfl⟩ := pure_eq_some.mp hpure
    obtain ⟨hsplit, hk⟩ := writes_take 4 htake
    rw [hmasked, maskBytes, Option.elim_some, Mask.bytes_ofBytes (length_of_take htake)]
    exact ⟨rfl, hsplit, hk⟩
  · rename_i hunmasked
    obtain ⟨rfl, rfl⟩ := pure_eq_some.mp h
    simp only [Bool.not_eq_true] at hunmasked
    rw [hunmasked]
    exact ⟨rfl, rfl, rfl⟩

theorem writes_body {fin : Bool} (h : body role maxPayload fin opcode isMasked length bs i = .ok (some (f, j))) :
    f.fin = fin ∧ f.opcode = opcode ∧ f.mask.isSome = isMasked ∧ f.payload.length = length ∧ length ≤ maxPayload ∧
      bs.drop i = maskBytes f.mask ++ masked f.mask f.payload ++ bs.drop j ∧
      j = i + (maskBytes f.mask ++ masked f.mask f.payload).length := by
  obtain ⟨hmax, h⟩ := reject_bind_eq_some.mp h
  obtain ⟨-, h⟩ := reject_bind_eq_some.mp h
  obtain ⟨-, h⟩ := reject_bind_eq_some.mp h
  obtain ⟨-, h⟩ := reject_bind_eq_some.mp h
  obtain ⟨-, h⟩ := reject_bind_eq_some.mp h
  obtain ⟨_, _, hmask, h⟩ := bind_eq_some.mp h
  obtain ⟨payload, _, hpayload, hpure⟩ := bind_eq_some.mp h
  obtain ⟨hframe, rfl⟩ := pure_eq_some.mp hpure
  obtain ⟨hsome, hsplit, hk⟩ := writes_maskField hmask
  obtain ⟨hsplit', hk'⟩ := writes_take length hpayload
  rw [← hframe]
  simp only [masked_masked, length_masked]
  refine ⟨trivial, trivial, hsome, length_of_take hpayload, Nat.le_of_not_lt hmax, ?_, ?_⟩
  · rw [hsplit, hsplit', id, append_assoc]
  · rw [hk', hk, id, length_append, add_assoc]

theorem writes_decoder {n : Nat} (h : decoder role maxPayload bs 0 = .ok (some (f, n))) :
    f.encode = bs.take n ∧ f.payload.length ≤ maxPayload := by
  obtain ⟨header, _, hheader, h⟩ := bind_eq_some.mp h
  obtain ⟨hreserved, h⟩ := reject_bind_eq_some.mp h
  obtain ⟨opcode, _, hbits, h⟩ := bind_eq_some.mp h
  obtain ⟨length, _, hlength, hbody⟩ := bind_eq_some.mp h
  obtain ⟨hopcode, rfl⟩ := check_eq_some.mp hbits
  obtain ⟨hsplit, hi1⟩ := writes_take 2 hheader
  have hcode : (header.getD 1 0 &&& 0x7f).toNat < 128 := by
    exact lt_of_le_of_lt and_le_right (by decide)
  obtain ⟨hform, hsplit', _⟩ := writes_declaredLength hcode hlength
  obtain ⟨hfin, hop, hmasked, hsize, hmax, hsplit'', _⟩ := writes_body hbody
  -- the two bytes of the header
  have htwo : header = [header.getD 0 0, header.getD 1 0] := by
    match header, length_of_take hheader with
    | [_, _], _ => rfl
  have hfirst : firstByte f.fin f.opcode = header.getD 0 0 := by
    rw [hfin, hop]
    exact firstByte_of_bits (not_not.mp hreserved) hopcode
  have hsecond : secondByte f.mask.isSome (lengthForm f.payload.length).1 = header.getD 1 0 := by
    rw [hmasked, hsize, hform]
    exact secondByte_of_bits _
  have hencode : f.encode = header ++ ((lengthForm length).2 ++ (maskBytes f.mask ++ masked f.mask f.payload)) := by
    rw [encode, hfirst, hsecond, hsize]
    nth_rewrite 3 [htwo]
    rfl
  have hwhole : bs = f.encode ++ bs.drop n := by
    rw [hencode, append_assoc, append_assoc, ← hsplit'', ← hsplit', ← id.eq_1 header]
    exact hsplit
  have hlong : n = f.encode.length := by
    rw [hencode, length_append, length_append]
    rw [id] at hi1
    omega
  refine ⟨?_, hsize ▸ hmax⟩
  rw [hlong]
  exact prefix_iff_eq_take.mp ⟨bs.drop n, hwhole.symm⟩

/-! ## A canonical code -/

/-- A legal frame is decoded whatever follows, none of its beginnings is, and it is written canonically. -/
theorem decode_canonical (role : Role) (maxPayload : Nat) :
    (∀ f : Frame, f.Legal role → f.payload.length ≤ maxPayload →
      (∀ rest, decode (f.encode ++ rest) role maxPayload = .ok (some (f, f.encode.length))) ∧
      ∀ front, front <+: f.encode → front ≠ f.encode → decode front role maxPayload = .ok none) ∧
    ∀ bytes f n, decode bytes role maxPayload = .ok (some (f, n)) → n ≤ bytes.length ∧ f.encode = bytes.take n := by
  refine ⟨fun f hlegal hmax => ?_, fun bytes f n h => ?_⟩
  · have hreads := reads_encode hlegal hmax
    exact ⟨hreads.decode, fun front hfront hne => hreads.undecided (stable_decoder role maxPayload) hfront hne⟩
  · exact ⟨((stable_decoder role maxPayload).bounds (zero_le _) h).2, (writes_decoder h).1⟩

theorem decode_canonical_ping :
    let f : Frame := { fin := true, opcode := .ping, mask := some ⟨0x37, 0xfa, 0x21, 0x3d⟩, payload := [0x48, 0x69] }
    f.Legal .server ∧ (∀ rest, decode (f.encode ++ rest) .server 125 = .ok (some (f, f.encode.length))) ∧
      ∀ front, front <+: f.encode → front ≠ f.encode → decode front .server 125 = .ok none :=
  have hlegal : Legal .server ⟨true, .ping, some ⟨0x37, 0xfa, 0x21, 0x3d⟩, [0x48, 0x69]⟩ :=
    ⟨by decide, by decide, by decide, by decide⟩
  ⟨hlegal, (decode_canonical .server 125).1 _ hlegal (by decide)⟩

end Frame

end Rustlavel.Ws
