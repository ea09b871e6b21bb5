/-
  `BitReader` and `BitWriter`: bits packed least significant first into bytes (RFC 1951 §3.1.1).
-/

import Rustlavel.Lib.BitList
import Rustlavel.Http.Deflate.Format

namespace Rustlavel.Http.Deflate

open BitList List Outcome Nat

/-! ## Reading -/

/-- `BitReader`: the input, how many bytes of it were pulled in, and the bits pulled in but not yet read. -/
structure BitReader where
  data : List UInt8
  pos : Nat
  bits : Nat
  count : Nat
  deriving DecidableEq

variable {bits1 bits2 : List Bool}

namespace BitReader

variable (data : List UInt8)

def new : BitReader := { data, pos := 0, bits := 0, count := 0 }

def refill (r : BitReader) (n : Nat) : Nat → Res BitReader
  | 0 => if r.count < n then .error .diverged else .ok r
  | fuel + 1 =>
    if r.count < n then
      match r.data[r.pos]? with
      | none => fail .truncated
      | some byte =>
        refill { r with bits := r.bits ||| byte.toNat <<< r.count, count := r.count + 8, pos := r.pos + 1 } n fuel
    else .ok r

/-- `BitReader::read`: the next `n` bits as a number. -/
def read (r : BitReader) (n : Nat) : Res (Nat × BitReader) := do
  let r ← r.refill n n
  pure (r.bits &&& (1 <<< n - 1), { r with bits := r.bits >>> n, count := r.count - n })

def readBit (r : BitReader) : Res (Nat × BitReader) := r.read 1

/-- `BitReader::align_to_byte`: drop the rest of the current byte. -/
def alignToByte (r : BitReader) : BitReader := { r with bits := 0, count := 0 }

/-- `BitReader::take_bytes`: whole bytes straight from the input. -/
def takeBytes (r : BitReader) (n : Nat) : Res (List UInt8 × BitReader) :=
  if r.pos + n ≤ r.data.length then
    .ok ((r.data.drop r.pos).take n, { r with pos := r.pos + n })
  else fail .truncated

def position (r : BitReader) : Nat := r.pos

def rest (r : BitReader) : List Bool := lsb r.bits r.count ++ ofBytes (r.data.drop r.pos)

/-- Less than one byte is buffered, nothing stale stands above it, and the input is not overrun. -/
structure WF (r : BitReader) : Prop where
  count_lt : r.count < 8
  bits_lt : r.bits < 2 ^ r.count
  pos_le : r.pos ≤ r.data.length

theorem new_wf : (new data).WF := ⟨succ_pos 7, one_pos, zero_le _⟩

@[simp] theorem rest_new : (new data).rest = ofBytes data := by
  simp [new, rest]

theorem length_rest (r : BitReader) : r.rest.length = r.count + 8 * (r.data.length - r.pos) := by
  simp [rest]

variable {n v : Nat} {r : BitReader} {tail : List Bool}

theorem or_shiftLeft {a : Nat} (b : Nat) (ha : a < 2 ^ n) : a ||| b <<< n = a + 2 ^ n * b := by
  rw [shiftLeft_eq, mul_comm b, Nat.or_comm, ← Nat.two_pow_add_eq_or_of_lt ha, Nat.add_comm]

theorem refill_spec (r : BitReader) (n fuel : Nat) (hbits : r.bits < 2 ^ r.count)
    (hpos : r.pos ≤ r.data.length) (hfuel : n ≤ r.count + 8 * fuel) (hn : n ≤ r.rest.length) :
    ∃ r', r.refill n fuel = .ok r' ∧ r'.bits < 2 ^ r'.count ∧ r'.pos ≤ r'.data.length ∧
      r'.rest = r.rest ∧ r'.data = r.data ∧ n ≤ r'.count ∧
      (r'.count = r.count ∨ r'.count < n + 8) := by
  induction fuel generalizing r with
  | zero =>
    have hdone : ¬ r.count < n := by omega
    exact ⟨r, by rw [refill, if_neg hdone], hbits, hpos, rfl, rfl, by omega, .inl rfl⟩
  | succ fuel ih =>
    by_cases hlt : r.count < n
    · have hlen := length_rest r
      have hpos' : r.pos < r.data.length := by omega
      let r1 : BitReader :=
        { r with bits := r.bits ||| r.data[r.pos].toNat <<< r.count, count := r.count + 8, pos := r.pos + 1 }
      have hbits1 : r1.bits < 2 ^ r1.count := by
        have hbyte := r.data[r.pos].toNat_lt
        simp only [r1, or_shiftLeft _ hbits, pow_add]
        have := mul_le_mul_left (2 ^ r.count) (le_of_lt_succ hbyte)
        omega
      have hrest1 : r1.rest = r.rest := by
        simp only [r1, rest, or_shiftLeft _ hbits]
        rw [lsb_append _ _ hbits, drop_eq_getElem_cons hpos', ofBytes_cons, append_assoc]
      obtain ⟨r', hr', hb', hp', hrest', hdata', hcount', hor⟩ :=
        ih r1 hbits1 hpos' (by simp only [r1]; omega) (by rw [hrest1]; exact hn)
      refine ⟨r', ?_, hb', hp', hrest'.trans hrest1, hdata', hcount', .inr ?_⟩
      · rw [refill, if_pos hlt, List.getElem?_eq_getElem hpos']
        exact hr'
      · rcases hor with heq | hlt'
        · simp only [r1] at heq
          omega
        · exact hlt'
    · exact ⟨r, by rw [refill, if_neg hlt], hbits, hpos, rfl, rfl, by omega, .inl rfl⟩

theorem read_spec (hr : r.WF) (hn : n ≤ r.rest.length) :
    ∃ r', r.read n = .ok (unlsb (r.rest.take n), r') ∧ r'.WF ∧ r'.rest = r.rest.drop n ∧ r'.data = r.data := by
  obtain ⟨r1, hr1, hb, hp, hrest, hdata, hcount, _⟩ := refill_spec r n n hr.bits_lt hr.pos_le (by omega) hn
  have hlow : r1.bits &&& (1 <<< n - 1) = r1.bits % 2 ^ n := by
    rw [one_shiftLeft, and_two_pow_sub_one_eq_mod]
  have hsplit : lsb r1.bits r1.count = lsb r1.bits n ++ lsb (r1.bits / 2 ^ n) (r1.count - n) := by
    rw [← lsb_add, Nat.add_sub_cancel' hcount]
  have hval : unlsb (r.rest.take n) = r1.bits % 2 ^ n := by
    rw [← hrest, rest, hsplit, append_assoc, take_left' (length_lsb _ _), unlsb_lsb]
  refine ⟨{ r1 with bits := r1.bits >>> n, count := r1.count - n }, ?_, ⟨?_, ?_, hp⟩, ?_, hdata⟩
  · rw [read, hr1, ok_bind, hlow, hval]
    rfl
  · have := hr.count_lt
    simp only
    omega
  · simp only [shiftRight_eq_div_pow]
    rw [Nat.div_lt_iff_lt_mul (Nat.two_pow_pos n), ← Nat.pow_add, Nat.sub_add_cancel hcount]
    exact hb
  · rw [← hrest]
    simp only [rest, shiftRight_eq_div_pow]
    rw [hsplit, append_assoc, drop_left' (length_lsb _ _)]

theorem read_field (hr : r.WF) (hv : v < 2 ^ n) (hrest : r.rest = lsb v n ++ tail) :
    ∃ r', r.read n = .ok (v, r') ∧ r'.WF ∧ r'.rest = tail ∧ r'.data = r.data := by
  obtain ⟨r', hread, hwf, htail, hdata⟩ := read_spec hr (n := n) (by simp [hrest])
  refine ⟨r', ?_, hwf, ?_, hdata⟩
  · rw [hread, hrest, take_left' (length_lsb _ _), unlsb_lsb, mod_eq_of_lt hv]
  · rw [htail, hrest, drop_left' (length_lsb _ _)]

theorem readBit_field (hr : r.WF) {b : Nat} (hb : b < 2) (hrest : r.rest = lsb b 1 ++ tail) :
    ∃ r', r.readBit = .ok (b, r') ∧ r'.WF ∧ r'.rest = tail ∧ r'.data = r.data :=
  read_field hr hb hrest

theorem alignToByte_spec (hr : r.WF) : r.alignToByte.WF ∧ r.alignToByte.rest = r.rest.drop (r.rest.length % 8) ∧
      r.alignToByte.data = r.data ∧ r.alignToByte.count = 0 := by
  refine ⟨⟨succ_pos 7, one_pos, hr.pos_le⟩, ?_, rfl, rfl⟩
  have hmod : r.rest.length % 8 = r.count := by
    have := hr.count_lt
    rw [length_rest]
    omega
  rw [hmod]
  simp only [alignToByte, rest, lsb_zero, nil_append]
  rw [drop_left' (length_lsb _ _)]

theorem takeBytes_spec (hr : r.WF) (hcount : r.count = 0) {bs : List UInt8} (hrest : r.rest = ofBytes bs ++ tail) :
    ∃ r', r.takeBytes bs.length = .ok (bs, r') ∧ r'.WF ∧ r'.rest = tail ∧ r'.data = r.data := by
  have hbytes : r.rest = ofBytes (r.data.drop r.pos) := by simp [rest, hcount]
  have hlen : bs.length ≤ (r.data.drop r.pos).length := by
    have h := congrArg List.length (hbytes.symm.trans hrest)
    simp only [length_ofBytes, length_append] at h
    omega
  have hdrop : r.data.drop r.pos =
      (r.data.drop r.pos).take bs.length ++ (r.data.drop r.pos).drop bs.length :=
    (take_append_drop ..).symm
  rw [hbytes, hdrop, ofBytes_append] at hrest
  obtain ⟨hfst, hsnd⟩ := List.append_inj hrest (by
    rw [length_ofBytes, length_ofBytes, length_take]
    omega)
  rw [length_drop] at hlen
  have hpos : r.pos + bs.length ≤ r.data.length := by
    have := hr.pos_le
    omega
  refine ⟨{ r with pos := r.pos + bs.length }, ?_, ⟨hr.count_lt, hr.bits_lt, hpos⟩, ?_, rfl⟩
  · rw [takeBytes, if_pos hpos, ofBytes_inj hfst]
  · simp only [rest, hcount, lsb_zero, nil_append]
    rw [← drop_drop]
    exact hsnd

theorem position_eq_length (hr : r.WF) (hrest : r.rest = []) : r.position = r.data.length := by
  have hlen := length_rest r
  have hpos := hr.pos_le
  rw [hrest, length_nil] at hlen
  rw [position]
  omega

/-- `p` reads `bits` off the front of a stream as `v`, and nothing more. -/
def Parses {α : Type} (p : BitReader → Res (α × BitReader)) (bits : List Bool) (v : α) : Prop :=
  ∀ (r : BitReader) (tail : List Bool), r.WF → r.rest = bits ++ tail →
    ∃ r', p r = .ok (v, r') ∧ r'.WF ∧ r'.rest = tail ∧ r'.data = r.data

theorem parses_read (hv : v < 2 ^ n) : Parses (fun r => r.read n) (lsb v n) v :=
  fun _ _ hr hrest => read_field hr hv hrest

theorem parses_pure {α : Type} (v : α) : Parses (fun r => .ok (v, r)) [] v :=
  fun r _ hr hrest => ⟨r, rfl, hr, hrest, rfl⟩

theorem Parses.bind {α β : Type} {p : BitReader → Res (α × BitReader)}
    {v : α} {q : α × BitReader → Res (β × BitReader)} {v' : β} (hp : Parses p bits1 v)
    (hq : Parses (fun r => q (v, r)) bits2 v') : Parses (fun r => p r >>= q) (bits1 ++ bits2) v' := by
  intro r tail hr hrest
  rw [append_assoc] at hrest
  obtain ⟨r1, hp1, hwf1, hrest1, hdata1⟩ := hp r _ hr hrest
  obtain ⟨r2, hq2, hwf2, hrest2, hdata2⟩ := hq r1 tail hwf1 hrest1
  refine ⟨r2, ?_, hwf2, hrest2, hdata2.trans hdata1⟩
  show (p r >>= q) = _
  rw [hp1, ok_bind]
  exact hq2

end BitReader

/-! ## Writing -/

/-- `Code`: a Huffman code ready to write, its bits already reversed. -/
structure Code where
  bits : Nat := 0
  len : Nat := 0
  deriving DecidableEq, Inhabited

/-- `BitWriter`: the finished bytes and the bits of the next one. -/
structure BitWriter where
  out : List UInt8
  bits : Nat
  count : Nat
  deriving DecidableEq

namespace BitWriter

def new : BitWriter := { out := [], bits := 0, count := 0 }

def flush (w : BitWriter) : Nat → BitWriter
  | 0 => w
  | fuel + 1 =>
    if 8 ≤ w.count then
      flush { out := w.out ++ [UInt8.ofNat w.bits], bits := w.bits >>> 8, count := w.count - 8 } fuel
    else w

/-- `BitWriter::write`: the low `n` bits of `value`, least significant first. -/
def write (w : BitWriter) (value n : Nat) : BitWriter :=
  flush { w with bits := w.bits ||| value <<< w.count, count := w.count + n } (w.count + n)

def writeCode (w : BitWriter) (code : Code) : BitWriter := w.write code.bits code.len

def alignToByte (w : BitWriter) : BitWriter :=
  if 0 < w.count then { out := w.out ++ [UInt8.ofNat w.bits], bits := 0, count := 0 } else w

def writeBytes (w : BitWriter) (bytes : List UInt8) : BitWriter := { w with out := w.out ++ bytes }

def finish (w : BitWriter) : List UInt8 := w.alignToByte.out

def stream (w : BitWriter) : List Bool := ofBytes w.out ++ lsb w.bits w.count

/-- What holds between two writes: the unfinished byte is unfinished, and no bit stands above it. -/
structure WF (w : BitWriter) : Prop where
  count_lt : w.count < 8
  bits_lt : w.bits < 2 ^ w.count

theorem new_wf : new.WF := ⟨by decide, by decide⟩

theorem length_stream (w : BitWriter) : w.stream.length = 8 * w.out.length + w.count := by
  simp [stream]

theorem flush_spec (w : BitWriter) (fuel : Nat) (hfuel : w.count ≤ fuel) (hbits : w.bits < 2 ^ w.count) :
    (w.flush fuel).WF ∧ (w.flush fuel).stream = w.stream := by
  induction fuel generalizing w with
  | zero => exact ⟨⟨by rw [flush]; omega, hbits⟩, rfl⟩
  | succ fuel ih =>
    rw [flush]
    split
    case isTrue h8 =>
      have hhigh : w.bits >>> 8 < 2 ^ (w.count - 8) := by
        rw [Nat.shiftRight_eq_div_pow, Nat.div_lt_iff_lt_mul (by decide), ← Nat.pow_add, Nat.sub_add_cancel h8]
        exact hbits
      obtain ⟨hwf, hstream⟩ := ih
        { out := w.out ++ [UInt8.ofNat w.bits], bits := w.bits >>> 8, count := w.count - 8 }
        (by simp only; omega) hhigh
      refine ⟨hwf, hstream.trans ?_⟩
      have hbyte : lsb (UInt8.ofNat w.bits).toNat 8 = lsb w.bits 8 := by
        exact lsb_mod w.bits 8
      have hsplit : lsb w.bits w.count = lsb w.bits 8 ++ lsb (w.bits / 2 ^ 8) (w.count - 8) := by
        rw [← lsb_add, Nat.add_sub_cancel' h8]
      simp only [stream, ofBytes_append, ofBytes_cons, ofBytes_nil, append_nil, hbyte, hsplit,
        shiftRight_eq_div_pow, append_assoc]
    case isFalse h8 => exact ⟨⟨by omega, hbits⟩, rfl⟩

variable {w : BitWriter} {v n : Nat}

theorem write_spec (hw : w.WF) (hv : v < 2 ^ n) : (w.write v n).WF ∧ (w.write v n).stream = w.stream ++ lsb v n := by
  have hor := BitReader.or_shiftLeft v hw.bits_lt
  have hbits : w.bits ||| v <<< w.count < 2 ^ (w.count + n) := by
    have := hw.bits_lt
    have hmul := mul_le_mul_left (2 ^ w.count) (succ_le_of_lt hv)
    rw [hor, pow_add]
    rw [mul_succ] at hmul
    omega
  obtain ⟨hwf, hstream⟩ := flush_spec
    { w with bits := w.bits ||| v <<< w.count, count := w.count + n } (w.count + n) (le_refl _)
    hbits
  refine ⟨hwf, hstream.trans ?_⟩
  simp only [stream, hor, lsb_append v n hw.bits_lt, append_assoc]

/-- `w'` is `w` with `bits` written after it. -/
structure Appends (w w' : BitWriter) (bits : List Bool) : Prop where
  wf : w'.WF
  stream : w'.stream = w.stream ++ bits

theorem Appends.refl (hw : w.WF) : w.Appends w [] := ⟨hw, (append_nil _).symm⟩

theorem Appends.trans {w1 w2 : BitWriter} (h1 : w.Appends w1 bits1)
    (h2 : w1.Appends w2 bits2) : w.Appends w2 (bits1 ++ bits2) :=
  ⟨h2.wf, by rw [h2.stream, h1.stream, append_assoc]⟩

theorem write_appends (hw : w.WF) (hv : v < 2 ^ n) : w.Appends (w.write v n) (lsb v n) :=
  ⟨(write_spec hw hv).1, (write_spec hw hv).2⟩

theorem alignToByte_spec (hw : w.WF) : w.alignToByte.WF ∧ w.alignToByte.count = 0 ∧ ∃ pad < 8,
      w.alignToByte.stream = w.stream ++ List.replicate pad false ∧
      (w.stream.length + pad) % 8 = 0 := by
  have hlen := length_stream w
  have hlt := hw.count_lt
  rw [alignToByte]
  split
  case isTrue hpos =>
    refine ⟨⟨succ_pos 7, one_pos⟩, rfl, 8 - w.count, by omega, ?_, by omega⟩
    have hbits : w.bits < 2 ^ 8 := lt_of_lt_of_le hw.bits_lt (Nat.pow_le_pow_right (by decide) (by omega))
    have hbyte : lsb (UInt8.ofNat w.bits).toNat 8 =
        lsb w.bits w.count ++ List.replicate (8 - w.count) false := by
      have happ := lsb_append 0 (8 - w.count) hw.bits_lt
      rw [mul_zero, add_zero, Nat.add_sub_cancel' (by omega), lsb_zero_val] at happ
      rw [UInt8.toNat_ofNat', mod_eq_of_lt hbits, happ]
    simp only [stream, ofBytes_append, ofBytes_cons, ofBytes_nil, append_nil, hbyte, lsb_zero, append_assoc]
  case isFalse hzero =>
    exact ⟨hw, by omega, 0, by decide, by simp, by omega⟩

theorem writeBytes_spec (hw : w.WF) (hcount : w.count = 0) (bytes : List UInt8) :
    (w.writeBytes bytes).WF ∧ (w.writeBytes bytes).stream = w.stream ++ ofBytes bytes := by
  refine ⟨⟨hw.count_lt, hw.bits_lt⟩, ?_⟩
  simp [writeBytes, stream, hcount]

theorem finish_spec (hw : w.WF) : ∃ pad < 8, ofBytes w.finish = w.stream ++ List.replicate pad false := by
  obtain ⟨-, hcount, pad, hpad, hstream, -⟩ := alignToByte_spec hw
  refine ⟨pad, hpad, ?_⟩
  rw [← hstream, finish, stream, hcount, lsb_zero, append_nil]

end BitWriter

end Rustlavel.Http.Deflate
