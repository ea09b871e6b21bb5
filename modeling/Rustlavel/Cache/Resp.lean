/-
  The protocol that the Redis client speaks: replies are values with a tag and a line each, commands are arrays
  of byte strings that carry their lengths.
-/

import Rustlavel.Lib.Incremental
import Rustlavel.Lib.Text
import Rustlavel.Lib.Utf8

namespace Rustlavel.Cache.Resp

open Incremental Incremental.Decoder Outcome Text List Utf8 Nat

def maxBulk : Nat := 512 * 1024 * 1024

def maxDepth : Nat := 32

inductive Value where
  | simple (text : List Char)
  | error (text : List Char)
  | integer (n : Int)
  | bulk (bytes : List UInt8)
  | nil
  | array (items : List Value)

def crlf : List UInt8 := [0x0d, 0x0a]

/-! ## Encoding -/

def line (tag : Char) (text : List Char) : List UInt8 := ascii tag :: (encode text ++ crlf)

def bulkBytes (bytes : List UInt8) : List UInt8 := line '$' (integerText bytes.length) ++ (bytes ++ crlf)

mutual

def Value.encode : Value → List UInt8
  | .simple text => line '+' text
  | .error text => line '-' text
  | .integer n => line ':' (integerText n)
  | .bulk bytes => bulkBytes bytes
  | .nil => line '$' (integerText (-1))
  | .array items => line '*' (integerText items.length) ++ encodeItems items

def encodeItems : List Value → List UInt8
  | [] => []
  | item :: items => item.encode ++ encodeItems items

end

def encodeCommand (args : List (List UInt8)) : List UInt8 :=
  line '*' (integerText args.length) ++ args.flatMap bulkBytes

theorem encodeItems_eq (items : List Value) : encodeItems items = items.flatMap Value.encode := by
  induction items with
  | nil => simp [encodeItems]
  | cons item items ih => simp [encodeItems, ih]

theorem encodeCommand_eq (args : List (List UInt8)) : encodeCommand args = (Value.array (args.map .bulk)).encode := by
  rw [Value.encode, encodeItems_eq, flatMap_map, length_map, encodeCommand]
  simp only [Value.encode]

/-! ## Decoding -/

def protocol (message : List Char) : String := String.ofList ("RESP: ".toList ++ message)

def debugChar (c : Char) : List Char :=
  let escape :=
    if c = '\x00' then ['\\', '0']
    else if c = '\t' then ['\\', 't']
    else if c = '\r' then ['\\', 'r']
    else if c = '\n' then ['\\', 'n']
    else if c = '\'' ∨ c = '\\' then ['\\', c]
    else if isControl c ∨ c.toNat = 0xa0 ∨ c.toNat = 0xad then
      ['\\', 'u', '\x7b'] ++ toDigits 16 c.toNat ++ ['\x7d']
    else [c]
  '\'' :: (escape ++ ['\''])

def toText (bytes : List UInt8) : Except String (List Char) :=
  match fromUtf8 bytes with
  | some text => .ok text
  | none => .error (protocol "a status or error reply was not valid UTF-8".toList)

def parseInt (bytes : List UInt8) : Except String Int :=
  match (fromUtf8 bytes).bind fun text => parseSigned (2 ^ 63) (trim text) with
  | some n => .ok n
  | none => .error (protocol (['\x60'] ++ lossy bytes ++ "\x60 is not a RESP integer".toList))

/-- What follows the first line of a reply; `item` decodes the items of an array. -/
def reply (item : Decoder UInt8 String Value) (tag : UInt8) (bytes : List UInt8) : Decoder UInt8 String Value :=
  if tag = ascii '+' then do
    let text ← check (toText bytes)
    pure (.simple text)
  else if tag = ascii '-' then do
    let text ← check (toText bytes)
    pure (.error text)
  else if tag = ascii ':' then do
    let n ← check (parseInt bytes)
    pure (.integer n)
  else if tag = ascii '$' then do
    let length ← check (parseInt bytes)
    if length < 0 then pure .nil
    else do
      reject ((maxBulk : Int) < length)
        (protocol ("bulk reply of ".toList ++ integerText length ++ " bytes is implausible".toList))
      -- the end of the line after the payload must be there, whatever its bytes are
      let payload ← take (length.toNat + 2)
      pure (.bulk (payload.take length.toNat))
  else if tag = ascii '*' then do
    let count ← check (parseInt bytes)
    if count < 0 then pure .nil
    else do
      reject ((maxBulk : Int) < count)
        (protocol ("array reply of ".toList ++ integerText count ++ " items is implausible".toList))
      let items ← times count.toNat item
      pure (.array items)
  else check (.error (protocol ("unknown RESP type byte ".toList ++ debugChar (Char.ofNat tag.toNat) ++
    " — is this actually a Redis server?".toList)))

/-- `decode_at`, with how many more levels are followed in place of the depth. -/
def decodeAt : Nat → Decoder UInt8 String Value
  | 0 => check (.error (protocol "reply nests deeper than this client will follow".toList))
  | left + 1 => do
    let tag ← take 1
    let bytes ← before crlf
    reply (decodeAt left) (tag.getD 0 0) bytes

def decode (input : List UInt8) : Result String (Option (Value × Nat)) := decodeAt (maxDepth + 1) input 0

/-! ## Answers stay -/

theorem stable_reply {item : Decoder UInt8 String Value} (hitem : Stable item) (tag : UInt8) (bytes : List UInt8) :
    Stable (reply item tag bytes) := by
  rw [reply]
  split
  · exact stable_bind (stable_check _) fun _ => stable_pure _
  split
  · exact stable_bind (stable_check _) fun _ => stable_pure _
  split
  · exact stable_bind (stable_check _) fun _ => stable_pure _
  split
  · refine stable_bind (stable_check _) fun length => ?_
    split
    · exact stable_pure _
    · exact stable_bind (stable_reject _ _) fun _ => stable_bind (stable_take _) fun _ => stable_pure _
  split
  · refine stable_bind (stable_check _) fun count => ?_
    split
    · exact stable_pure _
    · exact stable_bind (stable_reject _ _) fun _ => stable_bind (stable_times hitem _) fun _ => stable_pure _
  · exact stable_check _

theorem stable_decodeAt (left : Nat) : Stable (decodeAt left) := by
  induction left with
  | zero => exact stable_check _
  | succ left ih =>
    exact stable_bind (stable_take 1) fun _ => stable_bind (stable_before (by decide)) fun _ =>
      stable_reply ih _ _

/-! ## Lines -/

theorem not_infix_encode {text : List Char} (h : ¬ ['\r', '\n'] <:+: text) : ¬ crlf <:+: encode text := by
  rintro ⟨front, back, hsplit⟩
  have hbytes : encode text = front ++ String.utf8EncodeChar '\r' ++ ([] ++ String.utf8EncodeChar '\n' ++ back) := by
    rw [← hsplit, append_assoc, append_assoc]
    rfl
  have hread := lossy_encode text
  rw [hbytes, lossy_append_ascii (by decide), lossy_append_ascii (by decide)] at hread
  exact h ⟨lossy front, lossy back, by rw [← hread]; simp [lossy, scans]⟩

theorem not_infix_integerText (n : Int) : ¬ ['\r', '\n'] <:+: integerText n := by
  rintro ⟨front, back, hsplit⟩
  have hmem : '\r' ∈ integerText n := by
    rw [← hsplit]
    simp
  exact absurd (isWhitespace_of_mem_integerText hmem) (by decide)

theorem parseInt_integerText {n : Int} (hlow : -2 ^ 63 ≤ n) (hhigh : n < 2 ^ 63) :
    parseInt (encode (integerText n)) = .ok n := by
  have htrim : trim (integerText n) = integerText n := trim_of_forall fun _ hc => isWhitespace_of_mem_integerText hc
  have hparse : parseSigned (2 ^ 63) (integerText n) = some n :=
    parseSigned_integerText (by simpa using hlow) (by simpa using hhigh)
  rw [parseInt, fromUtf8_encode, Option.bind_some, htrim, hparse]

theorem toText_encode (text : List Char) : toText (encode text) = .ok text := by
  rw [toText, fromUtf8_encode]

section

variable {left : Nat} {tag : Char} {text : List Char} {tail : List UInt8}

theorem reads_tag (tag : Char) : Reads (ε := String) (take 1) [ascii tag] [ascii tag] := reads_take _

theorem reads_text (h : ¬ ['\r', '\n'] <:+: text) :
    Reads (ε := String) (before crlf) (encode text ++ crlf) (encode text) :=
  reads_before (Reading.position_pair (by decide) (not_infix_encode h))

theorem reads_line {v : Value} (htext : ¬ ['\r', '\n'] <:+: text)
    (h : Reads (reply (decodeAt left) (ascii tag) (encode text)) tail v) :
    Reads (decodeAt (left + 1)) (line tag text ++ tail) v := by
  have hread := (reads_tag tag).bind (f := fun tag => before crlf >>= reply (decodeAt left) (tag.getD 0 0))
    ((reads_text htext).bind h)
  exact hread

theorem refuses_line {e : String} (htext : ¬ ['\r', '\n'] <:+: text)
    (h : Refuses (reply (decodeAt left) (ascii tag) (encode text)) tail e) :
    Refuses (decodeAt (left + 1)) (line tag text ++ tail) e := by
  have hrefuse := (reads_tag tag).bind_refuses (f := fun tag => before crlf >>= reply (decodeAt left) (tag.getD 0 0))
    ((reads_text htext).bind_refuses h)
  exact hrefuse

end

/-! ## Replies are read back -/

/-- Arrays nested no deeper than `depth`, texts without line ends, numbers of 64 bits, and lengths up to the
    largest. -/
def Value.Fits : Nat → Value → Prop
  | _, .simple text => ¬ ['\r', '\n'] <:+: text
  | _, .error text => ¬ ['\r', '\n'] <:+: text
  | _, .integer n => -2 ^ 63 ≤ n ∧ n < 2 ^ 63
  | _, .bulk bytes => bytes.length ≤ maxBulk
  | _, .nil => True
  | 0, .array _ => False
  | depth + 1, .array items => items.length ≤ maxBulk ∧ ∀ item ∈ items, item.Fits depth

variable {n m : Nat} {bytes a b : List UInt8} {items : List Value} {v : Value} {args : List (List UInt8)}

theorem parseInt_length (h : n ≤ maxBulk + 1) : parseInt (encode (integerText n)) = .ok (n : Int) := by
  unfold maxBulk at h
  exact parseInt_integerText (by omega) (by omega)

theorem reads_bulk (left : Nat) (h : bytes.length ≤ maxBulk) :
    Reads (decodeAt (left + 1)) (bulkBytes bytes) (.bulk bytes) := by
  refine reads_line (not_infix_integerText _) ?_
  refine Reads.check_bind (parseInt_length (le_succ_of_le h)) ?_
  refine Reads.reject_bind (by omega) ?_
  have htake := reads_take (ε := String) (bytes ++ crlf)
  have hread := htake.bind (f := fun payload => pure (Value.bulk (payload.take bytes.length))) (reads_pure _)
  rw [append_nil, take_left, length_append] at hread
  exact hread

theorem reads_array {left : Nat} (hlength : items.length ≤ maxBulk)
    (h : ∀ item ∈ items, Reads (decodeAt left) item.encode item) :
    Reads (decodeAt (left + 1)) (Value.array items).encode (.array items) := by
  rw [Value.encode, encodeItems_eq]
  refine reads_line (not_infix_integerText _) ?_
  refine Reads.check_bind (parseInt_length (le_succ_of_le hlength)) ?_
  refine Reads.reject_bind (by omega) ?_
  have hread := (reads_times h).bind (f := fun items => pure (Value.array items)) (reads_pure _)
  rwa [append_nil] at hread

theorem reads_single {left : Nat} {tag : Char} {text : List Char} (htext : ¬ ['\r', '\n'] <:+: text)
    (h : Reads (reply (decodeAt left) (ascii tag) (encode text)) [] v) :
    Reads (decodeAt (left + 1)) (line tag text) v := by
  have hread := reads_line htext h
  rwa [append_nil] at hread

theorem reads_encode {depth : Nat} (h : v.Fits depth) : Reads (decodeAt (depth + 1)) v.encode v := by
  induction depth, v using Value.Fits.induct with
  | case1 depth text =>
    rw [Value.Fits] at h
    refine reads_single h ?_
    exact Reads.check_bind (toText_encode text) (reads_pure _)
  | case2 depth text =>
    rw [Value.Fits] at h
    refine reads_single h ?_
    exact Reads.check_bind (toText_encode text) (reads_pure _)
  | case3 depth n =>
    rw [Value.Fits] at h
    refine reads_single (not_infix_integerText n) ?_
    exact Reads.check_bind (parseInt_integerText h.1 h.2) (reads_pure _)
  | case4 depth =>
    rw [Value.Fits] at h
    exact reads_bulk depth h
  | case5 =>
    refine reads_single (not_infix_integerText (-1)) ?_
    exact Reads.check_bind (parseInt_integerText (by decide) (by decide)) (reads_pure _)
  | case6 => exact absurd h (by rw [Value.Fits]; exact id)
  | case7 depth items ih =>
    exact reads_array h.1 fun item hitem => ih item (h.2 item hitem)

theorem fits_command (hcount : args.length ≤ maxBulk)
    (hargs : ∀ arg ∈ args, arg.length ≤ maxBulk) : (Value.array (args.map .bulk)).Fits maxDepth := by
  rw [maxDepth, Value.Fits, length_map]
  refine ⟨hcount, fun item hitem => ?_⟩
  obtain ⟨arg, harg, rfl⟩ := mem_map.mp hitem
  exact hargs arg harg

/-! ## Commands differ -/

theorem not_mem_encode_integerText (n : Int) : (0x0d : UInt8) ∉ encode (integerText n) := by
  intro hmem
  have hchar : '\r' ∈ integerText n := mem_of_mem_encode (by decide) hmem
  exact absurd (isWhitespace_of_mem_integerText hchar) (by decide)

theorem integerText_injective (h : encode (integerText m) = encode (integerText n)) : m = n := by
  have hread := fromUtf8_encode (integerText m)
  rw [h, fromUtf8_encode] at hread
  have hm : parseSigned (m + n + 1) (integerText m) = some (m : Int) := parseSigned_integerText (by omega) (by omega)
  have hn : parseSigned (m + n + 1) (integerText n) = some (n : Int) := parseSigned_integerText (by omega) (by omega)
  rw [← Option.some.inj hread, hn] at hm
  exact Int.ofNat.inj (Option.some.inj hm).symm

theorem line_injective {tag : Char}
    (h : line tag (integerText m) ++ a = line tag (integerText n) ++ b) : m = n ∧ a = b := by
  simp only [line, crlf, cons_append, append_assoc, nil_append, List.cons.injEq, true_and] at h
  obtain ⟨hnumber, hrest⟩ := Reading.append_cons_injective (not_mem_encode_integerText m)
    (not_mem_encode_integerText n) h
  exact ⟨integerText_injective hnumber, (List.cons.inj hrest).2⟩

theorem bulkBytes_append_injective {x y : List UInt8} (h : bulkBytes x ++ a = bulkBytes y ++ b) : x = y ∧ a = b := by
  simp only [bulkBytes, append_assoc] at h
  obtain ⟨hlength, hrest⟩ := line_injective h
  obtain ⟨hxy, htail⟩ := List.append_inj hrest hlength
  exact ⟨hxy, append_cancel_left htail⟩

theorem encodeCommand_injective {args' : List (List UInt8)} (h : encodeCommand args = encodeCommand args') :
    args = args' := by
  obtain ⟨hcount, hitems⟩ := line_injective h
  clear h
  induction args generalizing args' with
  | nil => exact (length_eq_zero_iff.mp hcount.symm).symm
  | cons x xs ih =>
    cases args' with
    | nil => cases hcount
    | cons =>
      obtain ⟨rfl, hrest⟩ := bulkBytes_append_injective hitems
      rw [ih (succ.inj hcount) hrest]

/-! ## The whole -/

/-- Answers and errors stay when the buffer grows; a reply is read back whole and none of its beginnings is one;
    commands are told apart and read back, if their lengths are allowed. -/
theorem decode_incremental : (∀ (b r : List UInt8) (v : Value) (n : Nat), decode b = .ok (some (v, n)) →
      decode (b ++ r) = .ok (some (v, n)) ∧ n ≤ b.length) ∧
    (∀ (b r : List UInt8) (e : Fault String), decode b = .error e → decode (b ++ r) = .error e) ∧
    (∀ v : Value, v.Fits maxDepth → (∀ r, decode (v.encode ++ r) = .ok (some (v, v.encode.length))) ∧
      ∀ front, front <+: v.encode → front ≠ v.encode → decode front = .ok none) ∧
    (∀ args args' : List (List UInt8), args ≠ args' → encodeCommand args ≠ encodeCommand args') ∧
    ∀ args : List (List UInt8), args.length ≤ maxBulk → (∀ arg ∈ args, arg.length ≤ maxBulk) →
      decode (encodeCommand args) = .ok (some (.array (args.map .bulk), (encodeCommand args).length)) := by
  have hstable := stable_decodeAt (maxDepth + 1)
  refine ⟨fun b r v n h => ?_, fun b r e h => ?_, fun v hv => ⟨fun r => ?_, fun front hfront hne => ?_⟩,
    fun args args' hne heq => hne (encodeCommand_injective heq), fun args hcount hargs => ?_⟩
  · have hstays := hstable.settled (zero_le _) (by rw [decode] at h; rw [h]; simp) r
    exact ⟨hstays.trans h, (hstable.bounds (zero_le _) h).2⟩
  · exact (hstable.settled (zero_le _) (by rw [decode] at h; rw [h]; simp) r).trans h
  · exact (reads_encode hv).decode r
  · exact (reads_encode hv).undecided hstable hfront hne
  · have hread := (reads_encode (fits_command hcount hargs)).decode []
    rw [append_nil, ← encodeCommand_eq] at hread
    exact hread

theorem decode_incremental_nested :
    decode ((Value.array [.integer (-7), .array [.nil, .bulk [0x0d, 0x0a]]]).encode ++ [0x2b]) =
      .ok (some (.array [.integer (-7), .array [.nil, .bulk [0x0d, 0x0a]]], 26)) ∧
    decode (encodeCommand [[0x0d, 0x0a], []]) = .ok (some (.array [.bulk [0x0d, 0x0a], .bulk []], 18)) := by
  refine ⟨(decode_incremental.2.2.1 _ ?_).1 _, decode_incremental.2.2.2.2 _ ?_ ?_⟩
  · simp [Value.Fits, maxDepth, maxBulk]
  · simp [maxBulk]
  · simp [maxBulk]

/-! ## Lengths beyond the largest -/

theorem refuses_bulk (left : Nat) (h : bytes.length = maxBulk + 1) : Refuses (decodeAt (left + 1)) (bulkBytes bytes)
      (protocol ("bulk reply of ".toList ++ integerText bytes.length ++ " bytes is implausible".toList)) := by
  refine refuses_line (not_infix_integerText _) ?_
  refine Refuses.check_bind (parseInt_length (le_of_eq h)) ?_
  exact (refuses_reject (by omega) _ _).bind _

theorem refuses_array (left : Nat) (h : items.length = maxBulk + 1) :
    Refuses (decodeAt (left + 1)) (Value.array items).encode
      (protocol ("array reply of ".toList ++ integerText items.length ++ " items is implausible".toList)) := by
  refine refuses_line (not_infix_integerText _) ?_
  refine Refuses.check_bind (parseInt_length (le_of_eq h)) ?_
  exact (refuses_reject (by omega) _ _).bind _

theorem refuses_command {arg : List UInt8} (h : arg.length = maxBulk + 1) :
    Refuses (decodeAt (maxDepth + 1)) (encodeCommand [arg])
      (protocol ("bulk reply of ".toList ++ integerText arg.length ++ " bytes is implausible".toList)) := by
  refine refuses_line (not_infix_integerText _) ?_
  refine Refuses.check_bind (parseInt_length (by simp)) ?_
  have hitem := (refuses_bulk 31 h).bind fun item => times 0 (decodeAt maxDepth) >>= fun items => pure (item :: items)
  rw [flatMap_cons, flatMap_nil, append_nil]
  exact Refuses.check_bind (r := .ok ()) rfl (hitem.bind _)

/-- An array with one item too many, and a command with an argument one byte too long, are encoded and refused. -/
theorem longer_refused : (∃ e, decode (Value.array (List.replicate (maxBulk + 1) .nil)).encode = fail e) ∧
    ∃ e, decode (encodeCommand [List.replicate (maxBulk + 1) 0]) = fail e := by
  exact ⟨⟨_, (refuses_array maxDepth length_replicate).decode⟩, ⟨_, (refuses_command length_replicate).decode⟩⟩

end Rustlavel.Cache.Resp
