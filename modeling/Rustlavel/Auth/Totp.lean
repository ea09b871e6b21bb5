/-
  Time-based one-time codes and recovery codes. A code is computed from a secret and the number of a time step;
  a code is accepted if it is that of the current step or of one at most `skew` steps away.
-/

import Rustlavel.OAuth.Scopes

namespace Rustlavel.Auth

open List

open OAuth (isWhitespace)

/-! ## Base 32 -/

def base32Value (c : Char) : Option Nat :=
  if 'A' ≤ c ∧ c ≤ 'Z' then some (c.toNat - 'A'.toNat)
  else if 'a' ≤ c ∧ c ≤ 'z' then some (c.toNat - 'a'.toNat)
  else if '2' ≤ c ∧ c ≤ '7' then some (c.toNat - '2'.toNat + 26)
  else none

/-- The decoder with what it holds: a `u32` and how many of its bits are pending. -/
def base32DecodeFrom : List Char → Nat → Nat → Option (List UInt8)
  | [], _, _ => some []
  | c :: text, buffer, bits =>
    if c = '=' ∨ isWhitespace c then base32DecodeFrom text buffer bits
    else do
      let value ← base32Value c
      let buffer := (buffer * 32 + value) % 2 ^ 32
      if bits + 5 ≥ 8 then
        let bytes ← base32DecodeFrom text buffer (bits + 5 - 8)
        return UInt8.ofNat (buffer / 2 ^ (bits + 5 - 8)) :: bytes
      else base32DecodeFrom text buffer (bits + 5)

/-! ## Codes of a counter -/

inductive Algorithm where
  | sha1
  | sha256
  | sha512
  deriving DecidableEq

structure Hmac where
  mac : Algorithm → List UInt8 → Nat → List UInt8
  length : ∀ algorithm secret counter, 20 ≤ (mac algorithm secret counter).length

def clampedDigits (digits : Nat) : Nat := max 6 (min digits 10)

/-- A number below `10 ^ width` in decimal, with leading zeros. -/
def padded : Nat → Nat → List Char
  | 0, _ => []
  | width + 1, value => padded width (value / 10) ++ [Char.ofNat ('0'.toNat + value % 10)]

def truncated (hash : List UInt8) : Nat :=
  let byte (i : Nat) : Nat := (hash.getD i 0).toNat
  let offset := byte (hash.length - 1) % 16
  byte offset % 128 * 2 ^ 24 + byte (offset + 1) * 2 ^ 16 + byte (offset + 2) * 2 ^ 8 + byte (offset + 3)

def hotpWith (H : Hmac) (algorithm : Algorithm) (secret : List UInt8) (counter digits : Nat) : String :=
  let digits := clampedDigits digits
  String.ofList (padded digits (truncated (H.mac algorithm secret counter) % 10 ^ digits))

/-! ## Codes of a time step -/

def stepOf (unixSeconds period : Nat) : Nat := unixSeconds / max period 1

structure Totp where
  secret : List UInt8
  digits : Nat
  period : Nat
  algorithm : Algorithm
  skew : Nat

namespace Totp

def defaultDigits : Nat := 6

def defaultPeriod : Nat := 30

def defaultSkew : Nat := 1

def new (secret : List UInt8) : Totp where
  secret := secret
  digits := defaultDigits
  period := defaultPeriod
  algorithm := .sha1
  skew := defaultSkew

def fromBase32 (secret : String) : Except String Totp :=
  match base32DecodeFrom secret.toList 0 0 with
  | none => .error "that is not a base32 secret: it contains characters outside A-Z and 2-7"
  | some [] => .error "a TOTP secret cannot be empty"
  | some bytes => .ok (new bytes)

variable (T : Totp) (H : Hmac)

def withSkew (skew : Nat) : Totp := { T with skew }

def atStep (step : Nat) : String := hotpWith H T.algorithm T.secret step T.digits

def window (unixSeconds : Nat) : Nat × Nat :=
  let step := stepOf unixSeconds T.period
  (step - T.skew, min (step + T.skew) (2 ^ 64 - 1))

def verify (code : String) (unixSeconds : Nat) : Bool :=
  if code.utf8ByteSize ≠ T.digits ∨ ¬code.toList.all Char.isDigit then false
  else
    let (first, last) := T.window unixSeconds
    (List.range' first (last + 1 - first)).any fun candidate => T.atStep H candidate == code

variable {T H}

theorem verify_eq_true {code : String} {unixSeconds : Nat} (h : T.verify H code unixSeconds = true) :
    ∃ step, (T.window unixSeconds).1 ≤ step ∧ step ≤ (T.window unixSeconds).2 ∧ T.atStep H step = code := by
  unfold verify at h
  split at h
  · cases h
  · obtain ⟨step, hmem, hcode⟩ := any_eq_true.mp h
    obtain ⟨hfirst, _⟩ := mem_range'_1.mp hmem
    refine ⟨step, hfirst, ?_, by simpa using hcode⟩
    show step ≤ min (stepOf unixSeconds T.period + T.skew) (2 ^ 64 - 1)
    omega

end Totp

/-! ### The code of a step in the window is accepted -/

theorem isDigit_padded (width value : Nat) : ∀ c ∈ padded width value, c.isDigit = true := by
  induction width generalizing value with
  | zero => exact nofun
  | succ width ih =>
    intro c hc
    rcases mem_append.mp hc with hc | hc
    · exact ih _ c hc
    · obtain rfl := mem_singleton.mp hc
      have hdigit : ∀ d < 10, (Char.ofNat ('0'.toNat + d)).isDigit = true := by decide
      exact hdigit _ (Nat.mod_lt _ (by decide))

theorem utf8ByteSize_padded (width value : Nat) : (String.ofList (padded width value)).utf8ByteSize = width := by
  induction width generalizing value with
  | zero => rfl
  | succ width ih =>
    have hsize : ∀ d < 10, (String.ofList [Char.ofNat ('0'.toNat + d)]).utf8ByteSize = 1 := by decide
    rw [padded, String.ofList_append, String.utf8ByteSize_append, ih, hsize _ (Nat.mod_lt _ (by decide))]

theorem Totp.verify_atStep {T : Totp} {H : Hmac} {step unixSeconds : Nat}
    (hdigits : clampedDigits T.digits = T.digits) (hfirst : (T.window unixSeconds).1 ≤ step)
    (hlast : step ≤ (T.window unixSeconds).2) : T.verify H (T.atStep H step) unixSeconds = true := by
  have hcode : T.atStep H step = String.ofList (padded T.digits
      (truncated (H.mac T.algorithm T.secret step) % 10 ^ T.digits)) := by
    unfold atStep hotpWith
    rw [hdigits]
  have hall : (T.atStep H step).toList.all Char.isDigit = true := by
    rw [hcode, String.toList_ofList]
    exact all_eq_true.mpr (isDigit_padded _ _)
  have hsize : (T.atStep H step).utf8ByteSize = T.digits := by
    rw [hcode, utf8ByteSize_padded]
  unfold verify
  rw [if_neg (by simp [hsize, hall])]
  refine any_eq_true.mpr ⟨step, mem_range'_1.mpr ⟨hfirst, ?_⟩, by simp⟩
  show step < (T.window unixSeconds).1 + ((T.window unixSeconds).2 + 1 - (T.window unixSeconds).1)
  omega

/-! ## Recovery codes -/

def recoveryAlphabet : List Char := "23456789ABCDEFGHJKLMNPQRSTUVWXYZ".toList

def recoveryCodeLength : Nat := 10

/-- Ten characters as `xxxxx-xxxxx`. -/
def punctuate (characters : List Char) : List Char :=
  if characters.length ≠ recoveryCodeLength then characters
  else characters.take 5 ++ '-' :: characters.drop 5

def normalise (code : String) : String :=
  String.ofList (punctuate ((code.toList.map Char.toUpper).filter (· ∈ recoveryAlphabet)))

def consumeRecoveryCode (verifyPassword : String → String → Bool) (code : String)
    (hashes : List String) : Option (List String) :=
  let normalised := normalise code
  if normalised = "" then none
  else (hashes.findIdx? (verifyPassword normalised)).map hashes.eraseIdx

end Rustlavel.Auth
