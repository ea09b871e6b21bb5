/-
  UTF-8 as a decoder sees it. `scan` reads one character: the first byte says which bytes may follow, and the
  input is refused at the first byte that may not, or ends within a character.
-/

import Mathlib

namespace Utf8

open List Char Option Nat Prod

/-! ## One character -/

def row (b : Nat) : Option (Nat × List (Nat × Nat)) :=
  if b ≤ 0x7f then some (b, [])
  else if 0xc2 ≤ b ∧ b ≤ 0xdf then some (b - 0xc0, [(0x80, 0xbf)])
  -- no second spelling of what needs two bytes
  else if b = 0xe0 then some (0, [(0xa0, 0xbf), (0x80, 0xbf)])
  -- no surrogates
  else if b = 0xed then some (0xd, [(0x80, 0x9f), (0x80, 0xbf)])
  else if 0xe1 ≤ b ∧ b ≤ 0xef then some (b - 0xe0, [(0x80, 0xbf), (0x80, 0xbf)])
  else if b = 0xf0 then some (0, [(0x90, 0xbf), (0x80, 0xbf), (0x80, 0xbf)])
  else if 0xf1 ≤ b ∧ b ≤ 0xf3 then some (b - 0xf0, [(0x80, 0xbf), (0x80, 0xbf), (0x80, 0xbf)])
  -- nothing above the last code point
  else if b = 0xf4 then some (4, [(0x80, 0x8f), (0x80, 0xbf), (0x80, 0xbf)])
  else none

inductive Scan where
  /-- A character, and its width. -/
  | char (c : Char) (width : Nat)
  /-- So many bytes that no character begins with. -/
  | invalid (width : Nat)
  /-- The input ends within a character. -/
  | cut
  deriving DecidableEq

def scanRest (seen code : Nat) : List (Nat × Nat) → List UInt8 → Scan
  | [], _ => .char (ofNat code) seen
  | _ :: _, [] => .cut
  | bound :: bounds, b :: bs =>
    if bound.1 ≤ b.toNat ∧ b.toNat ≤ bound.2 then
      scanRest (seen + 1) (code * 64 + (b.toNat - 0x80)) bounds bs
    else .invalid seen

def scan : List UInt8 → Scan
  | [] => .cut
  | b :: bs =>
    match row b.toNat with
    | none => .invalid 1
    | some (code, bounds) => scanRest 1 code bounds bs

def Within (bound : Nat × Nat) (b : UInt8) : Prop := bound.1 ≤ b.toNat ∧ b.toNat ≤ bound.2

def codePoint (code : Nat) (tail : List UInt8) : Nat := tail.foldl (fun code b => code * 64 + (b.toNat - 0x80)) code

theorem codePoint_cons (code : Nat) (b : UInt8) (tail : List UInt8) :
    codePoint code (b :: tail) = codePoint (code * 64 + (b.toNat - 0x80)) tail := by
  rw [codePoint, codePoint, foldl_cons]

variable {tail : List UInt8}

section

variable {bounds : List (Nat × Nat)} {seen code : Nat} {bs : List UInt8}

theorem scanRest_of_within (h : List.Forall₂ Within bounds tail) (rest : List UInt8) :
    scanRest seen code bounds (tail ++ rest) = .char (ofNat (codePoint code tail)) (seen + tail.length) := by
  induction h generalizing seen code with
  | nil => rfl
  | @cons bound b bounds tail hb _ ih =>
    have hb' : bound.1 ≤ b.toNat ∧ b.toNat ≤ bound.2 := hb
    rw [cons_append, scanRest, if_pos hb', ih, codePoint_cons, length_cons]
    congr 1
    omega

theorem within_of_scanRest {c : Char} {n : Nat} (h : scanRest seen code bounds bs = .char c n) :
    ∃ tail rest, bs = tail ++ rest ∧ List.Forall₂ Within bounds tail ∧ n = seen + tail.length ∧
      c = ofNat (codePoint code tail) := by
  induction bounds generalizing seen code bs with
  | nil =>
    cases h
    exact ⟨[], bs, rfl, .nil, rfl, rfl⟩
  | cons bound bounds ih =>
    cases bs with
    | nil => cases h
    | cons b bs =>
      rw [scanRest] at h
      split at h
      · rename_i hb
        obtain ⟨tail, rest, rfl, hwithin, hn, hc⟩ := ih h
        refine ⟨b :: tail, rest, rfl, .cons hb hwithin, ?_, ?_⟩
        · rw [hn, length_cons]
          omega
        · rw [hc, codePoint_cons]
      · cases h

theorem scanRest_append (h : scanRest seen code bounds bs ≠ .cut) (rest : List UInt8) :
    scanRest seen code bounds (bs ++ rest) = scanRest seen code bounds bs := by
  induction bounds generalizing seen code bs with
  | nil => rfl
  | cons bound bounds ih =>
    cases bs with
    | nil => exact absurd rfl h
    | cons b bs =>
      rw [cons_append]
      rw [scanRest] at h ⊢
      rw [scanRest]
      split
      · rename_i hb
        rw [if_pos hb] at h
        exact ih h
      · rfl

theorem width_of_scanRest {n : Nat} (h : scanRest seen code bounds bs = .invalid n) :
    seen ≤ n ∧ n < seen + bs.length := by
  induction bounds generalizing seen code bs with
  | nil => cases h
  | cons bound bounds ih =>
    cases bs with
    | nil => cases h
    | cons =>
      rw [scanRest] at h
      rw [length_cons]
      split at h
      · have hbounds := ih h
        omega
      · cases h
        omega

end

/-! ## The encoder -/

variable {n : Nat} {bs : List UInt8} {x : Char} {cs : List Char}

theorem toNat_ofNat_of_valid (h : n.isValidChar) : (ofNat n).toNat = n := by
  rw [ofNat, dif_pos h]
  rfl

variable {b : UInt8} {code : Nat} {bounds : List (Nat × Nat)} {c : Char}

theorem ofNat_eq (h : b.toNat = n) : UInt8.ofNat n = b := by
  rw [← h, UInt8.ofNat_toNat]

theorem toNat_ofNat_lt (h : n < 256) : (UInt8.ofNat n).toNat = n := by
  exact mod_eq_of_lt h

def Spells (b : UInt8) (tail : List UInt8) (v : Nat) : Prop :=
  ∃ code bounds, row b.toNat = some (code, bounds) ∧ List.Forall₂ Within bounds tail ∧ codePoint code tail = v

section

variable {b : Nat}

theorem row_two (hlow : 0xc2 ≤ b) (hhigh : b ≤ 0xdf) : row b = some (b - 0xc0, [(0x80, 0xbf)]) := by
  rw [row, if_neg (by omega), if_pos ⟨hlow, hhigh⟩]

-- the first row of this width, and that of the surrogates, are narrower
theorem row_three (hlow : 0xe0 ≤ b) (hhigh : b ≤ 0xef) :
    ∃ bound, row b = some (b - 0xe0, [bound, (0x80, 0xbf)]) ∧ ∀ s, Within bound s ↔ 0x80 ≤ s.toNat ∧ s.toNat ≤ 0xbf ∧
      (b = 0xe0 → 0xa0 ≤ s.toNat) ∧ (b = 0xed → s.toNat ≤ 0x9f) := by
  interval_cases b <;> exact ⟨_, rfl, fun s => by grind [Within]⟩

theorem row_four (hlow : 0xf0 ≤ b) (hhigh : b ≤ 0xf4) :
    ∃ bound, row b = some (b - 0xf0, [bound, (0x80, 0xbf), (0x80, 0xbf)]) ∧ ∀ s, Within bound s ↔ 0x80 ≤ s.toNat ∧
      s.toNat ≤ 0xbf ∧ (b = 0xf0 → 0x90 ≤ s.toNat) ∧ (b = 0xf4 → s.toNat ≤ 0x8f) := by
  interval_cases b <;> exact ⟨_, rfl, fun s => by grind [Within]⟩

end

section

variable {v : Nat} {b r s t : UInt8}

theorem spells_one (hb : b.toNat = v) (hv : v ≤ 0x7f) : Spells b [] v := by
  refine ⟨v, [], ?_, .nil, rfl⟩
  rw [hb, row, if_pos hv]

theorem spells_two (hb : b.toNat = 0xc0 + v / 64) (ht : t.toNat = 0x80 + v % 64) (hlow : 0x7f < v)
    (hhigh : v ≤ 0x7ff) : Spells b [t] v := by
  refine ⟨v / 64, [(0x80, 0xbf)], ?_, .cons ⟨by omega, by omega⟩ .nil, ?_⟩
  · have hcode : b.toNat - 0xc0 = v / 64 := by omega
    rw [row, if_neg (by omega), if_pos (by omega), hcode]
  · simp only [codePoint, foldl_cons, foldl_nil]
    omega

theorem spells_three (hb : b.toNat = 0xe0 + v / 4096) (hs : s.toNat = 0x80 + v / 64 % 64)
    (ht : t.toNat = 0x80 + v % 64) (hlow : 0x7ff < v) (hhigh : v ≤ 0xffff) (hvalid : v.isValidChar) :
    Spells b [s, t] v := by
  obtain ⟨bound, hrow, hbound⟩ := row_three (b := b.toNat) (by omega) (by omega)
  refine ⟨_, _, hrow, .cons ((hbound s).mpr (by omega)) (.cons ⟨by omega, by omega⟩ .nil), ?_⟩
  simp only [codePoint, foldl_cons, foldl_nil]
  omega

theorem spells_four (hb : b.toNat = 0xf0 + v / 262144) (hr : r.toNat = 0x80 + v / 4096 % 64)
    (hs : s.toNat = 0x80 + v / 64 % 64) (ht : t.toNat = 0x80 + v % 64) (hlow : 0xffff < v)
    (hhigh : v < 0x110000) : Spells b [r, s, t] v := by
  obtain ⟨bound, hrow, hbound⟩ := row_four (b := b.toNat) (by omega) (by omega)
  refine ⟨_, _, hrow, .cons ((hbound r).mpr (by omega))
    (.cons ⟨by omega, by omega⟩ (.cons ⟨by omega, by omega⟩ .nil)), ?_⟩
  simp only [codePoint, foldl_cons, foldl_nil]
  omega

end

theorem exists_spells (c : Char) : ∃ b tail, String.utf8EncodeChar c = b :: tail ∧ Spells b tail c.toNat := by
  have hvalid : c.toNat.isValidChar := c.valid
  have htop : c.toNat < 0x110000 := by
    rcases hvalid with hlow | hhigh
    · omega
    · exact hhigh.2
  unfold String.utf8EncodeChar
  have hval : c.val.toNat = c.toNat := rfl
  simp only [hval]
  generalize c.toNat = v at hvalid htop
  split
  · rename_i h1
    exact ⟨_, _, rfl, spells_one (toNat_ofNat_lt (by omega)) h1⟩
  split
  · have hb := toNat_ofNat_lt (n := v / 64 % 0x20 + 0xc0) (by omega)
    have ht := toNat_ofNat_lt (n := v % 0x40 + 0x80) (by omega)
    exact ⟨_, _, rfl, spells_two (by omega) (by omega) (by omega) (by omega)⟩
  split
  · have hb := toNat_ofNat_lt (n := v / 4096 % 0x10 + 0xe0) (by omega)
    have hs := toNat_ofNat_lt (n := v / 64 % 0x40 + 0x80) (by omega)
    have ht := toNat_ofNat_lt (n := v % 0x40 + 0x80) (by omega)
    exact ⟨_, _, rfl, spells_three (by omega) (by omega) (by omega) (by omega) (by omega) hvalid⟩
  · have hb := toNat_ofNat_lt (n := v / 262144 % 0x08 + 0xf0) (by omega)
    have hr := toNat_ofNat_lt (n := v / 4096 % 0x40 + 0x80) (by omega)
    have hs := toNat_ofNat_lt (n := v / 64 % 0x40 + 0x80) (by omega)
    have ht := toNat_ofNat_lt (n := v % 0x40 + 0x80) (by omega)
    exact ⟨_, _, rfl, spells_four (by omega) (by omega) (by omega) (by omega) (by omega) htop⟩

theorem row_range {b : Nat} (h : row b = some (code, bounds)) :
    b ≤ 0x7f ∨ 0xc2 ≤ b ∧ b ≤ 0xdf ∨ 0xe0 ≤ b ∧ b ≤ 0xef ∨ 0xf0 ≤ b ∧ b ≤ 0xf4 := by
  unfold row at h
  split_ifs at h <;> omega

theorem follow_of_row {b : Nat} (h : row b = some (code, bounds)) :
    ∀ bound ∈ bounds, ∀ x, Within bound x → 0x80 ≤ x.toNat := by
  unfold row at h
  split_ifs at h <;> obtain ⟨-, rfl⟩ := mk.inj (some.inj h) <;> grind [Within]

theorem encode_one (hc : c.toNat ≤ 0x7f) (hb : b.toNat = c.toNat) : String.utf8EncodeChar c = [b] := by
  change (if c.toNat ≤ 0x7f then _ else _) = _
  rw [if_pos hc, ← ofNat_eq hb]
  rfl

theorem encode_of_spells {v : Nat} (h : Spells b tail v) : String.utf8EncodeChar (ofNat v) = b :: tail := by
  obtain ⟨_, _, hrow, hwithin, hv⟩ := h
  have hval : v.isValidChar → (ofNat v).val.toNat = v := toNat_ofNat_of_valid
  rcases row_range hrow with h | ⟨hlow, hhigh⟩ | ⟨hlow, hhigh⟩ | ⟨hlow, hhigh⟩
  · rw [row, if_pos h] at hrow
    obtain ⟨rfl, rfl⟩ := mk.inj (some.inj hrow)
    cases hwithin
    simp only [codePoint, foldl_nil] at hv
    rw [String.utf8EncodeChar, hval (.inl (by omega)), if_pos (by omega), ofNat_eq (b := b) (by omega)]
  · rw [row_two hlow hhigh] at hrow
    obtain ⟨rfl, rfl⟩ := mk.inj (some.inj hrow)
    obtain ⟨t, _, ht, hnil, rfl⟩ := forall₂_cons_left_iff.mp hwithin
    cases hnil
    simp only [codePoint, foldl_cons, foldl_nil] at hv
    obtain ⟨_, _⟩ := ht
    rw [String.utf8EncodeChar, hval (.inl (by omega)), if_neg (by omega), if_pos (by omega),
      ofNat_eq (b := b) (by omega),
      ofNat_eq (b := t) (by omega)]
  · obtain ⟨bound, hthree, hbound⟩ := row_three hlow hhigh
    rw [hthree] at hrow
    obtain ⟨rfl, rfl⟩ := mk.inj (some.inj hrow)
    obtain ⟨s, _, hs, hrest, rfl⟩ := forall₂_cons_left_iff.mp hwithin
    obtain ⟨t, _, ht, hnil, rfl⟩ := forall₂_cons_left_iff.mp hrest
    cases hnil
    simp only [codePoint, foldl_cons, foldl_nil] at hv
    rw [hbound] at hs
    simp only [Within] at ht
    have hvalid : v < 0xd800 ∨ 0xdfff < v ∧ v < 0x110000 := by omega
    rw [String.utf8EncodeChar, hval hvalid, if_neg (by omega), if_neg (by omega), if_pos (by omega),
      ofNat_eq (b := b) (by omega),
      ofNat_eq (b := s) (by omega), ofNat_eq (b := t) (by omega)]
  · obtain ⟨bound, hfour, hbound⟩ := row_four hlow hhigh
    rw [hfour] at hrow
    obtain ⟨rfl, rfl⟩ := mk.inj (some.inj hrow)
    obtain ⟨r, _, hr, htwo, rfl⟩ := forall₂_cons_left_iff.mp hwithin
    obtain ⟨s, _, hs, hone, rfl⟩ := forall₂_cons_left_iff.mp htwo
    obtain ⟨t, _, ht, hnil, rfl⟩ := forall₂_cons_left_iff.mp hone
    cases hnil
    simp only [codePoint, foldl_cons, foldl_nil] at hv
    rw [hbound] at hr
    simp only [Within] at hs ht
    have hvalid : v < 0xd800 ∨ 0xdfff < v ∧ v < 0x110000 := by omega
    rw [String.utf8EncodeChar, hval hvalid, if_neg (by omega), if_neg (by omega), if_neg (by omega),
      ofNat_eq (b := b) (by omega),
      ofNat_eq (b := r) (by omega), ofNat_eq (b := s) (by omega), ofNat_eq (b := t) (by omega)]

/-! ## Scanning what was encoded -/

theorem scan_encode_append (c : Char) (rest : List UInt8) :
    scan (String.utf8EncodeChar c ++ rest) = .char c (String.utf8EncodeChar c).length := by
  obtain ⟨_, _, hencode, _, _, hrow, hwithin, hcode⟩ := exists_spells c
  rw [hencode, cons_append, scan, hrow]
  simp only
  rw [scanRest_of_within hwithin, hcode, ofNat_toNat, length_cons, add_comm]

theorem encode_of_scan (h : scan bs = .char c n) :
    ∃ rest, bs = String.utf8EncodeChar c ++ rest ∧ n = (String.utf8EncodeChar c).length := by
  cases bs with
  | nil => cases h
  | cons b bs =>
    rw [scan] at h
    split at h
    · cases h
    · rename_i code bounds hrow
      obtain ⟨tail, rest, rfl, hwithin, rfl, rfl⟩ := within_of_scanRest h
      have hencode := encode_of_spells ⟨code, bounds, hrow, hwithin, rfl⟩
      refine ⟨rest, ?_, ?_⟩
      · rw [hencode, cons_append]
      · rw [hencode, length_cons, add_comm]

theorem scan_append (h : scan bs ≠ .cut) (rest : List UInt8) : scan (bs ++ rest) = scan bs := by
  cases bs with
  | nil => exact absurd rfl h
  | cons b =>
    rw [cons_append]
    rw [scan] at h ⊢
    rw [scan]
    cases hrow : row b.toNat with
    | none => rfl
    | some =>
      rw [hrow] at h
      exact scanRest_append h rest

theorem width_of_scan (h : scan bs = .invalid n) : 0 < n ∧ n ≤ bs.length := by
  cases bs with
  | nil => cases h
  | cons =>
    rw [scan] at h
    rw [length_cons]
    split at h
    · cases h
      omega
    · have hwidth := width_of_scanRest h
      omega

/-! ## Texts -/

def encode (cs : List Char) : List UInt8 := cs.flatMap String.utf8EncodeChar

def Scan.width : Scan → Nat
  | .char _ n => n
  | .invalid n => n
  | .cut => 0

def scans : Nat → List UInt8 → List Scan
  | _, [] => []
  | skip + 1, _ :: bs => scans skip bs
  | 0, b :: bs =>
    match scan (b :: bs) with
    | .cut => [.cut]
    | s => s :: scans (s.width - 1) bs

/-- `from_utf8`: the text, if all of it is one. -/
def fromUtf8 (bs : List UInt8) : Option (List Char) := (scans 0 bs).mapM fun
    | .char c _ => some c
    | _ => none

/-- `from_utf8_lossy`: what is no character becomes a replacement character. -/
def lossy (bs : List UInt8) : List Char := (scans 0 bs).map fun
    | .char c _ => c
    | _ => ofNat 0xfffd

theorem scans_skip (skip : Nat) (bs : List UInt8) : scans skip bs = scans 0 (bs.drop skip) := by
  induction skip generalizing bs with
  | zero => rfl
  | succ skip ih =>
    cases bs with
    | nil => rfl
    | cons b bs => exact ih bs

theorem scans_of_char (h : scan bs = .char c n) : scans 0 bs = .char c n :: scans 0 (bs.drop n) := by
  obtain ⟨_, _, hn⟩ := encode_of_scan h
  have hpos : 0 < n := by
    rw [hn]
    exact length_pos_iff.mpr String.utf8EncodeChar_ne_nil
  cases bs with
  | nil => cases h
  | cons =>
    rw [scans, h]
    simp only [Scan.width]
    rw [scans_skip]
    obtain ⟨m, rfl⟩ : ∃ m, n = m + 1 := ⟨n - 1, by omega⟩
    rw [Nat.add_sub_cancel, drop_succ_cons]

theorem scans_encode_append (c : Char) (rest : List UInt8) : scans 0 (String.utf8EncodeChar c ++ rest) =
      .char c (String.utf8EncodeChar c).length :: scans 0 rest := by
  rw [scans_of_char (scan_encode_append c rest), drop_left]

@[simp] theorem encode_nil : encode [] = [] := rfl

theorem encode_append (a b : List Char) : encode (a ++ b) = encode a ++ encode b := flatMap_append

theorem encode_cons (c : Char) (cs : List Char) : encode (c :: cs) = String.utf8EncodeChar c ++ encode cs :=
  flatMap_cons

theorem fromUtf8_encode_append (cs : List Char) (tail : List UInt8) :
    fromUtf8 (encode cs ++ tail) = (fromUtf8 tail).map (cs ++ ·) := by
  induction cs with
  | nil => simp
  | cons c cs ih =>
    rw [fromUtf8] at ih ⊢
    rw [encode_cons, append_assoc, scans_encode_append, mapM_cons, ih]
    cases fromUtf8 tail with
    | none | some => rfl

theorem fromUtf8_encode (cs : List Char) : fromUtf8 (encode cs) = some cs := by
  have h := fromUtf8_encode_append cs []
  rw [append_nil] at h
  exact h.trans (congrArg some (append_nil cs))

theorem lossy_char_append (c : Char) (rest : List UInt8) :
    lossy (String.utf8EncodeChar c ++ rest) = c :: lossy rest := by
  rw [lossy, scans_encode_append, map_cons, lossy]

theorem lossy_encode_append (cs : List Char) (rest : List UInt8) : lossy (encode cs ++ rest) = cs ++ lossy rest := by
  induction cs with
  | nil => rfl
  | cons c cs ih => rw [encode_cons, append_assoc, lossy_char_append, ih, cons_append]

theorem lossy_encode (cs : List Char) : lossy (encode cs) = cs := by
  have h := lossy_encode_append cs []
  rw [append_nil] at h
  rw [h, lossy, scans, map_nil, append_nil]

/-! ## Around a byte of its own -/

theorem scanRest_cut_append (hbounds : ∀ bound ∈ bounds, ∀ b, Within bound b → 0x80 ≤ b.toNat)
    {x : UInt8} (hx : x.toNat < 0x80) {seen : Nat} (h : scanRest seen code bounds bs = .cut) (rest : List UInt8) :
    scanRest seen code bounds (bs ++ x :: rest) = .invalid (seen + bs.length) := by
  induction bounds generalizing seen code bs with
  | nil => cases h
  | cons bound bounds ih =>
    have hlow := hbounds bound mem_cons_self
    cases bs with
    | nil =>
      have hnot : ¬ (bound.1 ≤ x.toNat ∧ x.toNat ≤ bound.2) := fun hb => absurd (hlow x hb) (by omega)
      rw [nil_append, scanRest, if_neg hnot]
      rfl
    | cons b bs =>
      rw [scanRest] at h
      split at h
      · rename_i hb
        have hmore := ih (fun bound hmem => hbounds bound (mem_cons_of_mem _ hmem)) h
        rw [cons_append, scanRest, if_pos hb, hmore, length_cons]
        congr 1
        omega
      · cases h

theorem scan_cut_append (hne : bs ≠ []) (h : scan bs = .cut) {x : UInt8}
    (hx : x.toNat < 0x80) (rest : List UInt8) : scan (bs ++ x :: rest) = .invalid bs.length := by
  cases bs with
  | nil => exact absurd rfl hne
  | cons b =>
    rw [scan] at h
    rw [cons_append, scan]
    cases hrow : row b.toNat with
    | none =>
      rw [hrow] at h
      cases h
    | some r =>
      obtain ⟨_, bounds⟩ := r
      rw [hrow] at h
      simp only at h ⊢
      rw [scanRest_cut_append (follow_of_row hrow) hx h, length_cons, add_comm]

/-- Bytes are read a character or a replaced piece at a time. -/
@[elab_as_elim]
theorem scanInduction {P : List UInt8 → Prop} (nil : P [])
    (char : ∀ c rest, P rest → P (String.utf8EncodeChar c ++ rest))
    (invalid : ∀ bs n, scan bs = .invalid n → P (bs.drop n) → P bs) (cut : ∀ bs, bs ≠ [] → scan bs = .cut → P bs)
    (bs : List UInt8) : P bs := by
  induction hlength : bs.length using Nat.strongRecOn generalizing bs with
  | ind length ih =>
    by_cases hne : bs = []
    · exact hne ▸ nil
    have hpos := length_pos_iff.mpr hne
    cases hscan : scan bs with
    | char c =>
      obtain ⟨rest, rfl, -⟩ := encode_of_scan hscan
      have hchar : 0 < (String.utf8EncodeChar c).length := length_pos_iff.mpr String.utf8EncodeChar_ne_nil
      rw [length_append] at hlength
      exact char c rest (ih rest.length (by omega) rest rfl)
    | invalid n =>
      have hwidth := width_of_scan hscan
      exact invalid bs n hscan (ih _ (by rw [length_drop]; omega) _ rfl)
    | cut => exact cut bs hne hscan

theorem lossy_of_invalid (h : scan bs = .invalid n) : lossy bs = ofNat 0xfffd :: lossy (bs.drop n) := by
  have hwidth := width_of_scan h
  cases bs with
  | nil => cases h
  | cons =>
    obtain ⟨m, rfl⟩ : ∃ m, n = m + 1 := ⟨n - 1, by omega⟩
    rw [lossy, scans, h]
    simp only [Scan.width, Nat.add_sub_cancel]
    rw [scans_skip, map_cons, drop_succ_cons, lossy]

theorem lossy_of_cut (hne : bs ≠ []) (h : scan bs = .cut) : lossy bs = [ofNat 0xfffd] := by
  cases bs with
  | nil => exact absurd rfl hne
  | cons =>
    rw [lossy, scans, h]
    rfl

theorem lossy_append_ascii (hx : x.toNat < 0x80) (a b : List UInt8) :
    lossy (a ++ String.utf8EncodeChar x ++ b) = lossy a ++ x :: lossy b := by
  have hbyte : (UInt8.ofNat x.toNat).toNat = x.toNat := toNat_ofNat_lt (by omega)
  have hone := encode_one (by omega) hbyte
  have hlow : (UInt8.ofNat x.toNat).toNat < 0x80 := by omega
  have hself : lossy (UInt8.ofNat x.toNat :: b) = x :: lossy b := by
    have happend := lossy_encode_append [x] b
    rw [encode, flatMap_cons, flatMap_nil, hone] at happend
    exact happend
  rw [hone, append_assoc, singleton_append]
  induction a using scanInduction with
  | nil =>
    rw [nil_append, hself]
    rfl
  | char c rest ih => rw [append_assoc, lossy_char_append, ih, lossy_char_append, cons_append]
  | invalid a n hscan ih =>
    have hstay : scan (a ++ UInt8.ofNat x.toNat :: b) = .invalid n := by
      rw [scan_append (by rw [hscan]; exact nofun), hscan]
    rw [lossy_of_invalid hstay, lossy_of_invalid hscan, drop_append_of_le_length (width_of_scan hscan).2, ih,
      cons_append]
  | cut a hne hscan =>
    rw [lossy_of_invalid (scan_cut_append hne hscan hlow b), lossy_of_cut hne hscan, drop_left, hself]
    rfl

theorem byte_cases (h : b ∈ String.utf8EncodeChar c) :
    c.toNat = b.toNat ∧ b.toNat < 0x80 ∨ 0x80 ≤ b.toNat ∧ b.toNat < 0xff := by
  have hval : c.val.toNat = c.toNat := rfl
  rw [String.utf8EncodeChar.eq_def] at h
  simp only [hval] at h
  split at h
  · rw [mem_singleton.mp h, UInt8.toNat_ofNat']
    omega
  split at h
  · simp only [mem_cons, not_mem_nil, or_false] at h
    rcases h with rfl | rfl <;> rw [UInt8.toNat_ofNat'] <;> omega
  split at h
  · simp only [mem_cons, not_mem_nil, or_false] at h
    rcases h with rfl | rfl | rfl <;> rw [UInt8.toNat_ofNat'] <;> omega
  · simp only [mem_cons, not_mem_nil, or_false] at h
    rcases h with rfl | rfl | rfl | rfl <;> rw [UInt8.toNat_ofNat'] <;> omega

theorem char_of_mem_encode (h : b ∈ String.utf8EncodeChar c) (hb : b.toNat < 0x80) : c.toNat = b.toNat :=
  (byte_cases h).elim And.left fun hhigh => absurd hb (not_lt.mpr hhigh.1)

theorem mem_of_mem_encode (hx : x.toNat < 0x80) (h : UInt8.ofNat x.toNat ∈ encode cs) : x ∈ cs := by
  obtain ⟨c, hc, hmem⟩ := mem_flatMap.mp h
  have hbyte : (UInt8.ofNat x.toNat).toNat = x.toNat := toNat_ofNat_lt (by omega)
  have heq := char_of_mem_encode hmem (by omega)
  rw [hbyte] at heq
  have hchar : c = x := by
    rw [← ofNat_toNat c, heq, ofNat_toNat]
  exact hchar ▸ hc

theorem mem_of_mem_lossy (hx : x.toNat < 0x80) (h : x ∈ lossy bs) : UInt8.ofNat x.toNat ∈ bs := by
  have hreplaced : x ≠ ofNat 0xfffd := by
    rintro rfl
    exact absurd hx (by decide)
  induction bs using scanInduction with
  | nil => exact absurd h not_mem_nil
  | char c rest ih =>
    rw [lossy_char_append] at h
    rcases mem_cons.mp h with rfl | h
    · rw [encode_one (by omega) (toNat_ofNat_lt (by omega))]
      exact mem_cons_self ..
    · exact mem_append_right _ (ih h)
  | invalid bs n hscan ih =>
    rw [lossy_of_invalid hscan] at h
    exact mem_of_mem_drop (ih ((mem_cons.mp h).resolve_left hreplaced))
  | cut bs hne hscan =>
    rw [lossy_of_cut hne hscan] at h
    exact absurd (mem_singleton.mp h) hreplaced

/-- An ASCII character stands where its byte does, and nowhere else. -/
theorem count_lossy (hx : x.toNat < 0x80) (bs : List UInt8) : (lossy bs).count x = bs.count (UInt8.ofNat x.toNat) := by
  induction hlength : bs.length using Nat.strongRecOn generalizing bs with
  | ind length ih =>
    by_cases hmem : UInt8.ofNat x.toNat ∈ bs
    · obtain ⟨a, b, rfl, ha⟩ := eq_append_cons_of_mem hmem
      have hbyte : (UInt8.ofNat x.toNat).toNat = x.toNat := toNat_ofNat_lt (by omega)
      have hone : String.utf8EncodeChar x = [UInt8.ofNat x.toNat] := encode_one (by omega) hbyte
      have happend := lossy_append_ascii hx a b
      rw [hone, append_assoc, singleton_append] at happend
      have hnone : x ∉ lossy a := fun hin => ha (mem_of_mem_lossy hx hin)
      rw [length_append, length_cons] at hlength
      rw [happend, count_append, count_append, count_cons_self, count_cons_self, count_eq_zero.mpr ha,
        count_eq_zero.mpr hnone, ih b.length (by omega) b rfl]
    · rw [count_eq_zero.mpr hmem, count_eq_zero.mpr fun hin => hmem (mem_of_mem_lossy hx hin)]

theorem count_encode (hx : x.toNat < 0x80) (cs : List Char) :
    (encode cs).count (UInt8.ofNat x.toNat) = cs.count x := by
  rw [← count_lossy hx, lossy_encode]

/-! ## Characters of one byte -/

def ascii (c : Char) : UInt8 := UInt8.ofNat c.toNat

theorem toNat_ascii (h : c.toNat < 0x80) : (ascii c).toNat = c.toNat := toNat_ofNat_lt (by omega)

theorem encode_ascii (h : c.toNat < 0x80) (cs : List Char) : encode (c :: cs) = ascii c :: encode cs := by
  rw [encode_cons, encode_one (by omega) (toNat_ascii h), singleton_append]

theorem forall_byte {P : UInt8 → Prop} (h : ∀ n < 256, P (UInt8.ofNat n)) (b : UInt8) : P b := by
  rw [← b.ofNat_toNat]
  exact h b.toNat b.toNat_lt

def isCharBoundary (bs : List UInt8) (i : Nat) : Bool :=
  match bs[i]? with
  | none => i == bs.length
  | some b => b.toNat < 0x80 || 0xc0 ≤ b.toNat

theorem isCharBoundary_encode (a b : List Char) : isCharBoundary (encode a ++ encode b) (encode a).length = true := by
  cases b with
  | nil => simp [isCharBoundary, encode]
  | cons c =>
    obtain ⟨first, _, hencode, _, _, hrow, -, -⟩ := exists_spells c
    have hfirst : first.toNat < 0x80 ∨ 0xc0 ≤ first.toNat := by
      have hrange := row_range hrow
      omega
    rw [isCharBoundary, encode_cons, hencode, List.getElem?_append_right (le_refl _), Nat.sub_self]
    simpa using hfirst

/-! ## Text that arrives in pieces -/

/-- The answer of `from_utf8`: an error says how far the text is valid, and whether only
    the rest of a character is missing. -/
inductive Validity where
  | valid
  | unfinished (upTo : Nat)
  | invalid (upTo : Nat)
  deriving DecidableEq

def validityOf : Nat → List Scan → Validity
  | _, [] => .valid
  | n, .char _ width :: rest => validityOf (n + width) rest
  | n, .invalid _ :: _ => .invalid n
  | n, .cut :: _ => .unfinished n

def validity (bs : List UInt8) : Validity := validityOf 0 (scans 0 bs)

theorem validityOf_encode_append (cs : List Char) (tail : List UInt8) (n : Nat) :
    validityOf n (scans 0 (encode cs ++ tail)) = validityOf (n + (encode cs).length) (scans 0 tail) := by
  induction cs generalizing n with
  | nil => rfl
  | cons c cs ih =>
    rw [encode_cons, append_assoc, scans_encode_append, validityOf, ih, length_append, add_assoc]

theorem scans_of_invalid (h : scan bs = .invalid n) : ∃ rest, scans 0 bs = .invalid n :: rest := by
  cases bs with
  | nil => cases h
  | cons =>
    rw [scans, h]
    exact ⟨_, rfl⟩

theorem scans_of_cut (hne : bs ≠ []) (h : scan bs = .cut) : scans 0 bs = [.cut] := by
  cases bs with
  | nil => exact absurd rfl hne
  | cons => rw [scans, h]

theorem fromUtf8_of_invalid (h : scan bs = .invalid n) : fromUtf8 bs = none := by
  obtain ⟨_, hscans⟩ := scans_of_invalid h
  rw [fromUtf8, hscans, mapM_cons]
  rfl

theorem fromUtf8_of_cut (hne : bs ≠ []) (h : scan bs = .cut) : fromUtf8 bs = none := by
  rw [fromUtf8, scans_of_cut hne h]
  rfl

theorem exists_split (bs : List UInt8) :
    ∃ cs tail, bs = encode cs ++ tail ∧ (tail = [] ∨ tail ≠ [] ∧ scan tail = .cut ∨ ∃ n, scan tail = .invalid n) := by
  induction bs using scanInduction with
  | nil => exact ⟨[], [], rfl, .inl rfl⟩
  | char c rest ih =>
    obtain ⟨cs, tail, rfl, htail⟩ := ih
    exact ⟨c :: cs, tail, by rw [encode_cons, append_assoc], htail⟩
  | invalid bs n hscan => exact ⟨[], bs, rfl, .inr (.inr ⟨n, hscan⟩)⟩
  | cut bs hne hscan => exact ⟨[], bs, rfl, .inr (.inl ⟨hne, hscan⟩)⟩

theorem encode_of_fromUtf8 (h : fromUtf8 bs = some cs) : bs = encode cs := by
  obtain ⟨ds, _, rfl, htail⟩ := exists_split bs
  rw [fromUtf8_encode_append] at h
  rcases htail with rfl | ⟨hne, hcut⟩ | ⟨n, hinvalid⟩
  · cases h
    exact (append_nil _).trans (congrArg encode (append_nil ds).symm)
  · rw [fromUtf8_of_cut hne hcut] at h
    cases h
  · rw [fromUtf8_of_invalid hinvalid] at h
    cases h

theorem validity_spec (bs : List UInt8) :
    match validity bs with
    | .valid => ∃ cs, bs = encode cs
    | .unfinished upTo => ∃ cs tail, bs = encode cs ++ tail ∧ upTo = (encode cs).length
    | .invalid _ => ∀ more, fromUtf8 (bs ++ more) = none := by
  obtain ⟨cs, tail, hbs, htail⟩ := exists_split bs
  have hvalidity : validity bs = validityOf (encode cs).length (scans 0 tail) := by
    rw [validity, hbs, validityOf_encode_append, zero_add]
  rcases htail with rfl | ⟨hne, hcut⟩ | ⟨n, hinvalid⟩
  · have hnil : scans 0 [] = [] := rfl
    rw [hvalidity, hnil, validityOf]
    exact ⟨cs, by rw [hbs, append_nil]⟩
  · rw [hvalidity, scans_of_cut hne hcut, validityOf]
    exact ⟨cs, tail, hbs, rfl⟩
  · obtain ⟨_, hscans⟩ := scans_of_invalid hinvalid
    rw [hvalidity, hscans, validityOf]
    intro more
    have hstay : scan (tail ++ more) = .invalid n := by rw [scan_append (by rw [hinvalid]; exact nofun), hinvalid]
    rw [hbs, append_assoc, fromUtf8_encode_append, fromUtf8_of_invalid hstay]
    rfl

end Utf8
