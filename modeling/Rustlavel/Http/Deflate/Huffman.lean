/-
  Canonical Huffman codes: `Decoder` rebuilds a code from its lengths and reads it bit by bit, `assign_codes`
  gives the writer its codewords.
-/

import Rustlavel.Lib.CanonicalCode
import Rustlavel.Http.Deflate.BitIO

namespace Rustlavel.Http.Deflate

open BitList CanonicalCode List Outcome Nat Function

/-! ## Counting lengths -/

/-- `for &len in lengths { count[usize::from(len)] += 1; }` -/
def tally (count : List Nat) : List Nat → Res (List Nat)
  | [] => .ok count
  | len :: lengths => do
    let c ← index count len
    tally (count.set len ((c + 1) % 2 ^ 16)) lengths

/-- The `count` array both constructions start from. -/
def countLengths (lengths : List Nat) : Res (List Nat) := tally (replicate (maxBits + 1) 0) lengths

/-- A list of code lengths the format can describe: none above fifteen, and few enough for a `u16` to count. -/
structure LengthsOk (lengths : List Nat) : Prop where
  le_maxBits : ∀ l ∈ lengths, l ≤ maxBits
  length_lt : lengths.length < 2 ^ 16

theorem tally_map_range (f : Nat → Nat) (lengths : List Nat) (hle : ∀ l ∈ lengths, l ≤ maxBits)
    (hf : ∀ l, f l < 2 ^ 16) : tally ((range (maxBits + 1)).map f) lengths =
      .ok ((range (maxBits + 1)).map fun l => (f l + lengths.count l) % 2 ^ 16) := by
  induction lengths generalizing f with
  | nil =>
    refine congrArg Except.ok (map_congr_left fun l _ => ?_)
    exact (mod_eq_of_lt (hf l)).symm
  | cons k ks ih =>
    have hk : k < maxBits + 1 := lt_succ_of_le (hle k mem_cons_self)
    rw [tally, index_map_range f hk, ok_bind, set_map_range, ih]
    · congr 1
      apply map_congr_left
      intro l _
      by_cases hlk : l = k
      · subst hlk
        simp
        omega
      · simp [hlk, Ne.symm hlk]
    · exact fun l hl => hle l (mem_cons_of_mem _ hl)
    · intro l
      rw [update_apply]
      split
      · exact mod_lt _ (by decide)
      · exact hf l

variable {lengths : List Nat} (c : Nat → Nat)

/-- The counts are those of `u16`: they wrap. -/
theorem countLengths_mod (hle : ∀ l ∈ lengths, l ≤ maxBits) :
    countLengths lengths = .ok ((range (maxBits + 1)).map fun l => lengths.count l % 2 ^ 16) := by
  have hzero : replicate (maxBits + 1) 0 = (range (maxBits + 1)).map fun _ => 0 := by
    rw [map_const', length_range]
  rw [countLengths, hzero, tally_map_range _ _ hle fun _ => by decide]
  simp only [zero_add]

theorem countLengths_eq (h : LengthsOk lengths) :
    countLengths lengths = .ok ((range (maxBits + 1)).map lengths.count) := by
  rw [countLengths_mod h.le_maxBits]
  refine congrArg Except.ok (map_congr_left fun l _ => mod_eq_of_lt ?_)
  exact lt_of_le_of_lt count_le_length h.length_lt

/-! ## The decoder -/

/-- `Decoder`: how many codes there are of each length, and the symbols sorted by code. -/
structure Decoder where
  count : List Nat
  symbol : List Nat
  deriving DecidableEq

theorem of_drop_eq_cons {all lengths : List Nat} {sym len : Nat} (h : all.drop sym = len :: lengths) :
    all[sym]? = some len ∧ all.drop (sym + 1) = lengths := by
  rw [← head?_drop, ← tail_drop, h]
  exact ⟨rfl, rfl⟩

namespace Decoder

/-- The Kraft loop of `Decoder::new`: each length halves what is left to hand
    out, and an over-subscribed set is refused. -/
def kraftLeft (left : Int) : List Nat → Res Int
  | [] => .ok left
  | c :: cs =>
    let left := left * 2 - c
    if left < 0 then fail .invalidCode else kraftLeft left cs

/-- `offsets[len + 1] = offsets[len] + count[len]`, from one length on. -/
def offsetsFrom (offset : Nat) : List Nat → List Nat
  | [] => [offset]
  | c :: cs => offset :: offsetsFrom ((offset + c) % 2 ^ 16) cs

/-- The loop that sorts the symbols: `sym` is the next symbol, the list holds the lengths from it on. -/
def fillSymbols (offsets symbol : List Nat) (sym : Nat) : List Nat → Res (List Nat)
  | [] => .ok symbol
  | len :: lengths =>
    if len = 0 then fillSymbols offsets symbol (sym + 1) lengths
    else do
      let slot ← index offsets len
      let symbol ← store symbol slot (sym % 2 ^ 16)
      fillSymbols (offsets.set len ((slot + 1) % 2 ^ 16)) symbol (sym + 1) lengths

def new (lengths : List Nat) : Res Decoder := do
  let count ← countLengths lengths
  let used ← sub lengths.length (← index count 0)
  let left ← kraftLeft 1 (count.drop 1)
  if 0 < left ∧ 1 < used then fail .invalidCode
  else do
    let offsets := 0 :: offsetsFrom 0 (count.drop 1)
    let symbol ← fillSymbols offsets (replicate used 0) 0 lengths
    pure { count, symbol }

/-- The loop of `Decoder::decode`: `fuel` lengths are left to try, from `len` on. -/
def decodeFrom (d : Decoder) (len code first idx : Nat) : Nat → BitReader → Res (Nat × BitReader)
  | 0, _ => fail .invalidCode
  | fuel + 1, r => do
    let (bit, r) ← r.readBit
    let code := code ||| bit
    let count ← index d.count len
    if (code : Int) - first < count then
      let i : Int := idx + code - first
      if i < 0 then .error .panic
      else do
        let sym ← index d.symbol i.toNat
        pure (sym, r)
    else decodeFrom d (len + 1) (code <<< 1) ((first + count) <<< 1) (idx + count) fuel r

/-- `Decoder::decode`: read one symbol. -/
def decode (d : Decoder) (r : BitReader) : Res (Nat × BitReader) := d.decodeFrom 1 0 0 0 maxBits r

/-! ### The Kraft loop -/

/-- From a length on, the loop ends with what is left at the last one, unless some length has too many codes. -/
theorem kraftLeft_eq (l n : Nat) (h : filled c l ≤ 2 ^ l) :
    kraftLeft ((2 : Int) ^ l - filled c l) ((List.range' (l + 1) n).map c) =
      if filled c (l + n) ≤ 2 ^ (l + n) then .ok ((2 : Int) ^ (l + n) - filled c (l + n)) else fail .invalidCode := by
  induction n generalizing l with
  | zero => exact (if_pos h).symm
  | succ n ih =>
    have hstep : ((2 : Int) ^ l - filled c l) * 2 - c (l + 1) = (2 : Int) ^ (l + 1) - filled c (l + 1) := by
      rw [filled_succ]
      push_cast
      ring
    have hcast : (2 : Int) ^ (l + 1) = ((2 ^ (l + 1) : Nat) : Int) := by push_cast; rfl
    have hadd : l + (n + 1) = l + 1 + n := by omega
    rw [List.range'_succ, map_cons, kraftLeft, hadd]
    simp only [hstep]
    by_cases hle : filled c (l + 1) ≤ 2 ^ (l + 1)
    · rw [if_neg (by rw [hcast]; omega)]
      exact ih (l + 1) hle
    · rw [if_pos (by rw [hcast]; omega), if_neg fun hend => hle (filled_le_of_le c (Nat.le_add_right ..) hend)]

/-! ### The sorted symbol table -/

theorem offsetsFrom_eq (l n : Nat) (h : firstIndex c (l + n) < 2 ^ 16) :
    offsetsFrom (firstIndex c l) ((List.range' l n).map c) = (List.range' l (n + 1)).map (firstIndex c) := by
  induction n generalizing l with
  | zero => rfl
  | succ n ih =>
    have hadd : l + (n + 1) = l + 1 + n := by omega
    rw [hadd] at h
    have hle : firstIndex c (l + 1) ≤ firstIndex c (l + 1 + n) := by
      rcases Nat.eq_zero_or_pos n with rfl | hn
      · exact le_refl _
      · exact le_trans (le_add_right _ _) (firstIndex_add_le c (by omega))
    rw [List.range'_succ, map_cons, offsetsFrom, ← firstIndex_succ, mod_eq_of_lt (by omega), ih (l + 1) h]
    rfl

theorem fillSymbols_spec {all : List Nat} (hbits : ∀ l ∈ all, l ≤ maxBits)
    (hfew : firstIndex (lengthCount all) (maxBits + 1) < 2 ^ 16) (lengths symbol : List Nat)
    (sym : Nat) (g : Nat → Nat) (hsuffix : all.drop sym = lengths)
    (hg : ∀ l, l ≠ 0 → g l = firstIndex (lengthCount all) l + rank all l sym)
    (hlen : symbol.length = firstIndex (lengthCount all) (maxBits + 1))
    (hplaced : ∀ s < sym, ∀ l, all[s]? = some l → l ≠ 0 → symbol[slot all l s]? = some (s % 2 ^ 16)) :
    ∃ symbol', fillSymbols ((range (maxBits + 2)).map g) symbol sym lengths = .ok symbol' ∧
      ∀ s l, all[s]? = some l → l ≠ 0 → symbol'[slot all l s]? = some (s % 2 ^ 16) := by
  induction lengths generalizing sym symbol g with
  | nil =>
    have hsym := drop_eq_nil_iff.mp hsuffix
    refine ⟨symbol, rfl, fun s l hs hl => hplaced s ?_ l hs hl⟩
    exact lt_of_lt_of_le (List.getElem?_eq_some_iff.mp hs).1 hsym
  | cons len lengths ih =>
    obtain ⟨hget, hsuffix'⟩ := of_drop_eq_cons hsuffix
    obtain ⟨_, -⟩ := List.getElem?_eq_some_iff.mp hget
    rw [fillSymbols]
    by_cases hzero : len = 0
    · rw [if_pos hzero]
      apply ih symbol (sym + 1) g hsuffix' _ hlen
      · intro s hs l hsl hl
        rcases eq_or_lt_of_le (le_of_lt_succ hs) with rfl | hlt
        · rw [hget] at hsl
          exact absurd ((Option.some.inj hsl).symm.trans hzero) hl
        · exact hplaced s hlt l hsl hl
      · intro l hl
        rw [hg l hl, rank_succ_ne hget (by omega)]
    · have hle : len ≤ maxBits := hbits len (mem_of_getElem? hget)
      have hslot : g len = slot all len sym := hg len hzero
      have hlt : slot all len sym < symbol.length := by
        rw [hlen]
        exact slot_lt hget hzero (lt_succ_of_le hle)
      rw [if_neg hzero, index_map_range g (by omega), ok_bind, hslot,
        store_of_lt _ hlt, ok_bind, mod_eq_of_lt (by omega), set_map_range]
      apply ih _ (sym + 1) _ hsuffix'
      · -- this length's offset moved on, the others stayed
        intro l hl
        rw [update_apply]
        split
        case isTrue heq => rw [heq, rank_succ_self hget, slot]; omega
        case isFalse hne => rw [hg l hl, rank_succ_ne hget (Ne.symm hne)]
      · rw [length_set]
        exact hlen
      · intro s hs l hsl hl
        rcases eq_or_lt_of_le (le_of_lt_succ hs) with rfl | hlt'
        · obtain rfl : len = l := Option.some.inj (hget.symm.trans hsl)
          exact getElem?_set_self hlt
        · rw [getElem?_set_ne (slot_ne hsl hget hl hzero hlt').symm]
          exact hplaced s hlt' l hsl hl

/-! ### Building a decoder -/

/-- What a decoder for `lengths` holds: the counts, and each used symbol in its slot of the sorted table. -/
structure For (d : Decoder) (lengths : List Nat) : Prop where
  count_eq : d.count = (range (maxBits + 1)).map lengths.count
  symbol_eq : ∀ s l, lengths[s]? = some l → l ≠ 0 → d.symbol[slot lengths l s]? = some s

variable {lengths : List Nat} {d : Decoder} {s l : Nat} {r : BitReader} {tail : List Bool}

/-- The counts of the lengths as the array holds them. -/
def wrapped (lengths : List Nat) (l : Nat) : Nat := if l = 0 then 0 else lengths.count l % 2 ^ 16

theorem new_eq (hle : ∀ l ∈ lengths, l ≤ maxBits) : new lengths =
    if filled (wrapped lengths) maxBits ≤ 2 ^ maxBits then
      if filled (wrapped lengths) maxBits < 2 ^ maxBits ∧ 1 < lengths.length - lengths.count 0 % 2 ^ 16 then
        fail .invalidCode
      else do
        let symbol ← fillSymbols (0 :: offsetsFrom 0 ((List.range' 1 maxBits).map (wrapped lengths)))
          (replicate (lengths.length - lengths.count 0 % 2 ^ 16) 0) 0 lengths
        pure { count := (range (maxBits + 1)).map fun l => lengths.count l % 2 ^ 16, symbol }
    else fail .invalidCode := by
  have hcount : lengths.count 0 % 2 ^ 16 ≤ lengths.length := le_trans (mod_le _ _) count_le_length
  have hdrop : ((range (maxBits + 1)).map fun l => lengths.count l % 2 ^ 16).drop 1 =
      (List.range' 1 maxBits).map (wrapped lengths) := by
    rw [← map_drop, range_eq_range', drop_range']
    apply map_congr_left
    intro l hl
    rw [mem_range'_1] at hl
    rw [wrapped, if_neg (by omega)]
  have hleft := kraftLeft_eq (wrapped lengths) 0 maxBits (by simp [filled, firstCode, wrapped])
  rw [zero_add maxBits, show (2 : Int) ^ 0 - filled (wrapped lengths) 0 = 1 from rfl] at hleft
  have hlack : 0 < (2 : Int) ^ maxBits - filled (wrapped lengths) maxBits ↔
      filled (wrapped lengths) maxBits < 2 ^ maxBits := by
    rw [show (2 : Int) ^ maxBits = ((2 ^ maxBits : Nat) : Int) from rfl]
    omega
  rw [new, countLengths_mod hle, ok_bind, index_map_range _ (by omega), ok_bind, sub_of_le hcount, ok_bind, hdrop,
    hleft]
  split
  · simp only [ok_bind, hlack]
  · rfl

theorem wrapped_eq (h : ∀ l ≠ 0, lengths.count l < 2 ^ 16) : wrapped lengths = lengthCount lengths := by
  funext l
  rw [wrapped, lengthCount]
  split
  · rfl
  · rename_i hl
    exact mod_eq_of_lt (h l hl)

theorem offsets_eq (h : firstIndex (lengthCount lengths) (maxBits + 1) < 2 ^ 16) :
    0 :: offsetsFrom 0 ((List.range' 1 maxBits).map (lengthCount lengths)) =
      (range (maxBits + 2)).map (firstIndex (lengthCount lengths)) := by
  have hoffsets := offsetsFrom_eq (lengthCount lengths) 1 maxBits (by rw [add_comm]; exact h)
  rw [show firstIndex (lengthCount lengths) 1 = 0 from rfl] at hoffsets
  rw [hoffsets, range_eq_range', List.range'_succ]
  rfl

theorem new_spec (hok : LengthsOk lengths) (hkraft : filled (lengthCount lengths) maxBits = 2 ^ maxBits ∨
      filled (lengthCount lengths) maxBits ≤ 2 ^ maxBits ∧ firstIndex (lengthCount lengths) (maxBits + 1) ≤ 1) :
    ∃ d, new lengths = .ok d ∧ d.For lengths := by
  have hused := firstIndex_eq_used (d := maxBits + 1) fun l hl => lt_succ_of_le (hok.le_maxBits l hl)
  have hlen16 := hok.length_lt
  have hcount (l : Nat) : lengths.count l < 2 ^ 16 := lt_of_le_of_lt count_le_length hlen16
  obtain ⟨symbol, hfill, hsymbol⟩ := fillSymbols_spec hok.le_maxBits (by omega) lengths
    (replicate (firstIndex (lengthCount lengths) (maxBits + 1)) 0) 0 (firstIndex (lengthCount lengths))
    drop_zero (fun l _ => by simp [rank]) (length_replicate ..) (fun s hs => absurd hs (not_lt_zero s))
  refine ⟨⟨(range (maxBits + 1)).map lengths.count, symbol⟩, ?_, rfl, fun s l hs hl => ?_⟩
  · have hsize : lengths.length - lengths.count 0 % 2 ^ 16 = firstIndex (lengthCount lengths) (maxBits + 1) := by
      rw [mod_eq_of_lt (hcount 0)]
      omega
    rw [new_eq hok.le_maxBits, wrapped_eq fun l _ => hcount l, hsize, if_pos (by omega), if_neg (by omega),
      offsets_eq (by omega), hfill]
    simp only [mod_eq_of_lt (hcount _)]
    rfl
  · have hlt := (List.getElem?_eq_some_iff.mp hs).1
    rw [hsymbol s l hs hl, mod_eq_of_lt (by omega)]

/-- With room for every slot that a `u16` can name, the table is filled. -/
theorem fillSymbols_of_room (lengths : List Nat) (hle : ∀ l ∈ lengths, l ≤ maxBits) (symbol : List Nat)
    (hroom : 2 ^ 16 ≤ symbol.length) (offsets : List Nat) (hlen : offsets.length = maxBits + 2)
    (hoffsets : ∀ offset ∈ offsets, offset < 2 ^ 16) (sym : Nat) :
    ∃ symbol', fillSymbols offsets symbol sym lengths = .ok symbol' := by
  induction lengths generalizing symbol offsets sym with
  | nil => exact ⟨symbol, rfl⟩
  | cons len lengths ih =>
    obtain ⟨hlen', hle'⟩ := forall_mem_cons.mp hle
    rw [fillSymbols]
    split
    · exact ih hle' symbol hroom offsets hlen hoffsets (sym + 1)
    · obtain ⟨slot, hget⟩ : ∃ slot, offsets[len]? = some slot := ⟨_, getElem?_eq_getElem (by omega)⟩
      have hslot := hoffsets _ (mem_of_getElem? hget)
      rw [index_eq_ok hget, ok_bind, store_of_lt _ (by omega), ok_bind]
      refine ih hle' _ (by rw [length_set]; exact hroom) _ (by rw [length_set]; exact hlen) ?_ (sym + 1)
      intro offset hoffset
      rcases mem_or_eq_of_mem_set hoffset with hmem | rfl
      · exact hoffsets offset hmem
      · exact mod_lt _ (by decide)

theorem offsetsFrom_lt {offset : Nat} (h : offset < 2 ^ 16) (counts : List Nat) :
    (offsetsFrom offset counts).length = counts.length + 1 ∧ ∀ o ∈ offsetsFrom offset counts, o < 2 ^ 16 := by
  induction counts generalizing offset with
  | nil => exact ⟨rfl, by simpa [offsetsFrom] using h⟩
  | cons count counts ih =>
    obtain ⟨hlen, hlt⟩ := ih (mod_lt (offset + count) (by decide : 0 < 2 ^ 16))
    refine ⟨by rw [offsetsFrom, length_cons, hlen, length_cons], ?_⟩
    rw [offsetsFrom]
    exact forall_mem_cons.mpr ⟨h, hlt⟩

/-- The decoder is built exactly if the counts, as they are held, make a complete code, or not too much of one with
    at most one symbol used. -/
theorem new_ok_iff (hle : ∀ l ∈ lengths, l ≤ maxBits) :
    ((∃ d, new lengths = .ok d) ↔ filled (wrapped lengths) maxBits = 2 ^ maxBits ∨
      filled (wrapped lengths) maxBits ≤ 2 ^ maxBits ∧ lengths.length - lengths.count 0 % 2 ^ 16 ≤ 1) ∧
      ((∃ d, new lengths = .ok d) ∨ new lengths = fail .invalidCode) := by
  have hfill : ∃ symbol, fillSymbols (0 :: offsetsFrom 0 ((List.range' 1 maxBits).map (wrapped lengths)))
      (replicate (lengths.length - lengths.count 0 % 2 ^ 16) 0) 0 lengths = .ok symbol := by
    have hused := firstIndex_eq_used (d := maxBits + 1) fun l hl => lt_succ_of_le (hle l hl)
    by_cases hroom : 2 ^ 16 ≤ lengths.length - lengths.count 0 % 2 ^ 16
    · obtain ⟨hlen, hlt⟩ := offsetsFrom_lt (by decide : 0 < 2 ^ 16) ((List.range' 1 maxBits).map (wrapped lengths))
      refine fillSymbols_of_room lengths hle _ (by rwa [length_replicate]) _ ?_ ?_ 0
      · rw [length_cons, hlen, length_map, length_range']
      · exact forall_mem_cons.mpr ⟨by decide, hlt⟩
    · -- fewer than 2¹⁶ symbols are used, and no count has wrapped
      have hzero : lengths.count 0 ≤ lengths.length := count_le_length
      have hmod := Nat.mod_add_div (lengths.count 0) (2 ^ 16)
      have hsame : lengths.count 0 % 2 ^ 16 = lengths.count 0 := by omega
      have hcount : ∀ l ≠ 0, lengths.count l < 2 ^ 16 := by
        intro l hl
        have hsplit : lengths.count l + lengths.count 0 ≤ lengths.length := by
          have hpair := countP_le_length (p := fun k => k == l || k == 0) (l := lengths)
          have hsum : lengths.countP (fun k => k == l || k == 0) = lengths.count l + lengths.count 0 := by
            clear hpair hsame hmod hzero hroom hused hle
            induction lengths with
            | nil => rfl
            | cons k ks ih =>
              rw [countP_cons, count_cons, count_cons, ih]
              by_cases hkl : k = l
              · simp [hkl, hl]
                omega
              · by_cases hk : k = 0
                · simp [hk, Ne.symm hl]
                  omega
                · simp [hk, hkl]
          omega
        omega
      rw [wrapped_eq hcount, hsame, offsets_eq (by omega)]
      obtain ⟨symbol, hsymbol, -⟩ := fillSymbols_spec hle (by omega) lengths
        (replicate (lengths.length - lengths.count 0) 0) 0 (firstIndex (lengthCount lengths))
        drop_zero (fun l _ => by simp [rank]) (by rw [length_replicate]; omega)
        (fun s hs => absurd hs (not_lt_zero s))
      exact ⟨symbol, hsymbol⟩
  obtain ⟨symbol, hfill⟩ := hfill
  rw [new_eq hle, hfill]
  have hrefused : ¬ ∃ d, (fail .invalidCode : Res Decoder) = .ok d := by
    rintro ⟨_, ⟨⟩⟩
  split
  · split
    · refine ⟨iff_of_false hrefused ?_, .inr rfl⟩
      omega
    · refine ⟨iff_of_true ⟨_, rfl⟩ ?_, .inl ⟨_, rfl⟩⟩
      omega
  · refine ⟨iff_of_false hrefused ?_, .inr rfl⟩
    omega

/-! ### Reading one symbol -/

theorem reverse_lsb_succ (k m : Nat) : (lsb k (m + 1)).reverse = lsb (k / 2 ^ m % 2) 1 ++ (lsb k m).reverse := by
  rw [lsb_add, reverse_append]
  simp

theorem shift_or_bit (k m : Nat) : (k / 2 ^ (m + 1)) <<< 1 ||| k / 2 ^ m % 2 = k / 2 ^ m := by
  have hdiv : k / 2 ^ (m + 1) = k / 2 ^ m / 2 := by rw [pow_succ, Nat.div_div_eq_div_mul]
  rw [hdiv, shiftLeft_eq, mul_comm, ← two_pow_add_eq_or_of_lt (i := 1) (by omega)]
  omega

theorem decodeFrom_spec (hd : d.For lengths) {m fuel : Nat}
    (hs : lengths[s]? = some (l + m)) (hl : l ≠ 0) (hfuel : l + fuel = maxBits + 1) (hm : m < fuel) (hr : r.WF)
    (hrest : r.rest = (lsb (codeword lengths (l + m) s) (m + 1)).reverse ++ tail) :
    ∃ r', d.decodeFrom l ((codeword lengths (l + m) s / 2 ^ (m + 1)) <<< 1)
        (firstCode (lengthCount lengths) l) (firstIndex (lengthCount lengths) l) fuel r = .ok (s, r') ∧
      r'.WF ∧ r'.rest = tail ∧ r'.data = r.data := by
  induction m generalizing l fuel r with
  | zero =>
    -- the last bit: the codeword is complete and names its slot
    obtain ⟨fuel, rfl⟩ : ∃ f, fuel = f + 1 := ⟨fuel - 1, by omega⟩
    rw [reverse_lsb_succ, append_assoc] at hrest
    obtain ⟨r', hread, hwf, htail, hdata⟩ := BitReader.readBit_field hr (Nat.mod_lt _ (by decide)) hrest
    refine ⟨r', ?_, hwf, htail, hdata⟩
    have hrank := rank_lt hs (by omega)
    have hcount : lengths.count l = lengthCount lengths l := (lengthCount_of_pos hl).symm
    have hlt : (codeword lengths (l + 0) s : Int) - firstCode (lengthCount lengths) l < lengthCount lengths l := by
      rw [Nat.add_zero] at hrank ⊢
      rw [codeword]
      omega
    have hidx : (firstIndex (lengthCount lengths) l : Int) + codeword lengths (l + 0) s -
        firstCode (lengthCount lengths) l = slot lengths (l + 0) s := by
      rw [Nat.add_zero, codeword, slot]
      omega
    have hsym := hd.symbol_eq s (l + 0) hs (by omega)
    rw [decodeFrom, hread, ok_bind]
    simp only [shift_or_bit]
    simp only [Nat.pow_zero, Nat.div_one]
    rw [hd.count_eq, index_map_range _ (by omega), ok_bind, hcount, if_pos hlt]
    simp only [hidx]
    rw [if_neg (by omega), Int.toNat_natCast, index_eq_ok hsym]
    rfl
  | succ m ih =>
    obtain ⟨fuel, rfl⟩ : ∃ f, fuel = f + 1 := ⟨fuel - 1, by omega⟩
    rw [reverse_lsb_succ, append_assoc] at hrest
    obtain ⟨_, hread, hwf1, hrest1, hdata1⟩ := BitReader.readBit_field hr (Nat.mod_lt _ (by decide)) hrest
    have hL : l + (m + 1) = l + 1 + m := by omega
    have hcount : lengths.count l = lengthCount lengths l := (lengthCount_of_pos hl).symm
    -- the prefix read so far lies above every codeword of its length
    have hge : filled (lengthCount lengths) l ≤ codeword lengths (l + (m + 1)) s / 2 ^ (m + 1) := by
      have h := filled_le_div (lengthCount lengths) (l := l) (m := l + (m + 1)) (by omega)
        (Nat.le_add_right _ (rank lengths (l + (m + 1)) s))
      rwa [Nat.add_sub_cancel_left] at h
    have hnot : ¬ ((codeword lengths (l + (m + 1)) s / 2 ^ (m + 1) : Nat) : Int) -
        firstCode (lengthCount lengths) l < lengthCount lengths l := by
      rw [filled] at hge
      omega
    rw [hL] at hs hrest1 hnot ⊢
    have hfuel' : l + 1 + fuel = maxBits + 1 := by omega
    obtain ⟨r', hdec, hwf', hrest', hdata'⟩ := ih hs (Nat.succ_ne_zero l) hfuel' (by omega) hwf1 hrest1
    refine ⟨r', ?_, hwf', hrest', hdata'.trans hdata1⟩
    rw [hL] at hread
    rw [decodeFrom, hread, ok_bind]
    simp only [shift_or_bit]
    rw [hd.count_eq, index_map_range _ (by omega), ok_bind, hcount, if_neg hnot,
      Nat.shiftLeft_eq (firstCode _ _ + _), Nat.pow_one]
    exact hdec

theorem decode_spec (hok : LengthsOk lengths)
    (hd : d.For lengths) (hkraft : filled (lengthCount lengths) maxBits ≤ 2 ^ maxBits)
    (hs : lengths[s]? = some l) (hl : l ≠ 0) (hr : r.WF)
    (hrest : r.rest = (lsb (codeword lengths l s) l).reverse ++ tail) :
    ∃ r', d.decode r = .ok (s, r') ∧ r'.WF ∧ r'.rest = tail ∧ r'.data = r.data := by
  have hle : l ≤ maxBits := hok.le_maxBits l (mem_of_getElem? hs)
  obtain ⟨m, rfl⟩ : ∃ m, l = 1 + m := ⟨l - 1, by omega⟩
  have hlt := codeword_lt hs hl (filled_le_of_le _ hle hkraft)
  have hzero : (codeword lengths (1 + m) s / 2 ^ (m + 1)) <<< 1 = 0 := by
    rw [add_comm 1 m] at hlt ⊢
    rw [div_eq_of_lt hlt]
    rfl
  have h := decodeFrom_spec hd (l := 1) (m := m) hs (by decide) (add_comm 1 maxBits) (by omega)
    hr (by rw [add_comm m 1]; exact hrest)
  rw [hzero] at h
  exact h

end Decoder

/-! ## Assigning codes -/

def reverseBits16 (v : Nat) : Nat := unlsb (lsb v 16).reverse

/-- `code = (code + count[len - 1]) << 1; next_code[len] = code;` over the counts of the lengths not yet visited. -/
def nextCodesFrom (code : Nat) : List Nat → List Nat
  | [] => []
  | c :: cs =>
    let code := (code + c) <<< 1 % 2 ^ 16
    code :: nextCodesFrom code cs

/-- The closure `assign_codes` maps over the lengths, threading `next_code`. -/
def assignCodesFrom (nextCode : List Nat) : List Nat → Res (List Code)
  | [] => .ok []
  | len :: lengths =>
    if len = 0 then do
      let codes ← assignCodesFrom nextCode lengths
      pure ({} :: codes)
    else do
      let code ← index nextCode len
      let codes ← assignCodesFrom (nextCode.set len ((code + 1) % 2 ^ 16)) lengths
      pure ({ bits := reverseBits16 code >>> (16 - len), len } :: codes)

def assignCodes (lengths : List Nat) : Res (List Code) := do
  let count ← countLengths lengths
  let count := count.set 0 0
  assignCodesFrom (0 :: nextCodesFrom 0 (count.take maxBits)) lengths

theorem lsb_reverseBits16 {k len : Nat} (hlen : len ≤ 16) :
    lsb (reverseBits16 k >>> (16 - len)) len = (lsb k len).reverse := by
  have hsplit : lsb k 16 = lsb k len ++ lsb (k / 2 ^ len) (16 - len) := by
    rw [← lsb_add, Nat.add_sub_cancel' hlen]
  have hlow : ((lsb (k / 2 ^ len) (16 - len)).reverse).length = 16 - len := by simp
  rw [reverseBits16, hsplit, reverse_append, unlsb_append, hlow, Nat.shiftRight_eq_div_pow,
    Nat.add_mul_div_left _ _ (Nat.two_pow_pos _), Nat.div_eq_of_lt, Nat.zero_add]
  · have h := lsb_unlsb (lsb k len).reverse
    rwa [length_reverse, length_lsb] at h
  · have h := unlsb_lt (lsb (k / 2 ^ len) (16 - len)).reverse
    rwa [hlow] at h

/-- The code the writer uses for symbol `s` of length `l`. -/
def canonicalCode (lengths : List Nat) (l s : Nat) : Code :=
  if l = 0 then {} else { bits := reverseBits16 (codeword lengths l s) >>> (16 - l), len := l }

theorem nextCodesFrom_eq (l n : Nat) (h : ∀ m, l ≤ m → m ≤ l + n → firstCode c m < 2 ^ 16) :
    nextCodesFrom (firstCode c l) ((List.range' l n).map c) = (List.range' (l + 1) n).map (firstCode c) := by
  induction n generalizing l with
  | zero => rfl
  | succ n ih =>
    have hcode : (firstCode c l + c l) <<< 1 % 2 ^ 16 = firstCode c (l + 1) := by
      rw [shiftLeft_eq, pow_one]
      exact mod_eq_of_lt (h (l + 1) (by omega) (by omega))
    rw [List.range'_succ, map_cons, nextCodesFrom]
    simp only [hcode]
    rw [ih (l + 1) fun m h1 h2 => h m (by omega) (by omega)]
    rfl

theorem assignCodesFrom_spec {all : List Nat} (hok : LengthsOk all)
    (hkraft : filled (lengthCount all) maxBits ≤ 2 ^ maxBits) (lengths : List Nat) (sym : Nat)
    (g : Nat → Nat) (hsuffix : all.drop sym = lengths)
    (hg : ∀ l, l ≠ 0 → g l = firstCode (lengthCount all) l + rank all l sym) :
    ∃ codes, assignCodesFrom ((range (maxBits + 1)).map g) lengths = .ok codes ∧
      ∀ i l, lengths[i]? = some l → codes[i]? = some (canonicalCode all l (sym + i)) := by
  induction lengths generalizing sym g with
  | nil => exact ⟨[], rfl, fun i l h => by simp at h⟩
  | cons len lengths ih =>
    obtain ⟨hget, hsuffix'⟩ := of_drop_eq_cons hsuffix
    have hle : len ≤ maxBits := hok.le_maxBits len (mem_of_getElem? hget)
    -- one more code in front of those of the remaining symbols
    have hcons : ∀ codes, (∀ i l, lengths[i]? = some l → codes[i]? = some (canonicalCode all l (sym + 1 + i))) →
        ∀ i l, (len :: lengths)[i]? = some l →
          (canonicalCode all len sym :: codes)[i]? = some (canonicalCode all l (sym + i)) := by
      intro codes hcodes i l hi
      cases i with
      | zero =>
        obtain rfl : len = l := by simpa using hi
        rfl
      | succ i =>
        rw [getElem?_cons_succ] at hi ⊢
        rw [hcodes i l hi, add_right_comm, add_assoc]
    rw [assignCodesFrom]
    by_cases hzero : len = 0
    · obtain ⟨codes, hcodes, hspec⟩ := ih (sym + 1) g hsuffix' (by
        intro l hl
        rw [hg l hl, rank_succ_ne hget (by omega)])
      refine ⟨{} :: codes, by rw [if_pos hzero, hcodes]; rfl, ?_⟩
      have h := hcons codes hspec
      rwa [canonicalCode, if_pos hzero] at h
    · have hcode : g len = codeword all len sym := hg len hzero
      have hlt : codeword all len sym < 2 ^ maxBits := by
        apply lt_of_lt_of_le (codeword_lt hget hzero (filled_le_of_le _ hle hkraft))
        exact Nat.pow_le_pow_right (by decide) hle
      have h16 : codeword all len sym + 1 < 2 ^ 16 := by
        rw [maxBits] at hlt
        omega
      obtain ⟨codes, hcodes, hspec⟩ := ih (sym + 1) (update g len (codeword all len sym + 1)) hsuffix' (by
          intro l hl
          rw [update_apply]
          split
          case isTrue heq => rw [heq, rank_succ_self hget, codeword]; omega
          case isFalse hne => rw [hg l hl, rank_succ_ne hget (Ne.symm hne)])
      refine ⟨canonicalCode all len sym :: codes, ?_, hcons codes hspec⟩
      rw [if_neg hzero, index_map_range g (by omega), ok_bind, hcode,
        mod_eq_of_lt h16, set_map_range, hcodes, canonicalCode, if_neg hzero]
      rfl

theorem assignCodes_spec (hok : LengthsOk lengths)
    (hkraft : filled (lengthCount lengths) maxBits ≤ 2 ^ maxBits) : ∃ codes, assignCodes lengths = .ok codes ∧
      ∀ s l, lengths[s]? = some l → codes[s]? = some (canonicalCode lengths l s) := by
  have hcount : (((range (maxBits + 1)).map lengths.count).set 0 0).take maxBits =
      (List.range' 0 maxBits).map (lengthCount lengths) := by
    rw [set_map_range, ← map_take, take_range, range_eq_range']
    apply map_congr_left
    intro l _
    rw [update_apply, lengthCount]
  have hnext : 0 :: nextCodesFrom 0 ((List.range' 0 maxBits).map (lengthCount lengths)) =
      (range (maxBits + 1)).map (firstCode (lengthCount lengths)) := by
    have h := nextCodesFrom_eq (lengthCount lengths) 0 maxBits (by
      intro m _ hm
      have hle : firstCode (lengthCount lengths) m ≤ 2 ^ m :=
        le_trans (le_add_right _ _) (filled_le_of_le _ (by omega) hkraft)
      have hpow : 2 ^ m ≤ 2 ^ 15 := Nat.pow_le_pow_right (by decide) (by rw [maxBits] at hm; omega)
      omega)
    rw [show firstCode (lengthCount lengths) 0 = 0 from rfl] at h
    rw [h, range_eq_range', List.range'_succ]
    rfl
  obtain ⟨codes, hcodes, hspec⟩ := assignCodesFrom_spec hok hkraft lengths 0
    (firstCode (lengthCount lengths)) drop_zero (fun l _ => by simp [rank])
  refine ⟨codes, ?_, fun s l hs => ?_⟩
  · rw [assignCodes, countLengths_eq hok, ok_bind]
    simp only [hcount, hnext]
    exact hcodes
  · have h := hspec s l hs
    rwa [zero_add] at h

/-! ## Writer and reader agree -/

theorem decode_canonicalCode {d : Decoder} (hok : LengthsOk lengths)
    (hd : d.For lengths) (hkraft : filled (lengthCount lengths) maxBits ≤ 2 ^ maxBits) {s l : Nat}
    (hs : lengths[s]? = some l) (hl : l ≠ 0) {r : BitReader} (hr : r.WF) {tail : List Bool}
    (hrest : r.rest = lsb (canonicalCode lengths l s).bits (canonicalCode lengths l s).len ++ tail) :
    ∃ r', d.decode r = .ok (s, r') ∧ r'.WF ∧ r'.rest = tail ∧ r'.data = r.data := by
  have hle : l ≤ maxBits := hok.le_maxBits l (mem_of_getElem? hs)
  rw [canonicalCode, if_neg hl] at hrest
  rw [lsb_reverseBits16 (by rw [maxBits] at hle; omega)] at hrest
  exact Decoder.decode_spec hok hd hkraft hs hl hr hrest

theorem canonicalCode_bits_lt (lengths : List Nat) {l : Nat} (s : Nat) (hl : l ≤ maxBits) :
    (canonicalCode lengths l s).bits < 2 ^ (canonicalCode lengths l s).len := by
  rw [canonicalCode]
  split
  · exact one_pos
  · have h := unlsb_lt (lsb (codeword lengths l s) 16).reverse
    have hpow : (2 : Nat) ^ 16 = 2 ^ l * 2 ^ (16 - l) := by
      rw [← pow_add, Nat.add_sub_cancel' (by rw [maxBits] at hl; omega)]
    rw [reverseBits16, shiftRight_eq_div_pow, Nat.div_lt_iff_lt_mul (Nat.two_pow_pos _), ← hpow]
    exact h

end Rustlavel.Http.Deflate
