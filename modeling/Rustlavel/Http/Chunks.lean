/-
  What `read_chunked_body` makes of a stream.
-/

import Rustlavel.Http.Connection
import Rustlavel.Http.Framing

namespace Rustlavel.Http.Server

open Outcome Reading List

variable {S : Server} {fuel limit read e n : Nat} {body s t : List UInt8}

/-! ## The walk along a stream -/

/-- A size line at the beginning of `t`, which ends at `e`. -/
def Declares (t : List UInt8) (e n : Nat) : Prop := findCrlf t = some e ∧ chunkSize (t.take e) = some n

/-- What follows a chunk of `n` bytes and two bytes more. -/
def after (s : List UInt8) (e n : Nat) : List UInt8 := (s.drop (e + 2)).drop (n + 2)

/-- With `read` bytes of the body before `s`, the reader comes to `t` for a size, `total` bytes read. -/
inductive Reaches (limit : Nat) : Nat → List UInt8 → Nat → List UInt8 → Prop
  | here {read : Nat} {s : List UInt8} : Reaches limit read s read s
  /-- The chunk is within the limit, and there is enough of the stream for it and two bytes more. -/
  | later {read e n total : Nat} {s t : List UInt8} (hsize : Declares s e n) (hpos : 0 < n) (hlimit : read + n ≤ limit)
      (hlong : n + 2 ≤ (s.drop (e + 2)).length) (hrest : Reaches limit (read + n) (after s e n) total t) :
      Reaches limit read s total t

/-- Both sums that are made of a size fit in a `usize`; the second is made within the limit only. -/
def Fits (limit read : Nat) (s : List UInt8) : Prop :=
  ∀ total t e n, Reaches limit read s total t → Declares t e n → 0 < n →
    total + n < 2 ^ 64 ∧ (total + n ≤ limit → n + 2 < 2 ^ 64)

/-- The reader comes to a size of zero. -/
def Ends (limit read : Nat) (s : List UInt8) : Prop := ∃ total t e, Reaches limit read s total t ∧ Declares t e 0

theorem Declares.unique {e' n' : Nat} (h : Declares s e n) (h' : Declares s e' n') : e = e' ∧ n = n' := by
  obtain ⟨hend, hsize⟩ := h
  obtain ⟨hend', hsize'⟩ := h'
  cases hend.symm.trans hend'
  cases hsize.symm.trans hsize'
  exact ⟨rfl, rfl⟩

theorem Reaches.cases {total : Nat} (h : Reaches limit read s total t) (hsize : Declares s e n) :
    (total = read ∧ t = s) ∨ (0 < n ∧ read + n ≤ limit ∧ n + 2 ≤ (s.drop (e + 2)).length ∧
      Reaches limit (read + n) (after s e n) total t) := by
  cases h with
  | here => exact .inl ⟨rfl, rfl⟩
  | later hsize' hpos hlimit hlong hrest =>
    obtain ⟨rfl, rfl⟩ := hsize.unique hsize'
    exact .inr ⟨hpos, hlimit, hlong, hrest⟩

theorem fits_of_stop (h : ∀ e n, Declares s e n → n = 0) : Fits limit read s := by
  intro total t e n hreach hsize hpos
  cases hreach with
  | here =>
    have hzero := h e n hsize
    omega
  | later hsize' hpos' =>
    have hzero := h _ _ hsize'
    omega

theorem fits_iff (hsize : Declares s e n) (hpos : 0 < n) : Fits limit read s ↔
    read + n < 2 ^ 64 ∧ (read + n ≤ limit → n + 2 < 2 ^ 64) ∧
      (read + n ≤ limit → n + 2 ≤ (s.drop (e + 2)).length → Fits limit (read + n) (after s e n)) := by
  constructor
  · intro h
    obtain ⟨htotal, hneed⟩ := h read s e n .here hsize hpos
    refine ⟨htotal, hneed, fun hlimit hlong total t e' n' hreach => ?_⟩
    exact h total t e' n' (.later hsize hpos hlimit hlong hreach)
  · rintro ⟨htotal, hneed, hrest⟩ total t e' n' hreach hsize' hpos'
    rcases hreach.cases hsize with ⟨rfl, rfl⟩ | ⟨-, hlimit, hlong, hreach⟩
    · obtain ⟨rfl, rfl⟩ := hsize.unique hsize'
      exact ⟨htotal, hneed⟩
    · exact hrest hlimit hlong total t e' n' hreach hsize' hpos'

theorem ends_iff (hsize : Declares s e n) (hpos : 0 < n) : Ends limit read s ↔
    read + n ≤ limit ∧ n + 2 ≤ (s.drop (e + 2)).length ∧ Ends limit (read + n) (after s e n) := by
  constructor
  · rintro ⟨total, t, e', hreach, hzero⟩
    rcases hreach.cases hsize with ⟨rfl, rfl⟩ | ⟨-, hlimit, hlong, hreach⟩
    · obtain ⟨-, rfl⟩ := hsize.unique hzero
      omega
    · exact ⟨hlimit, hlong, total, t, e', hreach, hzero⟩
  · rintro ⟨hlimit, hlong, total, t, e', hreach, hzero⟩
    exact ⟨total, t, e', .later hsize hpos hlimit hlong hreach, hzero⟩

theorem not_ends_of_stop (h : ∀ e n, ¬ Declares s e n) : ¬ Ends limit read s := by
  rintro ⟨total, t, e, hreach, hzero⟩
  cases hreach with
  | here => exact h e 0 hzero
  | later hsize => exact h _ _ hsize

/-! ## What the reader does on it -/

theorem takeChunks_none (S : Server) (fuel : Nat) (body : List UInt8) (h : ∀ e n, ¬ Declares s e n) :
    ∃ message, S.takeChunks (fuel + 1) body s = fail message := by
  rw [takeChunks]
  cases hend : findCrlf s with
  | none => exact ⟨_, rfl⟩
  | some e =>
    simp only
    cases hsize : chunkSize (s.take e) with
    | none => exact ⟨_, rfl⟩
    | some n => exact absurd ⟨hend, hsize⟩ (h e n)

theorem takeChunks_zero (S : Server) (fuel : Nat) (body : List UInt8) (h : Declares s e 0) :
    ∃ rest, S.takeChunks (fuel + 1) body s = .ok (body, rest) ∧
      takeTrailers ((s.drop (e + 2)).length + 1) (s.drop (e + 2)) = .ok rest := by
  obtain ⟨rest, hrest⟩ := takeTrailers_ok (Nat.lt_succ_self (s.drop (e + 2)).length)
  refine ⟨rest, ?_, hrest⟩
  rw [takeChunks, h.1]
  simp only
  rw [h.2]
  simp only
  rw [hrest]
  rfl

/-- The ends of a chunk: either sum may overflow, the limit or the stream may be too short, or it is read. -/
theorem takeChunks_size (S : Server) (fuel : Nat) (body : List UInt8) (h : Declares s e n) (hpos : 0 < n) :
    (S.takeChunks (fuel + 1) body s = .error .panic ∧
      (2 ^ 64 ≤ body.length + n ∨ body.length + n ≤ S.maxBodyBytes ∧ 2 ^ 64 ≤ n + 2)) ∨
    ((∃ message, S.takeChunks (fuel + 1) body s = fail message) ∧ body.length + n < 2 ^ 64 ∧
      (S.maxBodyBytes < body.length + n ∨ n + 2 < 2 ^ 64 ∧ (s.drop (e + 2)).length < n + 2)) ∨
    (S.takeChunks (fuel + 1) body s = S.takeChunks fuel (body ++ (s.drop (e + 2)).take n) (after s e n) ∧
      body.length + n < 2 ^ 64 ∧ n + 2 < 2 ^ 64 ∧ body.length + n ≤ S.maxBodyBytes ∧
      n + 2 ≤ (s.drop (e + 2)).length ∧ (body ++ (s.drop (e + 2)).take n).length = body.length + n) := by
  obtain ⟨size, rfl⟩ : ∃ size, n = size + 1 := ⟨n - 1, by omega⟩
  rw [takeChunks, h.1]
  simp only
  rw [h.2]
  simp only [takeChunk, addUsize]
  by_cases htotal : body.length + (size + 1) < 2 ^ 64
  · rw [if_pos htotal, ok_bind]
    by_cases hmax : S.maxBodyBytes < body.length + (size + 1)
    · rw [if_pos hmax]
      exact .inr (.inl ⟨⟨_, rfl⟩, htotal, .inl hmax⟩)
    · rw [if_neg hmax]
      by_cases hneed : size + 1 + 2 < 2 ^ 64
      · rw [if_pos hneed, ok_bind]
        by_cases hlong : size + 1 + 2 ≤ (s.drop (e + 2)).length
        · rw [if_pos hlong]
          refine .inr (.inr ⟨rfl, htotal, hneed, by omega, hlong, ?_⟩)
          rw [length_append, length_take]
          omega
        · rw [if_neg hlong]
          exact .inr (.inl ⟨⟨_, rfl⟩, htotal, .inr ⟨hneed, by omega⟩⟩)
      · rw [if_neg hneed]
        exact .inl ⟨rfl, .inr ⟨by omega, by omega⟩⟩
  · rw [if_neg htotal]
    exact .inl ⟨rfl, .inl (by omega)⟩

theorem length_after (hlong : n + 2 ≤ (s.drop (e + 2)).length) :
    (after s e n).length < s.length := by
  rw [length_drop] at hlong
  rw [after, length_drop, length_drop]
  omega

theorem declares_cases (s : List UInt8) : (∀ e n, ¬ Declares s e n) ∨ (∃ e, Declares s e 0) ∨
    ∃ e n, Declares s e n ∧ 0 < n := by
  by_cases h : ∃ e n, Declares s e n
  · obtain ⟨e, n, h⟩ := h
    rcases Nat.eq_zero_or_pos n with rfl | hpos
    · exact .inr (.inl ⟨e, h⟩)
    · exact .inr (.inr ⟨e, n, h, hpos⟩)
  · exact .inl fun e n hsize => h ⟨e, n, hsize⟩

/-- The reader panics exactly where a sum does not fit, and succeeds exactly where it comes to a size of zero. -/
theorem takeChunks_walk (hfuel : s.length < fuel) :
    (S.takeChunks fuel body s ≠ .error .panic ↔ Fits S.maxBodyBytes body.length s) ∧
      (Fits S.maxBodyBytes body.length s →
        ((∃ r, S.takeChunks fuel body s = .ok r) ↔ Ends S.maxBodyBytes body.length s)) := by
  induction fuel generalizing body s with
  | zero => omega
  | succ fuel ih =>
    rcases declares_cases s with hnone | ⟨e, hzero⟩ | ⟨e, n, hsize, hpos⟩
    · obtain ⟨message, hrun⟩ := takeChunks_none S fuel body hnone
      have hfits : Fits S.maxBodyBytes body.length s := fits_of_stop fun e n h => absurd h (hnone e n)
      rw [hrun]
      refine ⟨iff_of_true (by rintro ⟨⟩) hfits, fun _ => iff_of_false ?_ (not_ends_of_stop hnone)⟩
      rintro ⟨_, ⟨⟩⟩
    · obtain ⟨rest, hrun, -⟩ := takeChunks_zero S fuel body hzero
      have hfits : Fits S.maxBodyBytes body.length s := fits_of_stop fun e n h => (hzero.unique h).2.symm
      rw [hrun]
      refine ⟨iff_of_true (by rintro ⟨⟩) hfits, fun _ => iff_of_true ⟨_, rfl⟩ ?_⟩
      exact ⟨_, s, e, .here, hzero⟩
    · rw [fits_iff hsize hpos, ends_iff hsize hpos]
      rcases takeChunks_size S fuel body hsize hpos with
        ⟨hrun, hover⟩ | ⟨⟨message, hrun⟩, htotal, hshort⟩ | ⟨hrun, htotal, hneed, hlimit, hlong, hlength⟩
      · rw [hrun]
        refine ⟨iff_of_false (fun h => h rfl) fun h => ?_, fun h => ?_⟩ <;> omega
      · rw [hrun]
        refine ⟨iff_of_true (by rintro ⟨⟩) ⟨htotal, by omega, by omega⟩, fun _ => iff_of_false ?_ ?_⟩
        · rintro ⟨_, ⟨⟩⟩
        · rintro ⟨hlimit, hlong, -⟩
          omega
      · have hshort : (after s e n).length < fuel := by
          have hless := length_after hlong
          omega
        obtain ⟨hpanic, hok⟩ := @ih (body ++ (s.drop (e + 2)).take n) _ hshort
        rw [hlength] at hpanic hok
        rw [hrun, hpanic]
        refine ⟨⟨fun h => ⟨htotal, fun _ => hneed, fun _ _ => h⟩, fun h => h.2.2 hlimit hlong⟩, fun h => ?_⟩
        rw [hok (h.2.2 hlimit hlong)]
        exact ⟨fun h => ⟨hlimit, hlong, h⟩, fun h => h.2.2⟩

theorem takeChunks_le {r : List UInt8 × List UInt8} (h : S.takeChunks fuel body s = .ok r)
    (hbody : body.length ≤ S.maxBodyBytes ∧ body.length < 2 ^ 64) :
    r.1.length ≤ S.maxBodyBytes ∧ r.1.length < 2 ^ 64 := by
  induction fuel generalizing body s with
  | zero => cases h
  | succ fuel ih =>
    rcases declares_cases s with hnone | ⟨e, hzero⟩ | ⟨e, n, hsize, hpos⟩
    · obtain ⟨message, hrun⟩ := takeChunks_none S fuel body hnone
      cases hrun.symm.trans h
    · obtain ⟨rest, hrun, -⟩ := takeChunks_zero S fuel body hzero
      cases hrun.symm.trans h
      exact hbody
    · rcases takeChunks_size S fuel body hsize hpos with
        ⟨hrun, -⟩ | ⟨⟨message, hrun⟩, -⟩ | ⟨hrun, htotal, -, hlimit, -, hlength⟩
      · cases hrun.symm.trans h
      · cases hrun.symm.trans h
      · exact ih (hrun.symm.trans h) (by omega)

/-- The reader and the walk along the whole stream end alike. -/
theorem readChunkedBody_iff (S : Server) (conn : Conn) :
    (∀ body rest, (∃ conn', S.readChunkedBody conn = .ok (body, conn') ∧ conn'.all = rest) ↔
      S.takeChunks (conn.all.length + 1) [] conn.all = .ok (body, rest)) ∧
    ((∃ r, S.readChunkedBody conn = .ok r) ∨ (∃ message, S.readChunkedBody conn = .error (.error message)) ↔
      Fits S.maxBodyBytes 0 conn.all) := by
  have hwalk : _ ↔ Fits S.maxBodyBytes 0 conn.all :=
    (@takeChunks_walk S _ [] _ (Nat.lt_succ_self conn.all.length)).1
  have hstops := @takeChunks_stops S _ [] _ (Nat.lt_succ_self conn.all.length)
  rw [← hwalk]
  rcases (S.readChunks_agrees (conn.all.length + 1) [] conn).ends with ⟨e, hread, htake⟩ | ⟨r, r', hread, htake, hsame⟩
  · have hbody : S.readChunkedBody conn = .error e := hread
    rw [htake] at hstops ⊢
    rw [hbody]
    refine ⟨fun body rest => iff_of_false ?_ (by rintro ⟨⟩), ?_⟩
    · rintro ⟨_, ⟨⟩, -⟩
    · constructor
      · rintro (⟨_, ⟨⟩⟩ | ⟨message, h⟩)
        cases h
        rintro ⟨⟩
      · intro hkept
        cases e with
        | error message => exact .inr ⟨message, rfl⟩
        | panic => exact absurd rfl hkept
        | diverged => exact absurd rfl hstops
  · have hbody : S.readChunkedBody conn = .ok r := hread
    rw [htake, hbody]
    refine ⟨fun body rest => ⟨?_, fun h => ?_⟩, iff_of_true (.inl ⟨r, rfl⟩) (by rintro ⟨⟩)⟩
    · rintro ⟨conn', h, rfl⟩
      cases h
      exact congrArg Except.ok (Prod.ext hsame.1.symm hsame.2.symm)
    · cases h
      exact ⟨r.2, congrArg Except.ok (Prod.ext hsame.1 rfl), hsame.2⟩

/-! ## Sizes -/

/-- A body within the limit or an error is returned exactly if every size that is met, added to the bytes read before
    it and then to two, stays within a `usize`. -/
theorem readChunkedBody_kept (S : Server) (conn : Conn) :
    ((∃ body conn', S.readChunkedBody conn = .ok (body, conn') ∧ body.length ≤ S.maxBodyBytes) ∨
      ∃ message, S.readChunkedBody conn = .error (.error message)) ↔ Fits S.maxBodyBytes 0 conn.all := by
  obtain ⟨hread, hanswers⟩ := readChunkedBody_iff S conn
  rw [← hanswers]
  refine or_congr_left ⟨?_, ?_⟩
  · rintro ⟨body, conn', hok, -⟩
    exact ⟨_, hok⟩
  · rintro ⟨r, hok⟩
    have htake := (hread r.1 r.2.all).mp ⟨r.2, hok, rfl⟩
    exact ⟨r.1, r.2, hok, (takeChunks_le htake ⟨Nat.zero_le _, by decide⟩).1⟩

/-- A size close to the largest word is added to the length before the limit is checked. -/
theorem second_size_overflows :
    let S : Server := { maxHeaderBytes := 65536, maxBodyBytes := 4 }
    let conn : Conn :=
      { buffer := Utf8.encode "1\r\na\r\nffffffffffffffff\r\n".toList, source := { pending := [], cuts := [] } }
    S.readChunkedBody conn = .error .panic := by
  decide

/-! ## Messages -/

end Rustlavel.Http.Server
