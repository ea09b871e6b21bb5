/-
  What a server reads off a stream, as a matter of the bytes alone.
-/

import Rustlavel.Http.Server
import Rustlavel.Lib.Traverse

namespace Rustlavel.Http.Server

open Outcome Reading Traverse List Buffered Option Nat

variable (S : Server)

/-! ## The whole stream at once -/

def takeHead (s : List UInt8) : Result String (Option (List UInt8) × List UInt8) :=
  match findHeadEnd s with
  | some e => .ok (some (s.take e), s.drop e)
  | none =>
    if S.maxHeaderBytes < s.length then fail "request headers are too large"
    else if s.isEmpty then .ok (none, [])
    else fail "connection closed mid-request"

def takeTrailers : Nat → List UInt8 → Result String (List UInt8)
  | 0, _ => .error .diverged
  | fuel + 1, s =>
    match findCrlf s with
    | none => .ok s
    | some e => if e = 0 then .ok (s.drop 2) else takeTrailers fuel (s.drop (e + 2))

def takeChunk (size : Nat) (body s : List UInt8) : Result String (List UInt8 × List UInt8) := do
  let total ← addUsize body.length size
  if S.maxBodyBytes < total then fail "request body is too large"
  else
    let need ← addUsize size 2
    if need ≤ s.length then .ok (body ++ s.take size, s.drop need)
    else fail "chunked body ended early"

def takeChunks : Nat → (body s : List UInt8) → Result String (List UInt8 × List UInt8)
  | 0, _, _ => .error .diverged
  | fuel + 1, body, s =>
    match findCrlf s with
    | none => fail "chunked body ended early"
    | some e =>
      match chunkSize (s.take e) with
      | none => fail "invalid chunk size"
      | some 0 => do
        let rest ← takeTrailers ((s.drop (e + 2)).length + 1) (s.drop (e + 2))
        return (body, rest)
      | some size => do
        let chunk ← S.takeChunk size body (s.drop (e + 2))
        takeChunks fuel chunk.1 chunk.2

def takeBody (headers : Headers) (s : List UInt8) : Result String (List UInt8 × List UInt8) :=
  if (headers.get "transfer-encoding").isSome then S.takeChunks (s.length + 1) [] s
  else
    match headers.contentLength with
    | none => .ok ([], s)
    | some length =>
      if S.maxBodyBytes < length then fail "request body is too large"
      else if length ≤ s.length then .ok (s.take length, s.drop length)
      else fail "request body ended early"

variable (head : List UInt8)

def takeRequest (peer : IpAddr.Ip) (s : List UInt8) : Result String ((Request × Bool) × List UInt8) := do
  let parsed ← parseHead head
  let body ← S.takeBody parsed.headers s
  return ((parsed.request peer body.1, parsed.keepAlive), body.2)

/-! ## Heads are refused with a message -/

variable {α : Type}

def Answers (x : Result String α) : Prop := ∀ fault, x = .error fault → ∃ message, fault = .error message

theorem answers_ok (a : α) : Answers (.ok a) := nofun

theorem answers_fail (message : String) : Answers (fail message : Result String α) := by
  intro fault h
  cases h
  exact ⟨message, rfl⟩

theorem Answers.bind {β : Type} {x : Result String α} {f : α → Result String β} (hx : Answers x)
    (hf : ∀ a, Answers (f a)) : Answers (x >>= f) := by
  cases x with
  | error =>
    intro fault h
    exact hx fault (congrArg Except.error (Except.error.inj h))
  | ok a => exact hf a

theorem readRequestLine_answers (line : List Char) : Answers (readRequestLine line) := by
  rw [readRequestLine]
  split
  · exact answers_fail _
  · split
    · exact answers_fail _
    · exact answers_ok _

theorem readHeaders_answers (lines : List (List Char)) (headers : Headers) : Answers (readHeaders lines headers) := by
  induction lines generalizing headers with
  | nil => exact answers_ok headers
  | cons line lines ih =>
    rw [readHeaders]
    split
    · exact ih headers
    · split
      · exact answers_fail _
      · split
        · exact answers_fail _
        · exact ih _

theorem checkFraming_answers (headers : Headers) : Answers (checkFraming headers) := by
  rw [checkFraming]
  simp only
  split
  · exact answers_fail _
  · split
    · exact answers_fail _
    · split
      · exact answers_fail _
      · exact answers_ok ()

theorem parseHead_answers : Answers (parseHead head) := by
  rw [parseHead]
  split
  · exact answers_fail _
  · refine (readRequestLine_answers _).bind fun line => ?_
    refine (readHeaders_answers _ _).bind fun headers => ?_
    exact (checkFraming_answers headers).bind fun _ => answers_ok _

/-! ## In pieces -/

def Same (r : α × Conn) (r' : α × List UInt8) : Prop := r.1 = r'.1 ∧ r.2.all = r'.2

theorem findCrlf_settled (s : List UInt8) : Settled findCrlf s := by
  rintro front x ⟨back, rfl⟩ h
  exact position_append h back

theorem length_settled (n : Nat) (s : List UInt8) :
    Settled (fun buffer : List UInt8 => if n ≤ buffer.length then some () else none) s := by
  intro front x hfront h
  have hle := hfront.length_le
  simp only at h ⊢
  split at h
  · rename_i hn
    rw [if_pos (le_trans hn hle)]
  · cases h

theorem seeHead_settled {s : List UInt8} (hfits : ∀ e, findHeadEnd s = some e → e ≤ S.maxHeaderBytes) :
    Settled S.seeHead s := by
  rintro front x ⟨back, rfl⟩ h
  rw [seeHead] at h ⊢
  cases hfront : findHeadEnd front with
  | some =>
    rw [hfront] at h
    obtain ⟨i, hi, rfl⟩ := map_eq_some_iff.mp hfront
    have hall : findHeadEnd (front ++ back) = some (i + 4) := by
      rw [findHeadEnd, position_append hi back]
      rfl
    rw [hall]
    exact h
  | none =>
    rw [hfront] at h
    simp only at h
    split at h
    · rename_i hlarge
      have hnone : findHeadEnd (front ++ back) = none := by
        -- a head that ended within the limit would have ended in `front`
        rw [eq_none_iff_forall_ne_some]
        intro e he
        have hle := hfits e he
        obtain ⟨i, hi, rfl⟩ := map_eq_some_iff.mp he
        have hinside : i + (crlf ++ crlf).length ≤ front.length := by
          simp only [crlf, length_append, length_cons, length_nil]
          omega
        have hfound := position_of_append hi (by decide) hinside
        rw [findHeadEnd, hfound] at hfront
        cases hfront
      have hmore : S.maxHeaderBytes < (front ++ back).length := by
        rw [length_append]
        omega
      rw [hnone]
      rw [if_pos hmore]
      exact h
    · cases h

theorem readHead_agrees {conn : Conn} (hfits : ∀ e, findHeadEnd conn.all = some e → e ≤ S.maxHeaderBytes) :
    Agree Same (S.readHead conn) (S.takeHead conn.all) := by
  obtain ⟨seen, hseen, hall, hfound, hbuffer, hended⟩ :=
    await_spec (ε := String) S.seeHead (fun _ => 4096) (fun _ _ => zero_lt_succ 4095)
      (S.seeHead_settled hfits)
  rw [readHead, hseen, ok_bind, takeHead]
  rw [seeHead] at hfound
  cases hend : findHeadEnd conn.all with
  | some e =>
    rw [hend] at hfound
    have hle : e ≤ seen.2.buffer.length := by
      rw [hfound, seeHead] at hbuffer
      cases hsub : findHeadEnd seen.2.buffer with
      | some =>
        rw [hsub] at hbuffer
        cases hbuffer
        obtain ⟨i, hi, rfl⟩ := map_eq_some_iff.mp hsub
        exact add_length_le_of_position hi (by decide)
      | none =>
        rw [hsub] at hbuffer
        simp only at hbuffer
        split at hbuffer <;> cases hbuffer
    obtain ⟨left, hdrain, hleft⟩ := drain_spec (ε := String) hle
    rw [hfound]
    simp only
    rw [hdrain, ok_bind, hall]
    rw [hall] at hleft
    exact ⟨rfl, hleft⟩
  | none =>
    rw [hend] at hfound
    by_cases hlarge : S.maxHeaderBytes < conn.all.length
    · rw [if_pos hlarge] at hfound ⊢
      rw [hfound]
      rfl
    · rw [if_neg hlarge] at hfound ⊢
      have hbytes := hended hfound
      rw [hfound, hbytes]
      simp only
      split
      · rename_i hempty
        refine ⟨rfl, ?_⟩
        rw [hall]
        exact isEmpty_iff.mp hempty
      · rfl

section

variable {conn : Conn}

theorem awaitCrlf_spec (conn : Conn) : ∃ r, awaitCrlf conn = .ok r ∧ r.1 = findCrlf conn.all ∧ r.2.all = conn.all ∧
      ∀ e, r.1 = some e → e + 2 ≤ r.2.buffer.length := by
  obtain ⟨r, hr, hall, hfound, hbuffer, -⟩ :=
    await_spec (ε := String) findCrlf (fun _ => 4096) (fun _ _ => zero_lt_succ 4095)
      (findCrlf_settled conn.all)
  refine ⟨r, hr, hfound, hall, ?_⟩
  intro e he
  rw [he] at hbuffer
  exact add_length_le_of_position hbuffer (by decide)

theorem awaitLength_spec (n : Nat) (ask : List UInt8 → Nat) (hask : ∀ buffer, buffer.length < n → 0 < ask buffer)
    (conn : Conn) : ∃ r, awaitLength n ask conn = .ok r ∧ r.2.all = conn.all ∧
      (n ≤ conn.all.length → r.1 = some () ∧ n ≤ r.2.buffer.length) ∧
      (¬ n ≤ conn.all.length → r.1 = none) := by
  have hpos : ∀ buffer : List UInt8, (if n ≤ buffer.length then some () else none) = none → 0 < ask buffer := by
    intro buffer hnone
    split at hnone
    · cases hnone
    · exact hask buffer (by omega)
  obtain ⟨r, hr, hall, hfound, hbuffer, -⟩ := await_spec (ε := String) _ ask hpos (length_settled n conn.all)
  refine ⟨r, hr, hall, ?_, ?_⟩
  · intro hn
    rw [if_pos hn] at hfound
    rw [hfound] at hbuffer
    split at hbuffer
    · exact ⟨hfound, by assumption⟩
    · cases hbuffer
  · intro hn
    rw [if_neg hn] at hfound
    exact hfound

theorem skipTrailers_agrees (fuel : Nat) (conn : Conn) :
    Agree (fun c s => c.all = s) (skipTrailers fuel conn) (takeTrailers fuel conn.all) := by
  induction fuel generalizing conn with
  | zero => rfl
  | succ fuel ih =>
    obtain ⟨line, hline, hfound, hall, hroom⟩ := awaitCrlf_spec conn
    rw [skipTrailers, hline, ok_bind, takeTrailers, hfound]
    cases hend : findCrlf conn.all with
    | none => exact hall
    | some e =>
      have hle := hroom e (by rw [hfound, hend])
      obtain ⟨left, hdrain, hleft⟩ := drain_spec (ε := String) hle
      rw [hall] at hleft
      simp only
      rw [hdrain, ok_bind]
      split
      · rename_i hzero
        subst hzero
        exact hleft
      · rw [← hleft]
        exact ih left

theorem addUsize_cases (a b : Nat) : addUsize a b = .ok (a + b) ∨ addUsize a b = .error .panic := by
  rw [addUsize]
  split
  · exact .inl rfl
  · exact .inr rfl

theorem readChunk_agrees (size : Nat) (body : List UInt8) (conn : Conn) :
    Agree Same (S.readChunk size body conn) (S.takeChunk size body conn.all) := by
  refine Agree.same _ fun total => ?_
  split
  · rfl
  rcases addUsize_cases size 2 with hneed | hneed
  · obtain ⟨filled, hfilled, hall, hroom, hshort⟩ :=
      awaitLength_spec (size + 2) (fun _ => 4096) (fun _ _ => zero_lt_succ 4095) conn
    rw [hneed, ok_bind, ok_bind, hfilled, ok_bind]
    by_cases hle : size + 2 ≤ conn.all.length
    · obtain ⟨hfound, _⟩ := hroom hle
      obtain ⟨mid, hmid, hmidAll⟩ := drain_spec (ε := String) (b := filled.2) (n := size) (by omega)
      have hmidBuffer : 2 ≤ mid.buffer.length := by
        rw [drain, if_pos (by omega)] at hmid
        have hbytes := congrArg (·.2.buffer.length) (Except.ok.inj hmid)
        simp only [length_drop] at hbytes
        omega
      obtain ⟨_, hleft, hleftAll⟩ := drain_spec (ε := String) hmidBuffer
      rw [hfound, if_pos hle]
      rw [hmid, ok_bind, hleft, ok_bind, hall]
      refine ⟨rfl, ?_⟩
      rw [hleftAll, hmidAll, hall, drop_drop]
    · rw [hshort hle, if_neg hle]
      rfl
  · rw [hneed]
    rfl

theorem readChunks_agrees (fuel : Nat) (body : List UInt8) (conn : Conn) :
    Agree Same (S.readChunks fuel body conn) (S.takeChunks fuel body conn.all) := by
  induction fuel generalizing body conn with
  | zero => rfl
  | succ fuel ih =>
    obtain ⟨_, hline, hfound, hall, hroom⟩ := awaitCrlf_spec conn
    rw [readChunks, hline, ok_bind, takeChunks, hfound]
    cases hend : findCrlf conn.all with
    | none => rfl
    | some e =>
      have hle := hroom e (by rw [hfound, hend])
      obtain ⟨left, hdrain, hleft⟩ := drain_spec (ε := String) hle
      rw [hall] at hleft
      simp only
      rw [hdrain, ok_bind, hall, take_take, min_eq_left (le_add_right e 2), ← hleft]
      cases chunkSize (conn.all.take e) with
      | none => rfl
      | some size =>
        cases size with
        | zero =>
          exact (skipTrailers_agrees (left.all.length + 1) left).bind fun c s hcs => ⟨rfl, hcs⟩
        | succ size =>
          refine (S.readChunk_agrees (size + 1) body left).bind fun chunk chunk' hchunk => ?_
          rw [hchunk.1, ← hchunk.2]
          exact ih chunk'.1 chunk.2

theorem readBody_agrees (headers : Headers) (conn : Conn) :
    Agree Same (S.readBody headers conn) (S.takeBody headers conn.all) := by
  rw [readBody, takeBody]
  split
  · exact S.readChunks_agrees _ _ _
  cases headers.contentLength with
  | none => exact ⟨rfl, rfl⟩
  | some length =>
    simp only
    split
    · rfl
    have hask : ∀ buffer : List UInt8, buffer.length < length → 0 < min (length - buffer.length) (64 * 1024) := by
      intro buffer hbuffer
      omega
    obtain ⟨_, hfilled, hall, hroom, hshort⟩ := awaitLength_spec length _ hask conn
    rw [hfilled, ok_bind]
    by_cases hle : length ≤ conn.all.length
    · obtain ⟨hfound, hbuffer⟩ := hroom hle
      obtain ⟨_, hdrain, hleft⟩ := drain_spec (ε := String) hbuffer
      rw [hfound, if_pos hle]
      rw [hdrain, hall]
      rw [hall] at hleft
      exact ⟨rfl, hleft⟩
    · rw [hshort hle, if_neg hle]
      rfl

end

theorem parse_agrees (peer : IpAddr.Ip) (conn : Conn) :
    Agree Same (S.parse head peer conn) (S.takeRequest head peer conn.all) := by
  refine Agree.same _ fun parsed => ?_
  refine (S.readBody_agrees parsed.headers conn).bind fun body body' hbody => ?_
  refine ⟨?_, hbody.2⟩
  rw [hbody.1]

end Rustlavel.Http.Server
