/-
  Requests with one scope and one idempotency key, in any number and interleaved in any
  way: `Idempotency::handle` past the choice of its keys, with every call of the store an
  atomic step that does not fail.  The store is the two entries of that key, with the
  rules of the memory driver for what is expired.
-/

import Rustlavel.Cache.Idempotency
import Rustlavel.Lib.Threads

namespace Rustlavel.Cache

open Double Http Text List Utf8 Option Nat

/-! ## Answers in the store -/

def hexByte (b : UInt8) : List Char := [digitChar (b.toNat / 16), digitChar (b.toNat % 16)]

def unhex : List UInt8 → Option (List UInt8)
  | [] => some []
  | [a] => ((fromUtf8 [a]).bind (parseUnsigned 16 256)).map fun n => [UInt8.ofNat n]
  | a :: b :: rest => do
    let n ← (fromUtf8 [a, b]).bind (parseUnsigned 16 256)
    let bytes ← unhex rest
    pure (UInt8.ofNat n :: bytes)

variable (body : List UInt8)

def freezeBody : String × String :=
  match fromUtf8 body with
  | some text => ("utf8", String.ofList text)
  | none => ("hex", String.ofList (body.flatMap hexByte))

def thawBody (encoding body : String) : Option (List UInt8) :=
  if encoding = "hex" then unhex (encode body.toList) else some (encode body.toList)

def freezeHeader (entry : String × String) : Json Whole := .array [.string entry.1, .string entry.2]

def thawHeader (headers : Headers) (pair : Json Whole) : Option Headers := do
  let pair ← pair.asArray
  let name ← (← pair[0]?).asStr
  let value ← (← pair[1]?).asStr
  pure (headers.append name value)

def freeze (response : Response) (print : String) : Json Whole :=
  .ofPairs [("status", .number (.ofInt response.status)),
    ("headers", .array (response.headers.entries.map freezeHeader)),
    ("encoding", .string (freezeBody response.body).1), ("body", .string (freezeBody response.body).2),
    ("fingerprint", .string print)]

def statusOf (x : Whole) : Option Nat := if 0 ≤ x.val ∧ x.val < 2 ^ 16 then some x.val.toNat else none

def thaw (frozen : Json Whole) : Option Response := do
  let status ← statusOf (← (← frozen.get "status").asNumber)
  let headers ← (← (← frozen.get "headers").asArray).foldlM thawHeader {}
  let body ← (← frozen.get "body").asStr
  let bytes ← thawBody (← (← frozen.get "encoding").asStr) body
  pure { status := status, headers := headers, body := bytes }

theorem unhex_hexByte (b : UInt8) (rest : List UInt8) :
    unhex (encode (hexByte b) ++ rest) = (unhex rest).map (b :: ·) := by
  obtain ⟨hbytes, hvalue⟩ := forall_byte (P := fun b => encode (hexByte b) =
    [ascii (digitChar (b.toNat / 16)), ascii (digitChar (b.toNat % 16))] ∧
    parseUnsigned 16 256 (hexByte b) = some b.toNat) (by decide +kernel) b
  have htext := fromUtf8_encode (hexByte b)
  rw [hbytes] at htext
  rw [hbytes, cons_append, cons_append, nil_append, unhex, htext, bind_some, hvalue]
  cases unhex rest with
  | none => rfl
  | some => simp

theorem unhex_flatMap : unhex (encode (body.flatMap hexByte)) = some body := by
  induction body with
  | nil => rfl
  | cons b body ih =>
    rw [flatMap_cons, encode_append, unhex_hexByte, ih]
    rfl

theorem thawBody_freezeBody : thawBody (freezeBody body).1 (freezeBody body).2 = some body := by
  unfold freezeBody thawBody
  cases htext : fromUtf8 body with
  | some =>
    rw [if_neg (by simp), String.toList_ofList]
    exact congrArg some (encode_of_fromUtf8 htext).symm
  | none =>
    rw [if_pos rfl, String.toList_ofList]
    exact unhex_flatMap body

theorem foldlM_thawHeader (entries : List (String × String)) (headers : Headers)
    (h : Headers.Clean { entries := entries }) :
    (entries.map freezeHeader).foldlM thawHeader headers = some { entries := headers.entries ++ entries } := by
  induction entries generalizing headers with
  | nil => simp
  | cons entry entries ih =>
    obtain ⟨hname, hvalue⟩ := h entry mem_cons_self
    have hhead : thawHeader headers (freezeHeader entry) = some { entries := headers.entries ++ [entry] } := by
      show some (headers.append entry.1 entry.2) = _
      rw [Headers.append, hname, hvalue]
    rw [map_cons, foldlM_cons, hhead]
    simp only [bind_eq_bind, bind_some]
    rw [ih _ fun other hother => h other (mem_cons_of_mem entry hother), append_assoc, singleton_append]

theorem thaw_freeze {response : Response} (print : String) (hstatus : response.status < 2 ^ 16)
    (hclean : response.headers.Clean) : thaw (freeze response print) = some response := by
  have hnumber : statusOf (.ofInt response.status) = some response.status := by
    have hround : (Whole.ofInt response.status).val = response.status := round_of_lt (by omega)
    rw [statusOf, hround, if_pos (by omega), Int.toNat_natCast]
  have hheaders := foldlM_thawHeader response.headers.entries {} hclean
  simp [thaw, freeze, Json.ofPairs, Json.get, Json.lookup_insertField, Json.asStr, Json.asNumber, Json.asArray,
    hnumber, hheaders, thawBody_freezeBody]

theorem fingerprint_freeze (response : Response) (print : String) :
    ((freeze response print).get "fingerprint").bind Json.asStr = some print := by
  simp [freeze, Json.ofPairs, Json.get, Json.lookup_insertField, Json.asStr]

/-! ## The store -/

structure Entry (α : Type) where
  value : α
  expiresAt : Nat

def live {α : Type} (now : Nat) (slot : Option (Entry α)) : Option (Entry α) := slot.filter (now < ·.expiresAt)

def incrementWithin (ttl now : Nat) (slot : Option (Entry Nat)) : Nat × Option (Entry Nat) :=
  match live now slot with
  | some entry => (entry.value + 1, some { entry with value := entry.value + 1 })
  | none => (1, some { value := 1, expiresAt := now + ttl })

def put {α : Type} (ttl now : Nat) (value : α) : Option (Entry α) :=
  if ttl = 0 then none else some { value := value, expiresAt := now + ttl }

structure Shared where
  clock : Nat := 0
  lock : Option (Entry Nat) := none
  response : Option (Entry (Json Whole)) := none

/-! ## Requests -/

def problem (status : Nat) (message : String) : Response :=
  Response.withJson { status := status } (.ofPairs [("message", .string message)])

def replayed (response : Response) : Response := response.withHeader "idempotent-replayed" "true"

def usedForAnother : Response := problem 422 "This idempotency key was already used for a different request."

def answer (print : String) : Option (Json Whole) → Response
  | some frozen =>
    if (frozen.get "fingerprint").bind Json.asStr ≠ some print then usedForAnother
    else match thaw frozen with
      | some response => replayed response
      | none => problem 500 "The remembered response could not be read."
  | none => (problem 409 "A request with this idempotency key is still being processed.").withHeader "retry-after" "1"

inductive Stage where
  | arrived
  | asking
  | running (since : Nat)
  | answered (since : Nat) (response : Response)
  /-- The answer is stored. -/
  | completed (since stored : Nat) (response : Response)
  /-- The answer was a failure and the lock is given back. -/
  | released (since : Nat) (response : Response)
  | turned (reply : Response)
  /-- The handler panicked, or the request was dropped. -/
  | lost (since : Option Nat)

structure Call where
  print : String
  stage : Stage := .arrived

inductive Happens where
  | goesOn
  | returns (response : Response)
  | ends

structure Choice where
  now : Nat
  happens : Happens

def next (ttl : Nat) (s : Shared) (c : Call) (choice : Choice) : Option (Shared × Call) :=
  let now := choice.now
  if now < s.clock then none
  else match c.stage, choice.happens with
    | .arrived, .goesOn =>
      let (claim, lock) := incrementWithin ttl now s.lock
      some ({ s with clock := now, lock := lock }, { c with stage := if 1 < claim then .asking else .running now })
    | .asking, .goesOn =>
      some ({ s with clock := now }, { c with stage := .turned (answer c.print ((live now s.response).map (·.value))) })
    | .running since, .returns response =>
      if now < since + ttl ∧ response.status < 2 ^ 16 ∧ response.headers.Clean then
        some ({ s with clock := now }, { c with stage := .answered since response })
      else none
    | .answered since response, .goesOn =>
      if since + ttl ≤ now then none
      else if 500 ≤ response.status then
        some ({ s with clock := now, lock := none }, { c with stage := .released since response })
      else
        some ({ s with clock := now, response := put ttl now (freeze response c.print) },
          { c with stage := .completed since now response })
    | .arrived, .ends | .asking, .ends => some ({ s with clock := now }, { c with stage := .lost none })
    | .running since, .ends | .answered since _, .ends =>
      some ({ s with clock := now }, { c with stage := .lost (some since) })
    | _, _ => none

def requests (ttl : Nat) : Threads Shared Call Choice where
  starts c := c.stage matches .arrived
  next := next ttl

/-! ## What holds in every run -/

def Stage.since : Stage → Option Nat
  | .running t | .answered t _ | .completed t _ _ => some t
  | .lost t => t
  | _ => none

def Stage.Sound : Stage → Prop
  | .answered _ r | .completed _ _ r => r.status < 2 ^ 16 ∧ r.headers.Clean
  | _ => True

section

open Threads

variable {ttl : Nat} {c : Config Shared Call} {s s' : Shared} {u u' : Call} {choice : Choice} {i : Nat}

theorem clock_le_of_next (h : next ttl s u choice = some (s', u')) : s.clock ≤ choice.now := by
  unfold next at h
  by_contra hlt
  rw [if_pos (by omega)] at h
  cases h

theorem next_cases (hlock : ∀ e, live choice.now s.lock = some e → 1 ≤ e.value) (hsound : u.stage.Sound)
    (hsince : ∀ t, u.stage.since = some t → t ≤ s.clock) (h : next ttl s u choice = some (s', u')) :
    s.clock ≤ choice.now ∧ s'.clock = choice.now ∧ u'.print = u.print ∧ u'.stage.Sound ∧
    ((s'.lock = s.lock ∧ s'.response = s.response ∧ u'.stage.since = u.stage.since ∧
        ∀ t p r, u'.stage ≠ .completed t p r) ∨
      (∃ e, u.stage = .arrived ∧ live choice.now s.lock = some e ∧
        s'.lock = some { e with value := e.value + 1 } ∧ s'.response = s.response ∧ u'.stage = .asking) ∨
      (u.stage = .arrived ∧ live choice.now s.lock = none ∧ s'.lock = some ⟨1, choice.now + ttl⟩ ∧
        s'.response = s.response ∧ u'.stage = .running choice.now) ∨
      (∃ t r, u.stage = .answered t r ∧ choice.now < t + ttl ∧ s'.lock = none ∧ s'.response = s.response ∧
        u'.stage = .released t r) ∨
      (∃ t r, u.stage = .answered t r ∧ choice.now < t + ttl ∧ s'.lock = s.lock ∧
        s'.response = some ⟨freeze r u.print, choice.now + ttl⟩ ∧ u'.stage = .completed t choice.now r)) := by
  obtain ⟨print, stage⟩ := u
  obtain ⟨now, happens⟩ := choice
  unfold next at h
  by_cases hpast : now < s.clock
  · simp [hpast] at h
  simp only [if_neg hpast] at h
  refine ⟨by simpa using hpast, ?_⟩
  cases stage with
  | arrived =>
    cases happens with
    | returns => cases h
    | ends =>
      cases h
      exact ⟨rfl, rfl, trivial, .inl ⟨rfl, rfl, rfl, nofun⟩⟩
    | goesOn =>
      cases hlive : live now s.lock with
      | none =>
        have hclaim : incrementWithin ttl now s.lock = (1, some ⟨1, now + ttl⟩) := by rw [incrementWithin, hlive]
        simp only [hclaim] at h
        cases h
        exact ⟨rfl, rfl, trivial, .inr (.inr (.inl ⟨rfl, rfl, rfl, rfl, rfl⟩))⟩
      | some e =>
        have hclaim : incrementWithin ttl now s.lock = (e.value + 1, some { e with value := e.value + 1 }) := by
          rw [incrementWithin, hlive]
        simp only [hclaim, if_pos (lt_succ_of_le (hlock e hlive))] at h
        cases h
        exact ⟨rfl, rfl, trivial, .inr (.inl ⟨e, rfl, rfl, rfl, rfl, rfl⟩)⟩
  | asking =>
    cases happens with
    | returns => cases h
    | goesOn | ends =>
      cases h
      exact ⟨rfl, rfl, trivial, .inl ⟨rfl, rfl, rfl, nofun⟩⟩
  | running =>
    cases happens with
    | goesOn => cases h
    | ends =>
      cases h
      exact ⟨rfl, rfl, trivial, .inl ⟨rfl, rfl, rfl, nofun⟩⟩
    | returns =>
      obtain ⟨hok, h⟩ := ite_none_right_eq_some.mp h
      cases h
      exact ⟨rfl, rfl, hok.2, .inl ⟨rfl, rfl, rfl, nofun⟩⟩
  | answered t r =>
    cases happens with
    | returns => cases h
    | ends =>
      cases h
      exact ⟨rfl, rfl, trivial, .inl ⟨rfl, rfl, rfl, nofun⟩⟩
    | goesOn =>
      obtain ⟨htime, h⟩ := ite_none_left_eq_some.mp h
      have htime : now < t + ttl := by omega
      split at h <;> cases h
      · exact ⟨rfl, rfl, trivial, .inr (.inr (.inr (.inl ⟨t, r, rfl, htime, rfl, rfl, rfl⟩)))⟩
      · have hput : put ttl now (freeze r print) = some ⟨freeze r print, now + ttl⟩ := by
          have hle := hsince t rfl
          exact if_neg (by omega)
        exact ⟨rfl, rfl, hsound, .inr (.inr (.inr (.inr ⟨t, r, rfl, htime, rfl, hput, rfl⟩)))⟩
  | completed | released | turned | lost => cases happens <;> cases h

def Keeps (c : Config Shared Call) (i t : Nat) : Prop := ∃ u, c.threads[i]? = some u ∧ u.stage.since = some t

theorem keeps_set (hu : c.threads[i]? = some u) {j t : Nat} :
    Keeps { shared := s', threads := c.threads.set i u' } j t ↔
      j = i ∧ u'.stage.since = some t ∨ j ≠ i ∧ Keeps c j t := by
  simp only [Keeps, getElem?_set_cases hu]
  constructor
  · rintro ⟨v, ⟨rfl, rfl⟩ | ⟨hne, hv⟩, ht⟩
    · exact .inl ⟨rfl, ht⟩
    · exact .inr ⟨hne, v, hv, ht⟩
  · rintro (⟨rfl, ht⟩ | ⟨hne, v, hv, ht⟩)
    · exact ⟨u', .inl ⟨rfl, rfl⟩, ht⟩
    · exact ⟨v, .inr ⟨hne, hv⟩, ht⟩

def Apart (ttl t t' : Nat) : Prop := t + ttl ≤ t' ∨ t' + ttl ≤ t

/-- While a window lasts the lock is its opener's and nobody else's, and a remembered answer stays. -/
structure Orderly (ttl : Nat) (c : Config Shared Call) : Prop where
  past : ∀ {i t}, Keeps c i t → t ≤ c.shared.clock
  held : ∀ {i t}, Keeps c i t → c.shared.clock < t + ttl → ∃ n, 1 ≤ n ∧ c.shared.lock = some ⟨n, t + ttl⟩
  owned : ∀ {e}, c.shared.lock = some e → c.shared.clock < e.expiresAt →
    1 ≤ e.value ∧ ∃ i t, Keeps c i t ∧ e.expiresAt = t + ttl
  apart : ∀ {i j t t'}, i ≠ j → Keeps c i t → Keeps c j t' → Apart ttl t t'
  sound : ∀ {i : Nat} {u : Call}, c.threads[i]? = some u → u.stage.Sound
  stored : ∀ {i : Nat} {u : Call} {t p r}, c.threads[i]? = some u → u.stage = .completed t p r →
    c.shared.clock < t + ttl →
    c.shared.response = some ⟨freeze r u.print, p + ttl⟩ ∧ t ≤ p

theorem live_eq_some {α : Type} {now : Nat} {slot : Option (Entry α)} {e : Entry α} :
    live now slot = some e ↔ slot = some e ∧ now < e.expiresAt := by
  simp [live, filter_eq_some_iff]

theorem Orderly.same {c' : Config Shared Call} (h : Orderly ttl c) (hk : ∀ {j t}, Keeps c' j t ↔ Keeps c j t)
    (hpast : c.shared.clock ≤ c'.shared.clock) (hlock : c'.shared.lock = c.shared.lock)
    (hsound : ∀ {j : Nat} {v : Call}, c'.threads[j]? = some v → v.stage.Sound)
    (hstored : ∀ {j : Nat} {v : Call} {t p r}, c'.threads[j]? = some v → v.stage = .completed t p r →
      c'.shared.clock < t + ttl → c'.shared.response = some ⟨freeze r v.print, p + ttl⟩ ∧ t ≤ p) : Orderly ttl c' := by
  refine ⟨fun k => (h.past (hk.mp k)).trans hpast, fun k ht => ?_, fun he ht => ?_,
    fun hij k k' => h.apart hij (hk.mp k) (hk.mp k'), hsound, hstored⟩
  · rw [hlock]
    exact h.held (hk.mp k) (by omega)
  · rw [hlock] at he
    obtain ⟨hvalue, j, t, k, ht⟩ := h.owned he (by omega)
    exact ⟨hvalue, j, t, hk.mpr k, ht⟩

theorem Orderly.step (h : Orderly ttl c) (hu : c.threads[i]? = some u)
    (hnext : next ttl c.shared u choice = some (s', u')) :
    Orderly ttl { shared := s', threads := c.threads.set i u' } := by
  have hkeeps : ∀ {t}, u.stage.since = some t → Keeps c i t := fun ht => ⟨u, hu, ht⟩
  have hpast := clock_le_of_next hnext
  have hlock : ∀ e, live choice.now c.shared.lock = some e → 1 ≤ e.value := by
    intro e he
    obtain ⟨he, hlive⟩ := live_eq_some.mp he
    exact (h.owned he (by omega)).1
  obtain ⟨-, hclock, hprint, hsound, hcases⟩ := next_cases hlock (h.sound hu) (fun t ht => h.past (hkeeps ht)) hnext
  obtain ⟨clock, lock, response⟩ := s'
  obtain rfl : clock = choice.now := hclock
  have hsoundAll : ∀ {j : Nat} {v : Call}, (c.threads.set i u')[j]? = some v → v.stage.Sound := by
    intro j v hv
    obtain ⟨-, rfl⟩ | ⟨-, hv⟩ := (getElem?_set_cases hu).mp hv
    · exact hsound
    · exact h.sound hv
  -- what others have stored, as long as this step leaves the answer alone
  have hstored : ∀ {j : Nat} {v : Call} {t p r}, response = c.shared.response → (∀ t p r, u'.stage ≠ .completed t p r) →
      (c.threads.set i u')[j]? = some v → v.stage = .completed t p r → choice.now < t + ttl →
      response = some ⟨freeze r v.print, p + ttl⟩ ∧ t ≤ p := by
    intro j v t p r hsame hnot hv hstage htime
    obtain ⟨-, rfl⟩ | ⟨-, hv⟩ := (getElem?_set_cases hu).mp hv
    · exact absurd hstage (hnot t p r)
    · rw [hsame]
      exact h.stored hv hstage (by omega)
  have hsame : u'.stage.since = u.stage.since → ∀ j t,
      Keeps { shared := ⟨choice.now, lock, response⟩, threads := c.threads.set i u' } j t ↔ Keeps c j t := by
    intro hsince j t
    rw [keeps_set hu, hsince]
    refine ⟨?_, fun hk => ?_⟩
    · rintro (⟨rfl, ht⟩ | ⟨-, hk⟩)
      · exact hkeeps ht
      · exact hk
    · by_cases hj : j = i
      · obtain ⟨_, hv, ht⟩ := hk
        rw [hj, hu] at hv
        cases hv
        exact .inl ⟨hj, ht⟩
      · exact .inr ⟨hj, hk⟩
  obtain ⟨rfl, hresponse, hsince, hnot⟩ | ⟨e, hstage, hlive, rfl, hresponse, hstage'⟩ |
    ⟨hstage, hfree, rfl, hresponse, hstage'⟩ | ⟨t, r, hstage, htime, rfl, hresponse, hstage'⟩ |
    ⟨t, r, hstage, htime, rfl, rfl, hstage'⟩ := hcases
  · exact h.same (hsame hsince _ _) hpast rfl hsoundAll (hstored hresponse hnot)
  · -- a further claim only counts
    have hk := hsame (by rw [hstage, hstage']; rfl)
    obtain ⟨he, _⟩ := live_eq_some.mp hlive
    obtain ⟨-, j, t, k, ht⟩ := h.owned he (by omega)
    refine ⟨fun k => (h.past ((hk _ _).mp k)).trans hpast, fun k ht => ?_, fun he' _ => ?_,
      fun hij k k' => h.apart hij ((hk _ _).mp k) ((hk _ _).mp k'), hsoundAll, hstored hresponse (by simp [hstage'])⟩
    · obtain ⟨n, _, heq⟩ := h.held ((hk _ _).mp k) (by simp only at ht; omega)
      rw [he] at heq
      cases heq
      exact ⟨n + 1, by omega, rfl⟩
    · cases he'
      exact ⟨by simp, j, t, (hk _ _).mpr k, ht⟩
  · -- the lock was free, so every window before this one is over
    have hover : ∀ {j t}, Keeps c j t → t + ttl ≤ choice.now := by
      intro j t k
      by_contra hlt
      obtain ⟨_, -, heq⟩ := h.held k (by omega)
      have hsome := live_eq_some.mpr ⟨heq, Nat.lt_of_not_le hlt⟩
      rw [hfree] at hsome
      cases hsome
    have hnew : u'.stage.since = some choice.now := by rw [hstage']; rfl
    refine ⟨fun k => ?_, fun k ht => ?_, fun he ht => ?_, fun hij k k' => ?_, hsoundAll,
      hstored hresponse (by simp [hstage'])⟩
    · obtain ⟨-, ht⟩ | ⟨-, k⟩ := (keeps_set hu).mp k
      · rw [hnew] at ht
        cases ht
        exact le_refl _
      · exact (h.past k).trans hpast
    · obtain ⟨-, ht'⟩ | ⟨-, k⟩ := (keeps_set hu).mp k
      · rw [hnew] at ht'
        cases ht'
        exact ⟨1, le_refl 1, rfl⟩
      · have hle := hover k
        simp only at ht
        omega
    · cases he
      exact ⟨le_refl 1, i, choice.now, (keeps_set hu).mpr (.inl ⟨rfl, hnew⟩), rfl⟩
    · obtain ⟨hi, ht⟩ | ⟨-, hold⟩ := (keeps_set hu).mp k
      · obtain ⟨hj, -⟩ | ⟨-, hold'⟩ := (keeps_set hu).mp k'
        · exact absurd (hi.trans hj.symm) hij
        · rw [hnew] at ht
          cases ht
          exact .inr (hover hold')
      · obtain ⟨-, ht'⟩ | ⟨-, hold'⟩ := (keeps_set hu).mp k'
        · rw [hnew] at ht'
          cases ht'
          exact .inl (hover hold)
        · exact h.apart hij hold hold'
  · -- whoever else keeps the lock does so since before this window
    have hmine : Keeps c i t := hkeeps (by rw [hstage]; rfl)
    have hnone : u'.stage.since = none := by rw [hstage']; rfl
    have hother : ∀ {j t'}, Keeps { shared := ⟨choice.now, none, response⟩, threads := c.threads.set i u' } j t' →
        j ≠ i ∧ Keeps c j t' ∧ t' + ttl ≤ choice.now := by
      intro j t' k
      obtain ⟨-, ht⟩ | ⟨hj, k⟩ := (keeps_set hu).mp k
      · rw [hnone] at ht
        cases ht
      · have hle := h.past k
        have hle' := h.past hmine
        obtain hbefore | hafter := h.apart hj k hmine
        · exact ⟨hj, k, by omega⟩
        · omega
    refine ⟨fun k => (h.past (hother k).2.1).trans hpast, fun k ht => ?_, nofun,
      fun hij k k' => h.apart hij (hother k).2.1 (hother k').2.1, hsoundAll, hstored hresponse (by simp [hstage'])⟩
    have hle := (hother k).2.2
    simp only at ht
    omega
  · have hk := hsame (by rw [hstage, hstage']; rfl)
    have hmine : Keeps c i t := hkeeps (by rw [hstage]; rfl)
    refine h.same (hk _ _) hpast rfl hsoundAll fun hv hv' ht => ?_
    obtain ⟨-, rfl⟩ | ⟨hj, hv⟩ := (getElem?_set_cases hu).mp hv
    · rw [hstage'] at hv'
      cases hv'
      exact ⟨by rw [hprint], (h.past hmine).trans hpast⟩
    · -- an answer of another window is no longer one to be kept
      have hkeep : Keeps c _ _ := ⟨_, hv, by rw [hv']; rfl⟩
      have hle := h.past hkeep
      simp only at ht
      obtain hbefore | hafter := h.apart hj hkeep hmine
      · have hle' := h.past hmine
        omega
      · omega

end

def day : Nat := 86400

def created : Response := { status := 201, body := [0x7b, 0x7d] }

/-- What a request with this fingerprint is told once it has not got the lock. -/
def asks (ttl : Nat) (s : Shared) (print : String) (now : Nat) : Option Stage :=
  (next ttl s ⟨print, .asking⟩ ⟨now, .goesOn⟩).map (·.2.stage)

def remembering (s : Shared) (response : Response) (print : String) (expiresAt : Nat) : Shared :=
  { s with response := some ⟨freeze response print, expiresAt⟩ }

/-- A replayed answer ends with its own header. -/
theorem ne_replayed {r : Response} (h : r.headers.entries.getLast? ≠ some ("idempotent-replayed", "true"))
    (response : Response) : r ≠ replayed response := by
  rintro rfl
  have hname : lowercase (sanitise "idempotent-replayed") = "idempotent-replayed" := by decide
  have hvalue : sanitise "true" = "true" := by decide
  exact h (by simp [replayed, Response.withHeader, Headers.set, Headers.append, hname, hvalue])

/-- While or after the first one's answer is remembered, the second request does not get it exactly when it has
    another method, path or body, or the answer has expired. -/
theorem another_refused (hash : List UInt8 → UInt64) (first second : Request)
    (hcollide : hasherInput (content first) ≠ hasherInput (content second) →
      hash (hasherInput (content first)) ≠ hash (hasherInput (content second)))
    (ttl now expiresAt : Nat) (s : Shared) (response : Response) (hclock : s.clock ≤ now)
    (hstatus : response.status < 2 ^ 16) (hclean : response.headers.Clean) :
    asks ttl (remembering s response (fingerprint (hash ∘ hasherInput) first) expiresAt)
      (fingerprint (hash ∘ hasherInput) second) now ≠ some (.turned (replayed response)) ↔
      first.method ≠ second.method ∨ first.path ≠ second.path ∨ first.body ≠ second.body ∨ expiresAt ≤ now := by
  have hasks : asks ttl (remembering s response (fingerprint (hash ∘ hasherInput) first) expiresAt)
      (fingerprint (hash ∘ hasherInput) second) now = some (.turned (if now < expiresAt then
        if fingerprint (hash ∘ hasherInput) first = fingerprint (hash ∘ hasherInput) second then replayed response
        else usedForAnother else answer "" none)) := by
    simp only [asks, next, remembering, live, filter_some]
    by_cases hlive : now < expiresAt
    · simp [hclock, hlive, answer, fingerprint_freeze, thaw_freeze _ hstatus hclean]
    · simp [hclock, hlive, answer]
  rw [hasks]
  by_cases hlive : now < expiresAt
  · rw [if_pos hlive]
    by_cases hdiffer : first.method ≠ second.method ∨ first.path ≠ second.path ∨ first.body ≠ second.body
    · rw [if_neg (fingerprint_ne hdiffer hcollide)]
      refine ⟨fun _ => by tauto, fun _ h => ne_replayed ?_ response (Stage.turned.inj (some.inj h))⟩
      decide
    · -- what the fingerprint is made of is the same
      simp only [ne_eq, not_or, not_not] at hdiffer
      obtain ⟨hmethod, hpath, hbody⟩ := hdiffer
      rw [if_pos (by simp only [fingerprint, hmethod, hpath, hbody])]
      simp only [hmethod, hpath, hbody, ne_eq, not_true_eq_false, false_or, false_iff]
      omega
  · rw [if_neg hlive]
    refine ⟨fun _ => .inr (.inr (.inr (by omega))), fun _ h => ne_replayed ?_ response (Stage.turned.inj (some.inj h))⟩
    decide

def payment (target : String) (body : List UInt8) : Request := { Request.new .post target with body := body }

theorem another_refused_body : asks day (remembering {} created
      (fingerprint ((fun bytes => bytes.length.toUInt64) ∘ hasherInput) (payment "/payments" [])) day)
    (fingerprint ((fun bytes => bytes.length.toUInt64) ∘ hasherInput) (payment "/payments" [0x31])) 0 ≠
      some (.turned (replayed created)) :=
  (another_refused _ _ _ (fun _ => by decide) day 0 day {} created (by decide) (by decide) nofun).mpr
    (.inr (.inr (.inl (by decide))))

/-- The query is no part of the fingerprint: the second payment gets the answer of the first. -/
theorem query_not_compared : (payment "/payments?amount=1" []).query ≠ (payment "/payments?amount=2" []).query ∧
    ∀ hash, asks day (remembering {} created (fingerprint hash (payment "/payments?amount=1" [])) day)
      (fingerprint hash (payment "/payments?amount=2" [])) 0 = some (.turned (replayed created)) := by
  refine ⟨by decide, fun hash => ?_⟩
  have hthaw : ∀ print, thaw (freeze created print) = some created := fun print => thaw_freeze print (by decide) nofun
  show asks day (remembering {} created (fingerprint hash (payment "/payments" [])) day)
    (fingerprint hash (payment "/payments" [])) 0 = _
  simp [asks, remembering, next, live, day, answer, fingerprint_freeze, hthaw, filter_some]

end Rustlavel.Cache
