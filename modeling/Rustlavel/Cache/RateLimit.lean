/-
  The rate limiter, `rustlavel-cache/src/rate_limit.rs`, over a store that counts in one step. Times are in
  milliseconds; an overflow is a panic, `none`.
-/

import Rustlavel.Cache.Executions

namespace Rustlavel.Cache

open Function Option Nat

abbrev Counters := String → Option (Entry Nat)

structure RateLimit where
  limit : Nat
  used : Nat
  remaining : Nat
  resetAfter : Nat
  exceeded : Bool

def RateLimit.retryAfterSeconds (r : RateLimit) : Nat := max (r.resetAfter / 1000) 1

def counterName (key : String) (slot : Nat) : String := "rustlavel:throttle:" ++ key ++ ":" ++ toString slot

def windowMillis (window : Nat) : Nat := max window 1 % 2 ^ 64

def attempt (key : String) (limit window : Nat) (store : Counters) (now : Nat) : Option (Counters × RateLimit) :=
  let millis := windowMillis window
  let slot := now / millis
  if millis = 0 ∨ 2 ^ 64 ≤ millis + 1000 ∨ 2 ^ 64 ≤ (slot + 1) * millis then none
  else
    let counter := counterName key slot
    let (used, entry) := incrementWithin (millis + 1000) now (store counter)
    some (update store counter entry, { limit, used, remaining := limit - used,
                                        resetAfter := (slot + 1) * millis - now, exceeded := limit < used })

/-- Attempts one after the other, each with the time it is made at. -/
def attempts (key : String) (limit window : Nat) : Counters → List Nat → Option (Counters × List (Nat × RateLimit))
  | store, [] => some (store, [])
  | store, now :: times => do
    let (store, r) ← attempt key limit window store now
    let (store, rs) ← attempts key limit window store times
    pure (store, (now, r) :: rs)

def allowedIn (window slot : Nat) (rs : List (Nat × RateLimit)) : Nat :=
  rs.countP fun x => x.1 / windowMillis window = slot && !x.2.exceeded

/-! ## Counters -/

/-- The counter of a window says `n`, and is not forgotten before the window ends. -/
def Counts (key : String) (window slot n : Nat) (store : Counters) : Prop :=
  match store (counterName key slot) with
  | none => n = 0
  | some entry => entry.value = n ∧ (slot + 1) * windowMillis window ≤ entry.expiresAt

section

variable {key : String} {limit window now slot : Nat} {store store' : Counters} {times : List Nat} {r : RateLimit}
  {rs : List (Nat × RateLimit)}

/-- What an attempt does to the counters of the key. -/
theorem attempt_spec (h : attempt key limit window store now = some (store', r)) :
    0 < windowMillis window ∧ windowMillis window + 1000 < 2 ^ 64 ∧
      r.resetAfter = (now / windowMillis window + 1) * windowMillis window - now ∧
      (∀ slot ≠ now / windowMillis window, store' (counterName key slot) = store (counterName key slot)) ∧
      ∀ n, Counts key window (now / windowMillis window) n store →
        Counts key window (now / windowMillis window) (n + 1) store' ∧ r.exceeded = decide (limit < n + 1) := by
  simp only [attempt, ite_none_left_eq_some, some.injEq, Prod.mk.injEq] at h
  obtain ⟨hok, rfl, rfl⟩ := h
  have hend := lt_div_mul_add (a := now) (b := windowMillis window) (by omega)
  have hstart := div_mul_le_self now (windowMillis window)
  refine ⟨by omega, by omega, rfl, fun slot hslot => ?_, fun n hn => ?_⟩
  · exact update_of_ne (fun heq => hslot (Double.repr_inj ((String.append_right_inj _).mp heq))) ..
  · unfold Counts at hn ⊢
    rw [update_self]
    rw [add_mul, one_mul] at *
    split at hn
    · rename_i hnone
      subst hn
      rw [hnone]
      exact ⟨⟨rfl, show _ ≤ now + _ by omega⟩, rfl⟩
    · rename_i entry hsome
      obtain ⟨rfl, hlasts⟩ := hn
      have hlive : live now (some entry) = some entry := live_eq_some.mpr ⟨rfl, by omega⟩
      rw [hsome, incrementWithin, hlive]
      exact ⟨⟨rfl, hlasts⟩, rfl⟩

theorem attempts_spec (h : attempts key limit window store times = some (store', rs)) (slot : Nat) :
    (∀ n, Counts key window slot n store → allowedIn window slot rs ≤ limit - n) ∧
      ((∀ t ∈ times, slot ≠ t / windowMillis window) →
        store' (counterName key slot) = store (counterName key slot)) := by
  induction times generalizing store rs with
  | nil =>
    cases h
    exact ⟨fun _ _ => zero_le _, fun _ => rfl⟩
  | cons now times ih =>
    obtain ⟨⟨store1, r⟩, hattempt, h⟩ := bind_eq_some_iff.mp h
    obtain ⟨⟨store2, rs⟩, htimes, h⟩ := bind_eq_some_iff.mp h
    cases h
    obtain ⟨-, -, -, hother, hsame⟩ := attempt_spec hattempt
    obtain ⟨hallowed, hkept⟩ := ih htimes
    refine ⟨fun n hn => ?_, fun hslot => ?_⟩
    · by_cases hslot : slot = now / windowMillis window
      · subst hslot
        obtain ⟨hn', hexceeded⟩ := hsame n hn
        have hrest := hallowed _ hn'
        rw [allowedIn] at hrest ⊢
        rw [List.countP_cons, hexceeded]
        by_cases hlimit : limit < n + 1 <;> simp [hlimit] <;> omega
      · have hrest := hallowed n (by rwa [Counts, hother slot hslot])
        rw [allowedIn] at hrest ⊢
        rwa [List.countP_cons_of_neg (by simp [Ne.symm hslot])]
    · obtain ⟨hnow, hslot⟩ := List.forall_mem_cons.mp hslot
      rw [hkept hslot, hother slot hnow]

/-! ## The limit -/

/-- A window allows no more than its limit, and who is refused and waits as long as was reported is let in, if what
    is left of the window is a whole number of seconds, or less than one. -/
theorem attempts_limited (h : attempts key limit window (fun _ => none) times = some (store, rs)) :
    (∀ slot, allowedIn window slot rs ≤ limit) ∧
      ∀ now later r, (∀ t ∈ times, t ≤ now) → attempt key limit window store now = some (store', r) →
        r.exceeded = true → 0 < limit → r.resetAfter < 1000 ∨ 1000 ∣ r.resetAfter →
        now + 1000 * r.retryAfterSeconds ≤ later → later + windowMillis window < 2 ^ 64 →
        ∃ s r', attempt key limit window store' later = some (s, r') ∧ r'.exceeded = false := by
  refine ⟨fun slot => (attempts_spec h slot).1 0 rfl, ?_⟩
  intro now later r hpast hattempt _ hlimit hleft hwait hfits
  obtain ⟨hpos, hsmall, hreset, hother, -⟩ := attempt_spec hattempt
  -- the next window has begun, so nobody was counted in it
  have hslot : now / windowMillis window < later / windowMillis window := by
    refine (le_div_iff_mul_le hpos).mpr ?_
    rw [RateLimit.retryAfterSeconds] at hwait
    rw [succ_eq_add_one]
    omega
  have hnone : store' (counterName key (later / windowMillis window)) = none := by
    rw [hother _ (ne_of_gt hslot)]
    exact (attempts_spec h _).2 fun t ht => ne_of_gt (lt_of_le_of_lt (Nat.div_le_div_right (hpast t ht)) hslot)
  have hstart := div_mul_le_self later (windowMillis window)
  refine ⟨_, _, if_neg ?_, ?_⟩
  · rw [add_mul]
    omega
  · rw [hnone]
    exact decide_eq_false (not_lt.mpr hlimit)

end

theorem attempts_limited_of_second : ∃ store rs store' r s r',
    attempts "ada" 1 1000 (fun _ => none) [0] = some (store, rs) ∧ allowedIn 1000 0 rs ≤ 1 ∧
      attempt "ada" 1 1000 store 500 = some (store', r) ∧ r.exceeded = true ∧ r.retryAfterSeconds = 1 ∧
      attempt "ada" 1 1000 store' 1500 = some (s, r') ∧ r'.exceeded = false := by
  obtain ⟨hallowed, hwait⟩ := attempts_limited (show attempts "ada" 1 1000 (fun _ => none) [0] = _ from rfl)
  obtain ⟨s, r', hlater, hlet⟩ := hwait 500 1500 _ (by decide) rfl rfl (by decide) (.inl (by decide)) (by decide)
    (by decide)
  exact ⟨_, _, _, _, s, r', rfl, hallowed 0, rfl, rfl, rfl, hlater, hlet⟩

/-- Of a window of 1.5 s two attempts at its start leave 1.5 s, reported as one. -/
theorem refused_again : ∃ store rs store' r s r', attempts "ada" 1 1500 (fun _ => none) [0] = some (store, rs) ∧
      attempt "ada" 1 1500 store 0 = some (store', r) ∧ r.exceeded = true ∧ r.retryAfterSeconds = 1 ∧
      attempt "ada" 1 1500 store' 1000 = some (s, r') ∧ r'.exceeded = true :=
  ⟨_, _, _, _, _, _, rfl, rfl, rfl, rfl, rfl, rfl⟩

end Rustlavel.Cache
