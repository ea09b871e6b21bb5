/-
  Decoders that are run on a buffer while it fills.
-/

import Rustlavel.Lib.Reading

namespace Incremental

open Outcome Reading

variable {σ ε α β : Type}

def Decoder (σ ε α : Type) : Type := List σ → Nat → Result ε (Option (α × Nat))

namespace Decoder

def andThen (d : Decoder σ ε α) (f : α → Decoder σ ε β) : Decoder σ ε β := fun bs i =>
  match d bs i with
  | .ok (some (a, j)) => f a bs j
  | .ok none => .ok none
  | .error e => .error e

instance : Monad (Decoder σ ε) where
  pure a := fun _ i => .ok (some (a, i))
  bind := andThen

def take (n : Nat) : Decoder σ ε (List σ) := fun bs i =>
  if bs.length < i + n then .ok none else .ok (some ((bs.drop i).take n, i + n))

def check (r : Except ε α) : Decoder σ ε α := fun _ i =>
  match r with
  | .ok a => .ok (some (a, i))
  | .error e => fail e

def reject (c : Prop) [Decidable c] (e : ε) : Decoder σ ε Unit := fun _ i =>
  if c then fail e else .ok (some ((), i))

def before [DecidableEq σ] (pat : List σ) : Decoder σ ε (List σ) := fun bs i =>
  match position pat (bs.drop i) with
  | some k => .ok (some ((bs.drop i).take k, i + k + pat.length))
  | none => .ok none

def times : Nat → Decoder σ ε α → Decoder σ ε (List α)
  | 0, _ => pure []
  | n + 1, d => do
    let a ← d
    let as ← times n d
    pure (a :: as)

end Decoder

open Decoder

variable {a : α} {bs x pat front xs ys : List σ} {i j n : Nat} {d : Decoder σ ε α} {f : α → Decoder σ ε β}
  {b : β} {r : Except ε α} {c : Prop} {e : ε}

theorem pure_eq_some {b : α} : (pure a : Decoder σ ε α) bs i = .ok (some (b, j)) ↔ a = b ∧ i = j := by
  change Except.ok (some (a, i)) = _ ↔ _
  simp

theorem bind_eq_some {k : Nat} : (d >>= f) bs i = .ok (some (b, k)) ↔
      ∃ a j, d bs i = .ok (some (a, j)) ∧ f a bs j = .ok (some (b, k)) := by
  change andThen d f bs i = _ ↔ _
  unfold andThen
  cases d bs i with
  | error => simp
  | ok r =>
    cases r with
    | none => simp
    | some p =>
      obtain ⟨_, _⟩ := p
      simp

theorem take_eq_some : (take n : Decoder σ ε (List σ)) bs i = .ok (some (x, j)) ↔
      i + n ≤ bs.length ∧ x = (bs.drop i).take n ∧ j = i + n := by
  rw [take]
  split
  · rename_i hshort
    simp
    omega
  · rename_i hlong
    simp only [Except.ok.injEq, Option.some.injEq, Prod.mk.injEq]
    constructor
    · rintro ⟨hx, hj⟩
      exact ⟨by omega, hx.symm, hj.symm⟩
    · rintro ⟨-, hx, hj⟩
      exact ⟨hx.symm, hj.symm⟩

theorem length_of_take (h : (take n : Decoder σ ε (List σ)) bs i = .ok (some (x, j))) : x.length = n := by
  obtain ⟨hlong, rfl, -⟩ := take_eq_some.mp h
  rw [List.length_take, List.length_drop]
  omega

theorem check_eq_some : (check r : Decoder σ ε α) bs i = .ok (some (a, j)) ↔ r = .ok a ∧ j = i := by
  cases r with
  | ok => simp [check, eq_comm]
  | error => simp [check, fail]

theorem reject_eq_some [Decidable c] {u : Unit} :
    (reject c e : Decoder σ ε Unit) bs i = .ok (some (u, j)) ↔ ¬ c ∧ j = i := by
  by_cases hc : c
  · simp [reject, hc, fail]
  · simp [reject, hc, eq_comm]

theorem reject_bind_eq_some [Decidable c] {g : Unit → Decoder σ ε β} :
    (reject c e >>= g) bs i = .ok (some (b, j)) ↔ ¬ c ∧ g () bs i = .ok (some (b, j)) := by
  simp only [bind_eq_some, reject_eq_some]
  constructor
  · rintro ⟨⟨⟩, _, ⟨hc, rfl⟩, h⟩
    exact ⟨hc, h⟩
  · exact fun ⟨hc, h⟩ => ⟨(), i, ⟨hc, rfl⟩, h⟩

theorem before_eq_some [DecidableEq σ] : (before pat : Decoder σ ε (List σ)) bs i = .ok (some (x, j)) ↔
      ∃ k, position pat (bs.drop i) = some k ∧ x = (bs.drop i).take k ∧ j = i + k + pat.length := by
  rw [before]
  cases position pat (bs.drop i) with
  | none => simp
  | some => simp [eq_comm]

/-! ## Answers that stay -/

structure Stable (d : Decoder σ ε α) : Prop where
  bounds : ∀ {bs i a j}, i ≤ bs.length → d bs i = .ok (some (a, j)) → i ≤ j ∧ j ≤ bs.length
  settled : ∀ {bs i}, i ≤ bs.length → d bs i ≠ .ok none → ∀ more, d (bs ++ more) i = d bs i

theorem stable_pure (a : α) : Stable (pure a : Decoder σ ε α) where
  bounds := by
    intro bs i a j hi h
    cases h
    exact ⟨Nat.le_refl _, hi⟩
  settled := fun _ _ _ => rfl

theorem stable_bind (hd : Stable d) (hf : ∀ a, Stable (f a)) : Stable (d >>= f) where
  bounds := by
    intro bs i b k hi h
    obtain ⟨a, j, ha, hb⟩ := bind_eq_some.mp h
    have hj := hd.bounds hi ha
    have hk := (hf a).bounds hj.2 hb
    omega
  settled := by
    intro bs i hi h more
    change andThen d f (bs ++ more) i = andThen d f bs i
    change andThen d f bs i ≠ _ at h
    unfold andThen at h ⊢
    have hstay := hd.settled hi
    cases hdecode : d bs i with
    | error =>
      rw [hdecode] at hstay
      rw [hstay (by simp) more]
    | ok r =>
      cases r with
      | none =>
        rw [hdecode] at h
        exact absurd rfl h
      | some p =>
        obtain ⟨a, _⟩ := p
        rw [hdecode] at h hstay
        rw [hstay (by simp) more]
        exact (hf a).settled (hd.bounds hi hdecode).2 h more

theorem stable_take (n : Nat) : Stable (take n : Decoder σ ε (List σ)) where
  bounds := by
    intro bs i x j _ h
    obtain ⟨hlong, -, rfl⟩ := take_eq_some.mp h
    omega
  settled := by
    intro bs i hi h more
    rw [take] at h
    split at h
    · exact absurd rfl h
    · rename_i hlong
      rw [take, take, if_neg hlong, if_neg (by rw [List.length_append]; omega),
        List.drop_append_of_le_length hi, List.take_append_of_le_length (by rw [List.length_drop]; omega)]

theorem stable_check (r : Except ε α) : Stable (check r : Decoder σ ε α) where
  bounds := by
    intro bs i a j hi h
    obtain ⟨-, rfl⟩ := check_eq_some.mp h
    exact ⟨Nat.le_refl _, hi⟩
  settled := fun _ _ _ => rfl

theorem stable_reject (c : Prop) [Decidable c] (e : ε) : Stable (reject c e : Decoder σ ε Unit) where
  bounds := by
    intro bs i a j hi h
    obtain ⟨-, rfl⟩ := reject_eq_some.mp h
    exact ⟨Nat.le_refl _, hi⟩
  settled := fun _ _ _ => rfl

theorem stable_before [DecidableEq σ] (hpat : pat ≠ []) : Stable (before pat : Decoder σ ε (List σ)) where
  bounds := by
    intro bs i x j hi h
    obtain ⟨_, hk, -, rfl⟩ := before_eq_some.mp h
    have hle := add_length_le_of_position hk hpat
    rw [List.length_drop] at hle
    omega
  settled := by
    intro bs i hi h more
    cases hk : position pat (bs.drop i) with
    | none =>
      rw [before, hk] at h
      exact absurd rfl h
    | some =>
      have hle := add_length_le_of_position hk hpat
      rw [before, before, List.drop_append_of_le_length hi, position_append hk, hk]
      simp only
      rw [List.take_append_of_le_length (by omega)]

theorem stable_times (hd : Stable d) (n : Nat) : Stable (times n d) := by
  induction n with
  | zero => exact stable_pure []
  | succ n ih => exact stable_bind hd fun _ => stable_bind ih fun _ => stable_pure _

theorem Stable.undecided (hd : Stable d)
    (h : d bs 0 = .ok (some (a, n))) (hfront : front <+: bs) (hshort : front.length < n) : d front 0 = .ok none := by
  by_contra hne
  obtain ⟨more, rfl⟩ := hfront
  have hstay := hd.settled (Nat.zero_le _) hne more
  rw [h] at hstay
  have hbounds := hd.bounds (Nat.zero_le _) hstay.symm
  omega

/-! ## Reading what was written -/

def Reads (d : Decoder σ ε α) (xs : List σ) (a : α) : Prop :=
  ∀ front rest, d (front ++ (xs ++ rest)) front.length = .ok (some (a, front.length + xs.length))

theorem Reads.bind (hd : Reads d xs a) (hf : Reads (f a) ys b) : Reads (d >>= f) (xs ++ ys) b := by
  intro front rest
  have hfirst := hd front (ys ++ rest)
  have hsecond := hf (front ++ xs) rest
  rw [List.append_assoc, List.length_append] at hsecond
  refine bind_eq_some.mpr ⟨a, front.length + xs.length, ?_, ?_⟩
  · rw [List.append_assoc]
    exact hfirst
  · rw [List.append_assoc, hsecond, List.length_append, Nat.add_assoc]

theorem reads_pure (a : α) : Reads (pure a : Decoder σ ε α) [] a := fun _ _ => rfl

theorem reads_take (xs : List σ) : Reads (take xs.length : Decoder σ ε (List σ)) xs xs := by
  intro front rest
  refine take_eq_some.mpr ⟨?_, ?_, rfl⟩
  · rw [List.length_append, List.length_append]
    omega
  · rw [List.drop_left, List.take_left]

theorem Reads.check_bind (hr : r = .ok a) (hf : Reads (f a) xs b) : Reads (check r >>= f) xs b := by
  intro front rest
  exact bind_eq_some.mpr ⟨a, _, check_eq_some.mpr ⟨hr, rfl⟩, hf front rest⟩

theorem Reads.reject_bind [Decidable c] {f : Unit → Decoder σ ε β}
    (hc : ¬ c) (hf : Reads (f ()) xs b) : Reads (reject c e >>= f) xs b := by
  intro front rest
  exact bind_eq_some.mpr ⟨(), _, reject_eq_some.mpr ⟨hc, rfl⟩, hf front rest⟩

theorem reads_before [DecidableEq σ] (h : position pat (xs ++ pat) = some xs.length) :
    Reads (before pat : Decoder σ ε (List σ)) (xs ++ pat) xs := by
  intro front rest
  refine before_eq_some.mpr ⟨xs.length, ?_, ?_, ?_⟩
  · rw [List.drop_left]
    exact position_append h rest
  · rw [List.drop_left, List.append_assoc, List.take_left]
  · rw [List.length_append, Nat.add_assoc]

theorem reads_times {write : α → List σ} {as : List α} (h : ∀ a ∈ as, Reads d (write a) a) :
    Reads (times as.length d) (as.flatMap write) as := by
  induction as with
  | nil => exact reads_pure []
  | cons a as ih =>
    have hrest := ih fun b hb => h b (List.mem_cons_of_mem a hb)
    have htail : Reads (times as.length d >>= fun bs => pure (a :: bs)) (as.flatMap write) (a :: as) := by
      have hread := Reads.bind (f := fun bs => pure (a :: bs)) hrest (reads_pure (a :: as))
      rwa [List.append_nil] at hread
    exact (h a List.mem_cons_self).bind htail

theorem Reads.decode (h : Reads d xs a) (rest : List σ) : d (xs ++ rest) 0 = .ok (some (a, xs.length)) := by
  have hread := h [] rest
  rwa [List.nil_append, List.length_nil, Nat.zero_add] at hread

theorem Reads.undecided (hd : Stable d) (h : Reads d xs a)
    (hfront : front <+: xs) (hne : front ≠ xs) : d front 0 = .ok none := by
  have hdecode := h.decode []
  rw [List.append_nil] at hdecode
  refine hd.undecided hdecode hfront ?_
  rcases Nat.lt_or_ge front.length xs.length with hlt | hge
  · exact hlt
  · exact absurd (hfront.eq_of_length_le hge) hne

/-! ## Refusing what was written -/

def Refuses (d : Decoder σ ε α) (xs : List σ) (e : ε) : Prop :=
  ∀ front rest, d (front ++ (xs ++ rest)) front.length = fail e

theorem Refuses.bind (h : Refuses d xs e) (f : α → Decoder σ ε β) : Refuses (d >>= f) xs e := by
  intro front rest
  change andThen d f _ _ = _
  rw [andThen, h front rest]
  rfl

theorem Reads.bind_refuses (hd : Reads d xs a) (hf : Refuses (f a) ys e) : Refuses (d >>= f) (xs ++ ys) e := by
  intro front rest
  have hsecond := hf (front ++ xs) rest
  rw [List.append_assoc, List.length_append] at hsecond
  change andThen d f _ _ = _
  rw [andThen, List.append_assoc, hd front (ys ++ rest)]
  exact hsecond

theorem Refuses.check_bind (hr : r = .ok a) (hf : Refuses (f a) xs e) : Refuses (check r >>= f) xs e := by
  subst hr
  exact hf

theorem refuses_reject [Decidable c] (hc : c) (e : ε) (xs : List σ) :
    Refuses (reject c e : Decoder σ ε Unit) xs e := fun _ _ => if_pos hc

theorem Refuses.decode (h : Refuses d xs e) : d xs 0 = fail e := by
  have hrefuse := h [] []
  rwa [List.nil_append, List.append_nil] at hrefuse

/-! ## Writing what was read -/

def Writes (d : Decoder σ ε α) (write : α → List σ) : Prop :=
  ∀ {bs i a j}, d bs i = .ok (some (a, j)) → bs.drop i = write a ++ bs.drop j ∧ j = i + (write a).length

theorem writes_take (n : Nat) : Writes (take n : Decoder σ ε (List σ)) id := by
  intro bs i x j h
  obtain ⟨_, rfl, rfl⟩ := take_eq_some.mp h
  have hsplit := (List.take_append_drop n (bs.drop i)).symm
  rw [List.drop_drop] at hsplit
  refine ⟨hsplit, ?_⟩
  rw [id, List.length_take, List.length_drop]
  omega

end Incremental
