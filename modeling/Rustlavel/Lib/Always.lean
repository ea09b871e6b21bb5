/-
  What a call does next. `Prog.Always R` says of every step of a call, whatever database it finds, that `R`
  relates the point it stands at, what it does to the database and what is left of the call.
-/

import Rustlavel.Lib.Component

namespace Transact

open List

variable {Req L L1 D D1 W W1 α β ρ ρ' ε : Type}

def Prog.next : Prog L D W ρ → Option L
  | .ret _ => none
  | .step l _ _ => some l

section

variable [Store D W] {R : L → D → D → Prog L D W ρ → Prop}

def Prog.Always (R : L → D → D → Prog L D W ρ → Prop) : Prog L D W ρ → Prop
  | .ret _ => True
  | .step l body k => ∀ n d b n' d', settle d (body.run n d) = (b, n', d') → R l d d' (k b) ∧ (k b).Always R

namespace Prog.Always

theorem of_forall (h : ∀ l d d' q, R l d d' q) (p : Prog L D W ρ) : p.Always R := by
  induction p with
  | ret => trivial
  | step l body k ih => exact fun _ _ b _ _ _ => ⟨h _ _ _ _, ih b⟩

variable {p : Prog L D W ρ}

theorem mono {R R' : L → D → D → Prog L D W ρ → Prop} (h : p.Always R)
    (hR : ∀ l d d' q, R l d d' q → R' l d d' q) : p.Always R' := by
  induction p with
  | ret => trivial
  | step l body k ih =>
    intro n d b n' d' hrun
    obtain ⟨hr, hk⟩ := h n d b n' d' hrun
    exact ⟨hR _ _ _ _ hr, ih b hk⟩

theorem bind {S : L → D → D → Prog L D W ρ → Prop} {R : L → D → D → Prog L D W ρ' → Prop}
    {f : ρ → Prog L D W ρ'} (hp : p.Always S) (hf : ∀ r, (f r).Always R)
    (hR : ∀ l d d' q, S l d d' q → R l d d' (q >>= f)) : (p >>= f).Always R := by
  induction p with
  | ret r => exact hf r
  | step l body k ih =>
    intro n d b n' d' hrun
    obtain ⟨hr, hk⟩ := hp n d b n' d' hrun
    exact ⟨hR _ _ _ _ hr, ih b hk⟩

/-! ### Calls that may fail -/

variable {R : L → D → D → Prog L D W (Except ε β) → Prop}

theorem pure {b : β} : (pure b : ExceptT ε (Prog L D W) β).run.Always R := trivial

theorem throw {e : ε} : (throw e : ExceptT ε (Prog L D W) β).run.Always R := trivial

theorem except_bind {S : L → D → D → Prog L D W (Except ε α) → Prop} {x : ExceptT ε (Prog L D W) α}
    {f : α → ExceptT ε (Prog L D W) β} (hx : x.run.Always S) (hf : ∀ a, (f a).run.Always R)
    (hR : ∀ l d d' q, S l d d' q → R l d d' (q >>= ExceptT.bindCont f)) : (x >>= f).run.Always R := by
  refine bind hx (fun r => ?_) hR
  cases r with
  | ok a => exact hf a
  | error => exact throw

theorem transaction {l : L} {body : ExceptT ε (Tx D W) (Verdict β)}
    (h : ∀ n d, Tx.Ends body n d fun v _ d' => match v with
      | .commit b => R l d d' (.ret (.ok b))
      | .rollback b => R l d d (.ret (.ok b)))
    (herror : ∀ n d e, (Tx.run body.run n d).1 = .error e → R l d d (.ret (.error e))) :
    (Prog.transaction l body).run.Always R := by
  intro n d b n' d' hsettle
  have hrun : (body.run.bind fun r => .ret (Prog.verdict r)).run n d =
      (Prog.verdict (Tx.run body.run n d).1, (Tx.run body.run n d).2) := Tx.run_bind ..
  have hends := h n d
  have hfail := herror n d
  unfold Tx.Ends at hends
  rw [hrun] at hsettle
  generalize Tx.run body.run n d = out at hends hfail hsettle
  rcases out with ⟨e | ⟨a⟩ | ⟨a⟩, m, d1⟩
  · cases hsettle
    exact ⟨hfail e rfl, trivial⟩
  · cases hsettle
    exact ⟨hends _ _ _ rfl, trivial⟩
  · cases hsettle
    exact ⟨hends _ _ _ rfl, trivial⟩

theorem statement {l : L} {body : ExceptT ε (Tx D W) β}
    (h : ∀ n d, Tx.Ends body n d fun b _ d' => R l d d' (.ret (.ok b)))
    (herror : ∀ d e, R l d d (.ret (.error e))) : (Prog.statement l body).run.Always R :=
  transaction (fun n d => .bind ((h n d).mono fun _ _ _ hr => .pure hr)) fun _ d e _ => herror d e

end Prog.Always

theorem Prog.Always.lift [Store D1 W1] {P : Component D W D1 W1} {label : L1 → L}
    {S : L1 → D1 → D1 → Prog L1 D1 W1 ρ → Prop}
    (hR : ∀ l d d1 q, S l (P.get d) d1 q → R (label l) d (P.set d1 d) (q.lift P label))
    {p : Prog L1 D1 W1 ρ} (h : p.Always S) : (p.lift P label).Always R := by
  induction p with
  | ret => trivial
  | step l body k ih =>
    intro n d b n' d' hsettle
    rw [settle_lift] at hsettle
    have hstep := h n (P.get d)
    generalize settle (P.get d) (body.run n (P.get d)) = out at hsettle hstep
    obtain ⟨b', m, d1⟩ := out
    cases hsettle
    obtain ⟨hr, hk⟩ := hstep b' m d1 rfl
    exact ⟨hR _ _ _ _ hr, ih b' hk⟩

/-! ## In a system -/

variable {sys : System Req L D W ρ} {R : Req → L → D → D → Prog L D W ρ → Prop}

theorem System.Advance.always {c c' : Config Req L D W ρ} {i : Nat} {req : Req} {l : L}
    (h : sys.Advance i req l c c') (hcalls : ∀ x ∈ c.calls, x.2.Always (R x.1)) :
    (∃ p, c.calls[i]? = some (req, p) ∧ p.next = some l) ∧
    ∃ q, c'.calls[i]? = some (req, q) ∧ R req l c.db c'.db q ∧ q.Always (R req) := by
  cases h with
  | @mk _ body k hcall _ b n d hrun =>
    refine ⟨⟨_, hcall, rfl⟩, k b, getElem?_set_self (List.getElem?_eq_some_iff.mp hcall).1, ?_⟩
    exact hcalls _ (mem_of_getElem? hcall) _ _ _ _ _ hrun

theorem System.always_of_reachable (hsys : ∀ req, (sys.program req).Always (R req)) {d0 : D}
    {c : Config Req L D W ρ} (hc : sys.Reachable d0 c) : ∀ x ∈ c.calls, x.2.Always (R x.1) := by
  induction hc with
  | refl => exact nofun
  | @tail c c' _ hstep ih =>
    cases hstep with
    | call req =>
      intro x hx
      rcases mem_append.mp hx with hx | hx
      · exact ih x hx
      · rw [mem_singleton.mp hx]
        exact hsys req
    | @advance _ i req l h =>
      obtain ⟨-, _, hq, -, halways⟩ := h.always ih
      intro x hx
      obtain ⟨j, hj⟩ := mem_iff_getElem?.mp hx
      by_cases hij : i = j
      · subst hij
        rw [hq] at hj
        cases hj
        exact halways
      · rw [h.getElem?_of_ne hij] at hj
        exact ih x (mem_of_getElem? hj)

end

end Transact
