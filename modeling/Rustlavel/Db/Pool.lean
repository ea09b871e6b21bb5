/-
  The connection pool, as a program with any number of tasks. They share the semaphore, the queue of idle
  connections and the credentials; every access to one of these is a step of its own.
-/

import Rustlavel.Lib.Threads

namespace Rustlavel.Db

/-- A connection: which one it is, the pair of credentials it was opened with, and what became of it. -/
structure Conn where
  id : Nat
  credential : Nat
  broken : Bool := false
  inTransaction : Bool := false

structure Pool where
  permits : Nat
  idle : List (Nat × Conn)
  generation : Nat
  written : Nat
  finished : Nat
  opened : Nat

variable (maxConnections generation : Nat)

def Pool.new : Pool where
  permits := max maxConnections 1
  idle := []
  generation := generation
  written := generation
  finished := generation
  opened := 0

/-- Where a task stands; `g` is the generation it has read, or the one its connection was acquired under. -/
inductive Task where
  -- `acquire`
  | waiting
  | permitted
  | searching (g : Nat)
  | closing (g : Nat)
  | connecting (g : Nat)
  | opening (g credential : Nat)
  -- a connection that is lent, and its `drop`
  | lent (g : Nat) (x : Conn)
  | dropping (g : Nat) (x : Conn)
  | checked (g : Nat) (x : Conn)
  | returning (g : Nat) (x : Conn)
  | leaving
  -- `retire_superseded`, `close_idle`, `close`
  | retiring
  | sorting (g : Nat)
  | closingIdle (limit : Nat)
  | draining
  -- `Credentials::rotate`
  | rotating
  | rotated (credential : Nat)
  | done

/-- It goes on, the call is given up where it waits, or the borrower uses the connection. -/
inductive Choice where
  | go
  | stop
  | use (broken inTransaction : Bool)

namespace Task

def starts : Task → Bool
  | .waiting | .retiring | .closingIdle _ | .draining | .rotating => true
  | _ => false

def next (P : Pool) : Task → Choice → Option (Pool × Task)
  | .waiting, .go => if 0 < P.permits then some ({ P with permits := P.permits - 1 }, .permitted) else none
  | .waiting, .stop => some (P, .done)
  | .permitted, .go => some (P, .searching P.generation)
  | .searching g, .go =>
    match P.idle with
    | [] => some (P, .connecting g)
    | (openedUnder, x) :: idle =>
      -- anything opened under another credential is closed, and the search goes on
      if openedUnder = g then some ({ P with idle := idle }, .lent g x)
      else some ({ P with idle := idle }, .closing g)
  | .closing g, .go => some (P, .searching g)
  | .closing _, .stop => some (P, .leaving)
  | .connecting g, .go => some (P, .opening g P.written)
  | .opening g credential, .go =>
    some ({ P with opened := P.opened + 1 }, .lent g { id := P.opened, credential := credential })
  | .opening _ _, .stop => some (P, .leaving)
  | .lent g x, .use broken inTransaction =>
    some (P, .lent g { x with broken := broken, inTransaction := inTransaction })
  | .lent g x, .go => some (P, .dropping g x)
  | .dropping g x, .go => if x.broken || x.inTransaction then some (P, .leaving) else some (P, .checked g x)
  | .checked g x, .go => if g ≠ P.generation then some (P, .leaving) else some (P, .returning g x)
  | .returning g x, .go => some ({ P with idle := P.idle ++ [(g, x)] }, .leaving)
  | .leaving, .go => some ({ P with permits := P.permits + 1 }, .done)
  | .retiring, .go => some (P, .sorting P.generation)
  | .sorting g, .go => some ({ P with idle := P.idle.filter fun e => e.1 = g }, .done)
  | .closingIdle 0, .go => some (P, .done)
  | .closingIdle (limit + 1), .go =>
    match P.idle with
    | [] => some (P, .done)
    | _ :: idle => some ({ P with idle := idle }, .closingIdle limit)
  | .closingIdle _, .stop => some (P, .done)
  | .draining, .go => some ({ P with idle := [] }, .done)
  | .rotating, .go => some ({ P with written := P.written + 1 }, .rotated (P.written + 1))
  | .rotated credential, .go =>
    -- after the write, so that nobody reads the new generation and then the old pair
    some ({ P with generation := P.generation + 1, finished := max P.finished credential }, .done)
  | _, _ => none

/-! ## What a task holds -/

def conn : Task → Option Conn
  | .lent _ x | .dropping _ x | .checked _ x | .returning _ x => some x
  | _ => none

def lends (t : Task) : Nat := if t.conn.isSome then 1 else 0

def opens : Task → Nat
  | .connecting _ | .opening _ _ => 1
  | _ => 0

def permits : Task → Nat
  | .permitted | .searching _ | .closing _ | .connecting _ | .opening _ _ => 1
  | .lent _ _ | .dropping _ _ | .checked _ _ | .returning _ _ | .leaving => 1
  | _ => 0

def owns (n : Nat) (t : Task) : Nat := if t.conn.any (·.id = n) then 1 else 0

theorem lends_add_opens_le (t : Task) : t.lends + t.opens ≤ t.permits := by
  cases t <;> simp [lends, opens, permits, conn]

end Task

namespace Pool

def tasks : Threads Pool Task Choice where
  starts := Task.starts
  next := Task.next

abbrev Config : Type := Threads.Config Pool Task

def init : Config := { shared := .new maxConnections generation, threads := [] }

abbrev Reachable (c : Config) : Prop := tasks.Run (init maxConnections generation) c

/-! ## Steps -/

inductive Moves (P : Pool) : Task → Pool → Task → Prop where
  | permit (h : 0 < P.permits) : Moves P .waiting { P with permits := P.permits - 1 } .permitted
  | look : Moves P .permitted P (.searching P.generation)
  | nothing {g : Nat} (h : P.idle = []) : Moves P (.searching g) P (.connecting g)
  | lend {g : Nat} {x : Conn} {idle : List (Nat × Conn)} (h : P.idle = (g, x) :: idle) :
      Moves P (.searching g) { P with idle := idle } (.lent g x)
  | discard {g : Nat} {idle : List (Nat × Conn)} (h : idle.Sublist P.idle) :
      Moves P (.searching g) { P with idle := idle } (.closing g)
  | again {g : Nat} : Moves P (.closing g) P (.searching g)
  | credentials {g : Nat} : Moves P (.connecting g) P (.opening g P.written)
  | connect {g credential : Nat} : Moves P (.opening g credential) { P with opened := P.opened + 1 }
      (.lent g { id := P.opened, credential := credential })
  | use {g : Nat} {x : Conn} (broken inTransaction : Bool) :
      Moves P (.lent g x) P (.lent g { x with broken := broken, inTransaction := inTransaction })
  | drop {g : Nat} {x : Conn} : Moves P (.lent g x) P (.dropping g x)
  | fit {g : Nat} {x : Conn} (hb : x.broken = false) (ht : x.inTransaction = false) :
      Moves P (.dropping g x) P (.checked g x)
  | current {x : Conn} : Moves P (.checked P.generation x) P (.returning P.generation x)
  | push {g : Nat} {x : Conn} : Moves P (.returning g x) { P with idle := P.idle ++ [(g, x)] } .leaving
  | leave {t : Task} (h : t.permits = 1) : Moves P t P .leaving
  | release : Moves P .leaving { P with permits := P.permits + 1 } .done
  | retire : Moves P .retiring P (.sorting P.generation)
  | close {t t' : Task} {idle : List (Nat × Conn)} (h : idle.Sublist P.idle) (ht : t.permits = 0)
      (ht' : t' = .done ∨ ∃ limit, t' = .closingIdle limit) : Moves P t { P with idle := idle } t'
  | write : Moves P .rotating { P with written := P.written + 1 } (.rotated (P.written + 1))
  | bump {credential : Nat} : Moves P (.rotated credential)
      { P with generation := P.generation + 1, finished := max P.finished credential } .done

theorem moves_of_next {P P' : Pool} {t t' : Task} {choice : Choice} (h : t.next P choice = some (P', t')) :
    Moves P t P' t' := by
  unfold Task.next at h
  -- one case a line of the definition
  split at h
  case h_1 =>
      split at h
      · cases h
        exact .permit (by assumption)
      · cases h
  case h_3 => cases h; exact .look
  case h_4 =>
      split at h
      · cases h
        exact .nothing (by assumption)
      · rename_i hidle
        split at h
        · rename_i heq
          cases h
          subst heq
          exact .lend hidle
        · cases h
          exact .discard (hidle ▸ List.sublist_cons_self _ _)
  case h_5 => cases h; exact .again
  case h_7 => cases h; exact .credentials
  case h_8 => cases h; exact .connect
  case h_10 => cases h; exact .use _ _
  case h_11 => cases h; exact .drop
  case h_12 =>
      split at h
      · cases h
        exact .leave rfl
      · rename_i hfit
        cases h
        obtain ⟨hb, ht⟩ := not_or.mp fun hor => hfit (Bool.or_eq_true_iff.mpr hor)
        exact .fit (Bool.eq_false_of_not_eq_true hb) (Bool.eq_false_of_not_eq_true ht)
  case h_13 =>
      split at h
      · cases h
        exact .leave rfl
      · rename_i hcurrent
        cases h
        rw [not_not.mp hcurrent]
        exact .current
  case h_14 => cases h; exact .push
  case h_15 => cases h; exact .release
  case h_16 => cases h; exact .retire
  case h_17 => cases h; exact .close List.filter_sublist rfl (.inl rfl)
  case h_19 =>
      split at h
      · cases h
        exact .close (.refl _) rfl (.inl rfl)
      · rename_i hidle
        cases h
        exact .close (hidle ▸ List.sublist_cons_self _ _) rfl (.inr ⟨_, rfl⟩)
  case h_21 => cases h; exact .close (List.nil_sublist _) rfl (.inl rfl)
  case h_22 => cases h; exact .write
  case h_23 => cases h; exact .bump
  case h_24 => cases h
  -- the calls that are given up or have nothing left to do
  case h_6 | h_9 => cases h; exact .leave rfl
  case h_2 | h_18 | h_20 => cases h; exact .close (.refl _) rfl (.inl rfl)

end Pool

end Rustlavel.Db
