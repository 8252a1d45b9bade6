import PlaceSearch.Duration

/-!
# Processes that take turns

A program that waits in between lets others go on meanwhile.  Such a process is written as the tree
of all it may do: an act changes the state at once and goes on by what it finds, and a pause takes
time and leaves the state alone.  Between two acts of a process the state may have been changed by
others, so an act makes no use of anything but the state that it finds.

Run by itself, a process is a program over the state.  Processes that are run together take turns:
each turn is one act or pause of one of them, and whose turn it is is left to a schedule.  What
they do together is a tree as well, with a branch for everyone who may go on, and a schedule makes
it a single process.
-/

namespace PlaceSearch

/-- A process over states `S` that returns an `α`: it is done, or it acts, or it pauses. -/
inductive Process (S α : Type) where
  | done (a : α)
  | act (after : S → S) (next : S → Process S α)
  | pause (d : Duration) (next : Process S α)

namespace Process

variable {S T α β : Type}

/-- The second process goes on where the first one is done. -/
def bind : Process S α → (α → Process S β) → Process S β
  | done a, f => f a
  | act after next, f => act after fun s => (next s).bind f
  | pause d next, f => pause d (next.bind f)

instance : Monad (Process S) where
  pure := done
  bind := bind

/-- A program over the state, as a single act. -/
def lift (m : StateM S α) : Process S α :=
  act (fun s => (m.run s).2) fun s => done (m.run s).1

instance : MonadLift (StateM S) (Process S) where
  monadLift := lift

/-- A process that nothing comes between, from a state on. -/
def run : Process S α → S → α × S
  | done a, s => (a, s)
  | act after next, s => (next s).run (after s)
  | pause _ next, s => next.run s

instance : MonadLift (Process S) (StateM S) where
  monadLift p := p.run

def sleep (d : Duration) : Process S Unit :=
  pause d (done ())

/-- A process over a part of the state. -/
def within (part : T → S) (put : T → S → T) : Process S α → Process T α
  | done a => done a
  | act after next => act (fun t => put t (after (part t))) fun t => (next (part t)).within part put
  | pause d next => pause d (next.within part put)

end Process

/-- What some processes may do together, and what they return: nothing is left to do, or it is
known when each of those that are not done is due, and any of them may go on. -/
inductive Turns (S α : Type) where
  | ended (a : α)
  | turn (due : List Duration) (after : Nat → S → S) (next : Nat → S → Turns S α)

namespace Turns

variable {S α β : Type}

def map (f : α → β) : Turns S α → Turns S β
  | ended a => ended (f a)
  | turn due after next => turn due after fun i s => (next i s).map f

/-- One more process beside the others, that has an act or a pause before it: it goes on at turn
zero, and the others at the turns after it.  With no others left, every turn is its own. -/
def beside (due : Duration) (after : S → S) (own : S → Turns S α → Turns S β) :
    Turns S α → Turns S β
  | ended a => turn [due] (fun _ => after) fun _ s => own s (ended a)
  | turn others act next =>
    turn (due :: others)
      (fun
        | 0 => after
        | i + 1 => act i)
      fun
        | 0, s => own s (turn others act next)
        | i + 1, s => (next i s).beside due after own

/-- One more process takes turns with the others; it is due when its pauses are over. -/
def join : Process S α → Duration → Turns S β → Turns S (α × β)
  | .done a, _, others => others.map (a, ·)
  | .act after next, due, others =>
    others.beside due after fun s rest => join (next s) due rest
  | .pause d next, due, others =>
    others.beside due id fun _ rest => join next (due.plus d) rest

/-- Processes that take turns; each returns its result. -/
def together : List (Process S α) → Turns S (List α)
  | [] => ended []
  | p :: ps => (join p .zero (together ps)).map fun r => r.1 :: r.2

/-- The turns are taken as the state says, and counted in it. -/
def play (choose : S → List Duration → Nat) (tick : S → S) : Turns S α → Process S α
  | ended a => .done a
  | turn due after next =>
    .act (fun s => tick (after (choose s due) s)) fun s => (next (choose s due) s).play choose tick

end Turns

/-- Whose turn it is, by the number of the turn and the times at which those that are not done
are due. -/
abbrev Schedule := Nat → List Duration → Nat

/-- Who is due first goes on, the foremost of those due at the same time. -/
def Schedule.byClock : Schedule := fun _ due =>
  due.findIdx fun d => due.all fun e => d.nanos ≤ e.nanos

end PlaceSearch
