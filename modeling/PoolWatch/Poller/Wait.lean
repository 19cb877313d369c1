import PoolWatch.Poller
/-!
# Waits

A wait for a value, as the one who waits sees it: pending until it is looked after, then with
its value, or closed without one.
-/

namespace PoolWatch

inductive WaitState (α : Type) where
  | pending
  | resolved (value : α)
  | closed
  deriving DecidableEq

/-- A wait. One that was given up stays as it is. -/
structure Wait (α : Type) where
  ticket : Nat
  state : WaitState α := .pending
  givenUp : Bool := false
  deriving DecidableEq

namespace Wait

variable {α σ : Type}

/-- What an event means for the wait with a ticket. -/
def verdict? (ticket : Nat) : Event α σ → Option (WaitState α)
  | .resolved t value => if t = ticket then some (.resolved value) else none
  | .abandoned t => if t = ticket then some .closed else none
  | _ => none

def settle (log : List (Event α σ)) (w : Wait α) : Wait α :=
  match w.state with
  | .pending =>
    if w.givenUp then w
    else { w with state := (log.findSome? (verdict? w.ticket)).getD .pending }
  | _ => w

end Wait

end PoolWatch
