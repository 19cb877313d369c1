import PoolWatch.Poller
/-!
# Stock observers

Observers that stay until a condition holds of what they are told, and that may act whenever
they are told something. Values are whole numbers.
-/

namespace PoolWatch

inductive DoneWhen where
  | always
  | never
  | success
  | failure
  | atLeast (bound : Int)
  | calls (count : Int)
  deriving DecidableEq

mutual

/-- An observer: its name, when it is done, how often it was called, and what it does. -/
inductive StockObserver where
  | mk (name : String) (doneWhen : DoneWhen) (called : Nat) (act : StockAct)

inductive StockAct where
  | nothing
  | stop
  | drop
  | pause
  | observe (other : StockObserver)

end

namespace StockObserver

def name : StockObserver → String
  | .mk name .. => name

def isDone (doneWhen : DoneWhen) (call : Nat) (result : Outcome Int) : Bool :=
  match doneWhen, result with
  | .always, _ => true
  | .never, _ => false
  | .success, .success _ => true
  | .success, .failure _ => false
  | .failure, .success _ => false
  | .failure, .failure _ => true
  | .atLeast bound, .success value => bound ≤ value
  | .atLeast _, .failure _ => false
  | .calls count, _ => count ≤ call

def commands : StockAct → List (Command Int StockObserver)
  | .nothing => []
  | .stop => [.stop]
  | .drop => [.drop]
  | .pause => [.setShouldFetch false]
  | .observe other => [.observe other]

def behaviour : Behaviour Int StockObserver where
  react
    | .mk name doneWhen called act, delivery =>
      ⟨isDone doneWhen (called + 1) delivery.result, .mk name doneWhen (called + 1) act,
        commands act⟩

end StockObserver

end PoolWatch
