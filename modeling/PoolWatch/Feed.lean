import PoolWatch.Fetch
import PoolWatch.History
import PoolWatch.Poller.Clock
import PoolWatch.Pool.Arrange
import PoolWatch.Settings
/-!
# The feed of a program

A program polls the backend and keeps a history. An observer that is never done takes every pool
that is shown into the history; other observers may come and go beside it.
-/

namespace PoolWatch

/-- An observer of a feed: the one that feeds the history, or another one. -/
inductive FeedObserver (σ : Type) where
  | feeder
  | other (observer : σ)
  deriving DecidableEq

def Command.forFeed {σ : Type} :
    Command (List Group) σ → Command (List Group) (FeedObserver σ)
  | .observe observer => .observe (.other observer)
  | .waitFor accepts => .waitFor accepts
  | .setShouldFetch enabled => .setShouldFetch enabled
  | .stop => .stop
  | .drop => .drop

/-- The feeding observer stays and commands nothing; others answer as they do. -/
def FeedObserver.behaviour {σ : Type} (b : Behaviour (List Group) σ) :
    Behaviour (List Group) (FeedObserver σ) where
  react
    | .feeder, _ => ⟨false, .feeder, []⟩
    | .other observer, delivery =>
      let reply := b.react observer delivery
      ⟨reply.done, .other reply.observer, reply.commands.map Command.forFeed⟩

def Role.forFeed {σ : Type} : Role (List Group) σ → Role (List Group) (FeedObserver σ)
  | .observer state => .observer (.other state)
  | .waiter accepts => .waiter accepts
  | .cancelled => .cancelled

/-- Takes a pool into a history when the feeding observer is told of it. -/
def History.take {σ : Type} (h : History) : Event (List Group) (FeedObserver σ) → History
  | .called _ .feeder ⟨.success groups, _⟩ _ => (h.record groups).2
  | _ => h

structure Feed (σ : Type) where
  clock : Clock (List Group) (FeedObserver σ)
  history : History

namespace Feed

variable {σ : Type}

/-- What happened between two clocks, oldest first. -/
def news (before after : Clock (List Group) (FeedObserver σ)) :
    List (Event (List Group) (FeedObserver σ)) :=
  (after.log.take (after.log.length - before.log.length)).reverse

def become (f : Feed σ) (clock : Clock (List Group) (FeedObserver σ)) : Feed σ :=
  ⟨clock, (news f.clock clock).foldl History.take f.history⟩

def start (settings : Settings) (plan : Nat → FetchPlan (List Group)) : Feed σ :=
  let clock : Clock (List Group) (FeedObserver σ) := { poller := { policy := settings.policy } }
  let clock := clock.subscribe (.observer .feeder)
  ⟨clock.start settings.refreshMillis plan, History.empty settings.historyCapacity⟩

def advance (b : Behaviour (List Group) σ) (f : Feed σ) (millis : Nat) : Feed σ :=
  f.become (f.clock.advance (FeedObserver.behaviour b) millis)

def setShouldFetch (f : Feed σ) (enabled : Bool) : Feed σ :=
  f.become (f.clock.setShouldFetch enabled)

def subscribe (f : Feed σ) (role : Role (List Group) σ) : Feed σ :=
  f.become (f.clock.subscribe role.forFeed)

def cancel (f : Feed σ) (ticket : Nat) : Feed σ := f.become (f.clock.cancel ticket)

end Feed

def noObservers : Behaviour (List Group) Empty where
  react observer _ := nomatch observer

def planOf (attempts : Attempts) (seq : Nat) : FetchPlan (List Group) :=
  (attempts seq).map fun (after, attempt) => (after, attempt.outcome.map Pool.arrange)

/-- The session after something happened: every fetch that lands counts, also one whose result
is dropped. -/
def Session.follow {σ : Type} (attempts : Attempts) (s : Session) :
    Event (List Group) (FeedObserver σ) → Session
  | .applied _ seq _ | .discarded _ seq _ =>
    match attempts seq with
    | some (_, attempt) => (attempt.fetch s).2
    | none => s
  | _ => s

end PoolWatch
