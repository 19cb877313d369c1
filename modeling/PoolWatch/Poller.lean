import PoolWatch.Outcome
import PoolWatch.Poller.Policy
/-!
# Pollers

A poller issues fetches on the ticks of a run, applies their results and tells its subscribers.
Every start and every stop begins a new run, and what an older run still delivers is dropped.
Subscribers are told after the result has been applied, in the order in which they came, and
stay until they are done. While being told they may give commands to the poller.

The three parts of a completion are functions of their own: `accept?` takes the subscribers out,
`notify` calls them, and `putBack` returns those that stay.
-/

namespace PoolWatch

/-- What an observer is told: a result, and what the poller shows at that moment. -/
structure Delivery (α : Type) where
  result : Outcome α
  state : Shown α
  deriving DecidableEq

inductive Command (α σ : Type) where
  | observe (observer : σ)
  | waitFor (accepts : α → Bool)
  | setShouldFetch (enabled : Bool)
  | stop
  | drop

/-- An observer's answer: whether it is done, what it has become, and its commands. -/
structure Reply (α σ : Type) where
  done : Bool
  observer : σ
  commands : List (Command α σ) := []

structure Behaviour (α σ : Type) where
  react : σ → Delivery α → Reply α σ

inductive Role (α σ : Type) where
  | observer (state : σ)
  | waiter (accepts : α → Bool)
  | cancelled

structure Subscription (α σ : Type) where
  ticket : Nat
  role : Role α σ

inductive Event (α σ : Type) where
  | issued (run seq : Nat)
  | skipped (run : Nat)
  | applied (run seq : Nat) (result : Outcome α)
  | discarded (run seq : Nat) (result : Outcome α)
  | called (ticket : Nat) (observer : σ) (delivery : Delivery α) (done : Bool)
  | resolved (ticket : Nat) (value : α)
  | abandoned (ticket : Nat)
  deriving DecidableEq

structure Stats where
  issued : Nat := 0
  completed : Nat := 0
  discarded : Nat := 0
  skipped : Nat := 0
  deriving DecidableEq, Repr

structure Poller (α σ : Type) where
  policy : Policy := {}
  current : Shown α := .loading
  shouldFetch : Bool := true
  running : Bool := false
  /-- The number of the run, raised by every start and stop. -/
  run : Nat := 0
  nextSeq : Nat := 0
  appliedSeq : Option Nat := none
  subscribers : List (Subscription α σ) := []
  nextTicket : Nat := 0
  /-- The poller was dropped and keeps no subscriber. -/
  closed : Bool := false
  stats : Stats := {}

def abandonments {α σ : Type} (subscribers : List (Subscription α σ)) : List (Event α σ) :=
  subscribers.filterMap fun s =>
    match s.role with
    | .waiter _ => some (.abandoned s.ticket)
    | _ => none

namespace Poller

variable {α σ : Type}

/-! ## Lifecycle -/

def stop (p : Poller α σ) : Poller α σ :=
  if p.running then { p with running := false, run := p.run + 1 } else p

/-- Begins a new run in place of the present one. A poller that was dropped stays as it is. -/
def start (p : Poller α σ) : Poller α σ :=
  if p.closed then p
  else
    let p := p.stop
    { p with running := true, run := p.run + 1 }

def setShouldFetch (p : Poller α σ) (enabled : Bool) : Poller α σ :=
  { p with shouldFetch := enabled }

def drop (p : Poller α σ) : Poller α σ × List (Event α σ) :=
  ({ p.stop with closed := true, subscribers := [] }, abandonments p.subscribers)

/-- Registers a subscriber under the next ticket. One that comes after the poller was dropped is
not kept. -/
def subscribe (p : Poller α σ) (role : Role α σ) : Poller α σ × List (Event α σ) :=
  let s : Subscription α σ := ⟨p.nextTicket, role⟩
  let p := { p with nextTicket := p.nextTicket + 1 }
  if p.closed then (p, abandonments [s])
  else ({ p with subscribers := p.subscribers ++ [s] }, [])

def cancel (p : Poller α σ) (ticket : Nat) : Poller α σ :=
  { p with subscribers := p.subscribers.map fun s =>
      match s.role with
      | .waiter _ => if s.ticket = ticket then { s with role := .cancelled } else s
      | _ => s }

/-! ## Ticks -/

/-- A tick of a run: a fetch is issued, or the tick is skipped while fetching is paused. The
number of the fetch is returned. -/
def tick (p : Poller α σ) (run : Nat) : Poller α σ × Option Nat × List (Event α σ) :=
  if p.running ∧ p.run = run then
    if p.shouldFetch then
      let seq := p.nextSeq
      let current := match p.policy.refresh with
        | .resetToLoading => .loading
        | .keepStale => p.current
      ({ p with
          nextSeq := seq + 1
          current
          stats := { p.stats with issued := p.stats.issued + 1 } },
        some seq, [.issued run seq])
    else
      ({ p with stats := { p.stats with skipped := p.stats.skipped + 1 } }, none, [.skipped run])
  else (p, none, [])

/-! ## Completions -/

/-- The result of a fetch comes too late: its run is over, or a later fetch was applied and late
results are dropped. -/
def isStale (p : Poller α σ) (run seq : Nat) : Bool :=
  !p.running || p.run != run ||
    (p.policy.overlap == .lastIssued && p.appliedSeq.any (seq < ·))

def discard (p : Poller α σ) : Poller α σ :=
  { p with stats := { p.stats with discarded := p.stats.discarded + 1 } }

/-- Applies a result unless it comes too late, and takes the subscribers out. -/
def accept? (p : Poller α σ) (run seq : Nat) (result : Outcome α) :
    Option (Poller α σ × List (Subscription α σ)) :=
  if p.isStale run seq then none
  else
    some
      ({ p with
          appliedSeq := some seq
          current := result.shown
          subscribers := []
          stats := { p.stats with completed := p.stats.completed + 1 } },
        p.subscribers)

def obey (p : Poller α σ) : Command α σ → Poller α σ × List (Event α σ)
  | .observe observer => p.subscribe (.observer observer)
  | .waitFor accepts => p.subscribe (.waiter accepts)
  | .setShouldFetch enabled => (p.setShouldFetch enabled, [])
  | .stop => (p.stop, [])
  | .drop => p.drop

def obeyAll (p : Poller α σ) : List (Command α σ) → Poller α σ × List (Event α σ)
  | [] => (p, [])
  | c :: commands =>
    let (p, events) := p.obey c
    let (p, more) := p.obeyAll commands
    (p, events ++ more)

def call (b : Behaviour α σ) (p : Poller α σ) (result : Outcome α) (s : Subscription α σ) :
    Poller α σ × Option (Subscription α σ) × List (Event α σ) :=
  match s.role with
  | .cancelled => (p, none, [])
  | .waiter accepts =>
    match result with
    | .failure _ => (p, some s, [])
    | .success value =>
      if accepts value then (p, none, [.resolved s.ticket value]) else (p, some s, [])
  | .observer state =>
    let delivery : Delivery α := ⟨result, p.current⟩
    let reply := b.react state delivery
    let (p, events) := p.obeyAll reply.commands
    (p, if reply.done then none else some { s with role := .observer reply.observer },
      .called s.ticket state delivery reply.done :: events)

def notify (b : Behaviour α σ) (result : Outcome α) :
    Poller α σ → List (Subscription α σ) →
      Poller α σ × List (Subscription α σ) × List (Event α σ)
  | p, [] => (p, [], [])
  | p, s :: rest =>
    let (p, stays, events) := p.call b result s
    let (p, kept, more) := notify b result p rest
    (p, stays.toList ++ kept, events ++ more)

/-- Returns subscribers that stay, before those that came in the meantime. A poller that was
dropped lets them go. -/
def putBack (p : Poller α σ) (kept : List (Subscription α σ)) : Poller α σ × List (Event α σ) :=
  if p.closed then (p, abandonments kept)
  else ({ p with subscribers := kept ++ p.subscribers }, [])

def complete (b : Behaviour α σ) (p : Poller α σ) (run seq : Nat) (result : Outcome α) :
    Poller α σ × List (Event α σ) :=
  match p.accept? run seq result with
  | none => (p.discard, [.discarded run seq result])
  | some (p, taken) =>
    let (p, kept, events) := p.notify b result taken
    let (p, more) := p.putBack kept
    (p, .applied run seq result :: events ++ more)

end Poller

end PoolWatch
