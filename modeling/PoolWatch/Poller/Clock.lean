import PoolWatch.Poller
/-!
# Pollers in time

A run ticks at its start and then after every period. A fetch lands some time after it was
issued, whatever happened to its run in between. Time passes only when the clock is advanced,
and then everything that falls due happens in the order of time.
-/

namespace PoolWatch

/-- What becomes of a fetch: after how many milliseconds it ends, and how, or that it never
does. -/
abbrev FetchPlan (α : Type) := Option (Nat × Outcome α)

structure Ticker (α : Type) where
  run : Nat
  next : Nat
  period : Nat
  issued : Nat := 0
  plan : Nat → FetchPlan α
  period_pos : 0 < period := by omega

structure Flight (α : Type) where
  run : Nat
  seq : Nat
  due : Nat
  result : Outcome α

structure Clock (α σ : Type) where
  now : Nat := 0
  poller : Poller α σ := {}
  ticker : Option (Ticker α) := none
  flights : List (Flight α) := []
  /-- What happened, newest first. -/
  log : List (Event α σ) := []

namespace Clock

variable {α σ : Type}

def become (c : Clock α σ) (next : Poller α σ × List (Event α σ)) : Clock α σ :=
  { c with poller := next.1, log := next.2.reverse ++ c.log }

/-- Starts a run with a tick at once and then after every interval of at least a millisecond. -/
def start (c : Clock α σ) (interval : Nat) (plan : Nat → FetchPlan α) : Clock α σ :=
  if c.poller.closed then c
  else
    let poller := c.poller.start
    { c with
      poller
      ticker := some { run := poller.run, next := c.now, period := max interval 1, plan } }

def liveTicker? (c : Clock α σ) : Option (Ticker α) :=
  c.ticker.filter fun t => c.poller.running && t.run == c.poller.run

def fire (c : Clock α σ) (t : Ticker α) : Clock α σ :=
  let later := { t with next := t.next + t.period }
  let (poller, seq?, events) := c.poller.tick t.run
  let c := c.become (poller, events)
  match seq? with
  | none => { c with ticker := some later }
  | some seq =>
    let flights := match t.plan t.issued with
      | none => c.flights
      | some (after, result) => c.flights ++ [⟨t.run, seq, t.next + after, result⟩]
    { c with flights, ticker := some { later with issued := t.issued + 1 } }

def earliest? : List (Flight α) → Option (Flight α × List (Flight α))
  | [] => none
  | f :: rest =>
    match earliest? rest with
    | none => some (f, [])
    | some (g, others) => if g.due < f.due then some (g, f :: others) else some (f, rest)

def land (b : Behaviour α σ) (c : Clock α σ) (f : Flight α) (others : List (Flight α)) :
    Clock α σ :=
  { c.become (c.poller.complete b f.run f.seq f.result) with flights := others }

/-- What falls due first up to a time happens: a fetch lands or a run ticks. -/
def step? (b : Behaviour α σ) (limit : Nat) (c : Clock α σ) : Option (Clock α σ) :=
  let flight := (earliest? c.flights).filter fun f => f.1.due ≤ limit
  let ticker := c.liveTicker?.filter fun t => t.next ≤ limit
  match flight, ticker with
  | none, none => none
  | some (f, others), none => some (c.land b f others)
  | none, some t => some (c.fire t)
  | some (f, others), some t =>
    some (if f.due ≤ t.next then c.land b f others else c.fire t)

def runUntil (b : Behaviour α σ) (limit : Nat) : (fuel : Nat) → Clock α σ → Clock α σ
  | 0, c => c
  | fuel + 1, c =>
    match c.step? b limit with
    | none => c
    | some c => runUntil b limit fuel c

/-- A bound on the steps up to a time: every fetch lands once, and every tick issues at most
one. -/
def stepBound (c : Clock α σ) (limit : Nat) : Nat :=
  c.flights.length +
    match c.liveTicker? with
    | none => 0
    | some t => if t.next ≤ limit then 2 * ((limit - t.next) / t.period + 1) else 0

def advance (b : Behaviour α σ) (c : Clock α σ) (millis : Nat) : Clock α σ :=
  let limit := c.now + millis
  { c.runUntil b limit (c.stepBound limit) with now := limit }

/-! ## Commands from outside -/

def stop (c : Clock α σ) : Clock α σ := c.become (c.poller.stop, [])

def drop (c : Clock α σ) : Clock α σ := c.become c.poller.drop

def setShouldFetch (c : Clock α σ) (enabled : Bool) : Clock α σ :=
  c.become (c.poller.setShouldFetch enabled, [])

def subscribe (c : Clock α σ) (role : Role α σ) : Clock α σ :=
  c.become (c.poller.subscribe role)

def cancel (c : Clock α σ) (ticket : Nat) : Clock α σ :=
  c.become (c.poller.cancel ticket, [])

end Clock

end PoolWatch
