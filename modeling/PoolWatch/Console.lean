import PoolWatch.Chart
import PoolWatch.Feed
import PoolWatch.Svg
/-!
# The console client

Polls the backend, writes a line for every group of every pool that arrives, and keeps the chart
of utilization in a file.
-/

namespace PoolWatch

open PoolWatch.Numeric

namespace Console

inductive Level where
  | error
  | warn
  | info
  deriving DecidableEq, Repr

def Level.text : Level → String
  | .error => "ERROR"
  | .warn => "WARN"
  | .info => "INFO"

structure Line where
  level : Level
  message : String
  values : List (String × String) := []
  deriving DecidableEq

def Line.text (l : Line) : String :=
  l.level.text ++ " " ++ l.message ++
    String.join (l.values.map fun (name, value) => " " ++ name ++ "=" ++ value)

def startLine (s : Settings) : Line :=
  ⟨.info, "Starting", [("url", s.url), ("refresh_ms", toString s.refreshMillis)]⟩

def stateText : Shown (List Group) → String
  | .loading => "loading"
  | .success groups => toString groups.length ++ " groups"
  | .failure error => "failing (" ++ error.kind ++ ")"

def statsLines {σ : Type} (poller : Poller (List Group) σ) (history : History)
    (session : Session) : List Line :=
  ⟨.info, "stats",
    [("issued", toString poller.stats.issued), ("completed", toString poller.stats.completed),
      ("discarded", toString poller.stats.discarded), ("skipped", toString poller.stats.skipped),
      ("gpus", toString history.gpuCount), ("state", stateText poller.current)]⟩ ::
    if session.valid then []
    else [⟨.warn, "Backend rejected the session; refresh credentials", []⟩]

def groupLine (g : Group) : Line :=
  ⟨.info, "pool",
    [("group", g.name), ("workstations", toString g.workstations.length),
      ("free", toString g.freeCount), ("gpus", toString g.gpuCount)]⟩

def stopLine : Line := ⟨.info, "Interrupted, shutting down", []⟩

def unwrittenLine (path reason : String) : Line :=
  ⟨.error, "Failed to write chart", [("error", reason), ("path", path)]⟩

def chartDocument (h : History) (maxPoints : Nat) : Except Overflow String := do
  let chart := { Chart.ofSize ⟨960, 320⟩ with valueRange := Metric.gpuUtilization.fixedRange? }
  let picture ← chart.picture (h.series .gpuUtilization) maxPoints Metric.gpuUtilization.label
  return Svg.document picture.size picture.marks

/-- What the client has done: its history, its lines, and the chart in its file. -/
structure Record where
  history : History
  lines : List Line
  chart : Option String := none

/-- Takes up a pool. The reason why a path cannot be written is given, if there is one. -/
def Record.take (s : Settings) (unwritable : String → Option String) (r : Record)
    (groups : List Group) : Except Overflow Record := do
  let history := (r.history.record groups).2
  let lines := r.lines ++ groups.map groupLine
  match s.chartPath with
  | none => return { r with history, lines }
  | some path =>
    let document ← chartDocument history s.maxPoints
    match unwritable path with
    | none => return ⟨history, lines, some document⟩
    | some reason => return ⟨history, lines ++ [unwrittenLine path reason], r.chart⟩

def Record.takeEvent (s : Settings) (unwritable : String → Option String) (r : Record) :
    Event (List Group) (FeedObserver Empty) → Except Overflow Record
  | .called _ .feeder ⟨.success groups, _⟩ _ => r.take s unwritable groups
  | _ => .ok r

structure State where
  feed : Feed Empty
  session : Session := {}
  record : Record

namespace State

def start (s : Settings) (attempts : Attempts) : State :=
  let feed := Feed.start s (planOf attempts)
  { feed, record := ⟨feed.history, [startLine s], none⟩ }

def report (c : State) : State :=
  let stats := statsLines c.feed.clock.poller c.record.history c.session
  { c with record := { c.record with lines := c.record.lines ++ stats } }

/-- The counters are printed. Then time passes, and what the feeding observer is told is taken
up. -/
def pass (s : Settings) (unwritable : String → Option String) (attempts : Attempts) (c : State)
    (millis : Nat) : Except Overflow State := do
  let c := c.report
  let feed := c.feed.advance noObservers millis
  let news := Feed.news c.feed.clock feed.clock
  let record ← news.foldlM (Record.takeEvent s unwritable) c.record
  return ⟨feed, news.foldl (Session.follow attempts) c.session, record⟩

end State

def byMinutes (millis : Nat) : List Nat :=
  List.replicate (millis / 60000) 60000 ++ [millis % 60000]

def run (s : Settings) (unwritable : String → Option String) (attempts : Attempts)
    (millis : Nat) : Except Overflow Record := do
  let c ← (byMinutes millis).foldlM (State.pass s unwritable attempts) (State.start s attempts)
  return { c.record with lines := c.record.lines ++ [stopLine] }

def refusalText (e : SettingsError) : String := "Error: " ++ e.record

end Console

end PoolWatch
