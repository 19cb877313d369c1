import PoolWatch.Chart
import PoolWatch.Feed
/-!
# The dashboard

What the window shows: a header with the state of polling, the groups with their workstations,
and the chart of a metric. What is shown follows from the feed, the session and a few switches.
-/

namespace PoolWatch

open PoolWatch.Numeric

namespace Theme

def panel : Color := ⟨14, 15, 17⟩
def raised : Color := ⟨24, 26, 29⟩
def hovered : Color := ⟨36, 38, 42⟩
def primary : Color := ⟨230, 230, 230⟩
def secondary : Color := ⟨160, 160, 160⟩
def muted : Color := ⟨95, 95, 95⟩
def border : Color := ⟨48, 50, 54⟩
def ok : Color := ⟨100, 200, 100⟩
def pending : Color := ⟨200, 200, 100⟩
def error : Color := ⟨200, 100, 100⟩
def free : Color := ⟨90, 170, 120⟩
def busy : Color := ⟨190, 130, 70⟩

structure Visuals where
  panelFill : Color := panel
  windowFill : Color := raised
  extremeBackground : Color := panel
  faintBackground : Color := raised
  text : Color := primary
  borderWidth : Float32 := 1
  borderColor : Color := border
  inactiveFill : Color := raised
  hoveredFill : Color := hovered
  activeFill : Color := hovered
  windowShadow : Bool := false
  popupShadow : Bool := false

end Theme

structure Label where
  text : String
  color : Color
  deriving DecidableEq

structure Rect where
  origin : Pos
  size : Size
  deriving DecidableEq

inductive ChartPanel where
  | hidden
  | collecting (label : Label)
  | marks (marks : List Mark)
  deriving DecidableEq

structure Dashboard where
  settings : Settings
  attempts : Attempts
  feed : Feed Empty
  session : Session := {}
  metric : Metric := .gpuUtilization
  showGroups : Bool := true
  pickerOpen : Bool := false
  /-- Something has been clicked. Only a pointer that has never clicked brings up tooltips. -/
  clicked : Bool := false

namespace Dashboard

def start (settings : Settings) (attempts : Attempts) : Dashboard where
  settings
  attempts
  feed := Feed.start settings (planOf attempts)

/-! ## Actions -/

def advance (d : Dashboard) (millis : Nat) : Dashboard :=
  let feed := d.feed.advance noObservers millis
  { d with
    feed
    session := (Feed.news d.feed.clock feed.clock).foldl (Session.follow d.attempts) d.session }

def resetSession (d : Dashboard) : Dashboard := { d with session := d.session.reset }

def isPolling (d : Dashboard) : Bool := d.feed.clock.poller.shouldFetch

def groupsButton (d : Dashboard) : String := if d.showGroups then "Groups <<<" else "Groups >>>"

def pauseButton (d : Dashboard) : String := if d.isPolling then "Pause" else "Resume"

/-- A button with the given text is clicked. A click elsewhere closes the list of metrics. -/
def click (d : Dashboard) (text : String) : Dashboard :=
  let d := { d with pickerOpen := false, clicked := true }
  if text = d.groupsButton then { d with showGroups := !d.showGroups }
  else if text = d.pauseButton then { d with feed := d.feed.setShouldFetch !d.isPolling }
  else d

def togglePicker (d : Dashboard) : Dashboard :=
  { d with pickerOpen := !d.pickerOpen, clicked := true }

def choose (d : Dashboard) (metric : Metric) : Dashboard :=
  if d.pickerOpen then { d with metric, pickerOpen := false, clicked := true } else d

/-! ## Texts -/

def statusLabel : Shown (List Group) → Label
  | .loading => ⟨"Loading...", Theme.pending⟩
  | .success groups =>
    let workstations := groups.flatMap (·.workstations)
    ⟨toString (workstations.countP (·.free)) ++ "/" ++ toString workstations.length ++
      " workstations free", Theme.ok⟩
  | .failure error => ⟨"Error: " ++ error.message, Theme.error⟩

def secondsText (millis : Nat) : String :=
  let seconds := Float.ofNat (millis / 1000) +
    Float.ofNat (millis % 1000 * 1000000) / Float.ofNat 1000000000
  Decimal.plain binary64 (parts seconds)

def header (d : Dashboard) : List Label :=
  let poller := d.feed.clock.poller
  let slash : Label := ⟨"/", Theme.muted⟩
  [⟨d.groupsButton, Theme.primary⟩, ⟨d.pauseButton, Theme.primary⟩,
    statusLabel poller.current] ++
  (if d.isPolling then [] else [⟨"(paused)", Theme.muted⟩]) ++
  (if d.session.valid then [] else [⟨"session expired, log in again", Theme.error⟩]) ++
  [⟨toString d.feed.history.gpuCount ++ " GPUs tracked", Theme.muted⟩, slash,
    ⟨toString poller.stats.completed ++ "/" ++ toString poller.stats.issued ++ " polls",
      Theme.secondary⟩, slash,
    ⟨"every " ++ secondsText d.settings.refreshMillis ++ "s", Theme.muted⟩]

def meanUtilization (w : Workstation) : Float :=
  if w.gpus.isEmpty then 0
  else sum (w.gpus.map (·.utilization)) / Float.ofNat w.gpus.length

def users (w : Workstation) : List String :=
  (Pool.sortBy id (w.gpus.filterMap (·.user))).eraseReps

def workstationLabels (w : Workstation) : List Label :=
  [⟨w.name, Theme.primary⟩,
    if w.free then ⟨"free", Theme.free⟩ else ⟨"busy", Theme.busy⟩,
    ⟨toString w.gpus.length ++ " GPU", Theme.muted⟩,
    ⟨Decimal.fixed 0 (parts (meanUtilization w)) ++ "%  " ++ ", ".intercalate (users w),
      Theme.secondary⟩]

def groupLabels (g : Group) : List Label :=
  ⟨g.name ++ "  " ++ toString g.freeCount ++ "/" ++ toString g.workstations.length ++ " free",
    Theme.secondary⟩ :: g.workstations.flatMap workstationLabels

def groupsPanel : Shown (List Group) → List Label
  | .loading => [⟨"Waiting for first poll", Theme.muted⟩]
  | .failure error => [⟨error.message, Theme.error⟩]
  | .success groups => groups.flatMap groupLabels

def picker (d : Dashboard) : List Label :=
  ⟨d.metric.label, Theme.primary⟩ ::
    if d.pickerOpen then Metric.all.map fun m => ⟨m.label, Theme.primary⟩ else []

def tooltip (d : Dashboard) (name : String) : List Label :=
  match d.feed.clock.poller.current with
  | .success groups =>
    match (groups.flatMap (·.workstations)).find? (·.name = name) with
    | some w => [⟨w.cpu ++ "\n" ++ w.motherboard ++ "\n" ++ w.notes, Theme.primary⟩]
    | none => []
  | _ => []

def labels (d : Dashboard) (pointed : Option String) : List Label :=
  d.header ++ (if d.showGroups then groupsPanel d.feed.clock.poller.current else []) ++
    d.picker ++
    match pointed with
    | some name => if d.showGroups && !d.clicked then d.tooltip name else []
    | none => []

/-! ## Chart -/

def moved (origin p : Pos) : Pos := ⟨origin.x + p.x, origin.y + p.y⟩

/-- A mark moved by a position. A polyline of fewer than two points is left out. -/
def movedMark? (origin : Pos) : Mark → Option Mark
  | .polyline points color width =>
    if points.length < 2 then none else some (.polyline (points.map (moved origin)) color width)
  | .line start stop color width =>
    some (.line (moved origin start) (moved origin stop) color width)
  | .text p text anchor color => some (.text (moved origin p) text anchor color)

def chart (d : Dashboard) (rect : Option Rect) : Except Overflow ChartPanel :=
  match rect with
  | none => .ok .hidden
  | some r =>
    if r.size.width < 1 ∨ r.size.height < 1 then .ok .hidden
    else
      let series := d.feed.history.series d.metric
      if series.all fun s => decide (s.points.length < 2) then
        .ok (.collecting ⟨"Collecting samples...", Theme.muted⟩)
      else
        let chart := { Chart.ofSize r.size with valueRange := d.metric.fixedRange? }
        (chart.picture series d.settings.maxPoints d.metric.label).map fun picture =>
          .marks (picture.marks.filterMap (movedMark? r.origin))

end Dashboard

end PoolWatch
