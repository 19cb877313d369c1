import PoolWatch.Axis.Ticks
import PoolWatch.Mark
import PoolWatch.Series.Reduction
/-!
# Charts

Series laid out in a box of pixels: reduced lines, a time axis below them and a value axis to
their left, as a picture that can be drawn anywhere.
-/

namespace PoolWatch

open PoolWatch.Numeric

structure Polyline where
  name : String
  color : Color
  points : List Pos
  deriving DecidableEq

structure AxisPicture where
  start : Pos
  stop : Pos
  ticks : List Tick
  deriving DecidableEq

structure Picture where
  size : Size
  lines : List Polyline
  xAxis : AxisPicture
  yAxis : AxisPicture
  xLabel : String
  deriving DecidableEq

structure Margins where
  top : Float32
  right : Float32
  bottom : Float32
  left : Float32
  deriving DecidableEq

/-- How a chart is laid out. Without a value range the lines' own is taken. -/
structure Chart where
  size : Size
  margins : Margins
  axis : Axis
  valueRange : Option (Float × Float)

namespace Chart

def defaultMargins : Margins := ⟨10, 20, 40, 50⟩

def ofSize (size : Size) : Chart := ⟨size, defaultMargins, Axis.standard, none⟩

def xRange (c : Chart) : Float32 × Float32 :=
  (c.margins.left, greater32 (c.size.width - c.margins.right) c.margins.left)

def yRange (c : Chart) : Float32 × Float32 :=
  (greater32 (c.size.height - c.margins.bottom) c.margins.top, c.margins.top)

def valueExtent (lines : List Line) : Option (Float × Float) :=
  Series.hull (lines.flatMap fun l => l.points.map fun p => (p.y, p.y))

/-- A range of values with some height, so that a flat line stands in the middle. -/
def widened (range : Float × Float) : Float × Float :=
  if range.1 < range.2 then range else (range.1 - 1, range.2 + 1)

/-- The position of a value in pixels; the middle, if the domain has no width. -/
def place (value : Float) (domain : Float × Float) (range : Float32 × Float32) : Float32 :=
  let width := domain.2 - domain.1
  if width ≤ 0 then Axis.middle range
  else range.1 + narrow ((value - domain.1) / width) * (range.2 - range.1)

def polyline (c : Chart) (times values : Float × Float) (line : Line) : Polyline :=
  ⟨line.name, Color.ofSeries line.index,
    line.points.map fun p => ⟨place p.x times c.xRange, place p.y values c.yRange⟩⟩

def ticksOf (domain : Option (Float × Float))
    (ticks : Float × Float → Except Overflow (List Tick)) : Except Overflow (List Tick) :=
  match domain with
  | none => .ok []
  | some d => ticks d

/-- Lays out series of which each is reduced to at most `maxPoints` points. -/
def picture (c : Chart) (series : List Series) (maxPoints : Nat) (xLabel : String) :
    Except Overflow Picture := do
  let times := Series.domain series
  let aligned := match times with
    | some (origin, _) => series.map (Series.align origin)
    | none => series
  let lines ← Series.reduce aligned maxPoints none
  let values := (c.valueRange.or (valueExtent lines)).map widened
  let polylines := match times, values with
    | some times, some values => lines.map (c.polyline times values)
    | _, _ => []
  let xTicks ← ticksOf times fun d => c.axis.timeTicks d c.xRange
  let yTicks ← ticksOf values fun d => c.axis.valueTicks d c.yRange
  let corner : Pos := ⟨c.xRange.1, c.yRange.1⟩
  return {
    size := c.size
    lines := polylines
    xAxis := ⟨corner, ⟨c.xRange.2, c.yRange.1⟩, xTicks⟩
    yAxis := ⟨corner, ⟨c.xRange.1, c.yRange.2⟩, yTicks⟩
    xLabel := xLabel }

end Chart

namespace Picture

def tickLength : Float32 := 5

def labelGap : Float32 := 2

def lineWidth : Float32 := 1.5
def axisWidth : Float32 := 1

def xTick (y : Float32) (t : Tick) : List Mark :=
  [.line ⟨t.px, y⟩ ⟨t.px, y + tickLength⟩ Color.axis axisWidth,
    .text ⟨t.px, y + tickLength + labelGap⟩ t.label .topCenter Color.axis]

def yTick (x : Float32) (t : Tick) : List Mark :=
  [.line ⟨x, t.px⟩ ⟨x - tickLength, t.px⟩ Color.axis axisWidth,
    .text ⟨x - tickLength - labelGap, t.px⟩ t.label .rightMiddle Color.axis]

def axisMarks (a : AxisPicture) (tick : Tick → List Mark) : List Mark :=
  .line a.start a.stop Color.axis axisWidth :: a.ticks.flatMap tick

def labelMarks (p : Picture) : List Mark :=
  if p.xLabel.isEmpty then []
  else
    [.text ⟨(p.xAxis.start.x + p.xAxis.stop.x) / 2, p.size.height - labelGap⟩ p.xLabel
      .bottomCenter Color.axis]

def marks (p : Picture) : List Mark :=
  p.lines.map (fun l => .polyline l.points l.color lineWidth) ++
    axisMarks p.xAxis (xTick p.xAxis.start.y) ++ axisMarks p.yAxis (yTick p.yAxis.start.x) ++
    p.labelMarks

end Picture

end PoolWatch
