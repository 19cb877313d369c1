import PoolWatch.Axis.Step
import PoolWatch.Decimal.Notation
/-!
# Ticks

Labelled positions on an axis of times or of values, no two neighbours closer than the axis
allows.
-/

namespace PoolWatch

open PoolWatch.Numeric

structure Tick where
  value : Float
  px : Float32
  label : String
  deriving DecidableEq

namespace Tick

/-! ## Thinning -/

def gap (a b : Tick) : Float32 := (b.px - a.px).abs

/-- The least distance of neighbours, infinite if there are none. -/
def leastGap (ticks : List Tick) : Float32 :=
  (ticks.zipWith gap ticks.tail).foldl lesser32 (Float32.ofBits 0x7f800000)

def stride (pitch : Float32) (ticks : List Tick) : Nat :=
  let least := leastGap ticks
  if 0 < least ∧ least.isFinite then max ((parts32 (pitch / least)).toUnsigned .up) 1 else 1

/-- Drops `skip` elements, and after every element that is kept `stride - 1` more. -/
def everyNth {α : Type} (stride : Nat) : (skip : Nat) → List α → List α
  | _, [] => []
  | 0, x :: xs => x :: everyNth stride (stride - 1) xs
  | skip + 1, _ :: xs => everyNth stride skip xs

def spacedFrom (pitch : Float32) (last : Tick) : List Tick → List Tick
  | [] => []
  | t :: ts =>
    if last.gap t < pitch then spacedFrom pitch last ts else t :: spacedFrom pitch t ts

def spaced (pitch : Float32) : List Tick → List Tick
  | [] => []
  | t :: ts => t :: spacedFrom pitch t ts

/-- Ticks of which no two neighbours are closer than a pitch: a regular choice of them where that
is possible, with what is still too close left out. -/
def thin (pitch : Float32) (ticks : List Tick) : List Tick :=
  if ticks.length < 2 ∨ pitch ≤ 0 then ticks
  else spaced pitch (everyNth (stride pitch ticks) 0 ticks)

end Tick

namespace Axis

/-! ## Positions -/

def ordered (range : Float × Float) : Float × Float :=
  if range.1 ≤ range.2 then range else (range.2, range.1)

def position (value : Float) (domain : Float × Float) (range : Float32 × Float32) : Float32 :=
  range.1 + narrow ((value - domain.1) / (domain.2 - domain.1)) * (range.2 - range.1)

def middle (range : Float32 × Float32) : Float32 := (range.1 + range.2) / 2

/-! ## Times -/

def timeTick (a : Axis) (domain : Float × Float) (range : Float32 × Float32) (instant : Int) :
    Tick :=
  let value := Float.ofInt instant / 1000
  ⟨value, position value domain range, a.label value⟩

def timeTicks (a : Axis) (domain : Float × Float) (range : Float32 × Float32) :
    Except Overflow (List Tick) :=
  let (lo, hi) := ordered domain
  if lo.isFinite ∧ hi.isFinite then
    if hi ≤ lo then .ok [⟨lo, middle range, a.label lo⟩]
    else
      let first := (parts (lo * 1000)).toSigned .up
      let last := (parts (hi * 1000)).toSigned .down
      let step := TimeStep.choose ((hi - lo) * 1000)
      (step.instants a first last).map fun instants =>
        Tick.thin a.minPitch (instants.map (a.timeTick (lo, hi) range))
  else .ok []

/-! ## Values -/

def maxPlaces : Nat := 0xffff

def placesFor (step : Float) : Nat :=
  if 1 ≤ step then 0 else (-tenLog step).toNat

/-- The label of a value on an axis with a step. A value that is tiny beside the step is
zero. -/
def valueLabel (value step : Float) : Except Overflow String :=
  let places := placesFor step
  if maxPlaces < places then .error .places
  else
    let value := if value.abs < step * 1e-9 then 0.0 else value
    .ok (Decimal.fixed places (parts value))

def valueTick (domain : Float × Float) (range : Float32 × Float32) (step : Float) (i : Int) :
    Except Overflow Tick :=
  let value := Float.ofInt i * step
  (valueLabel value step).map fun label => ⟨value, position value domain range, label⟩

/-- The numbers of the multiples of a step in a range, the first ones if they are very many. -/
def multiples (lo hi step : Float) : List Int :=
  let first := (parts (lo / step)).toSigned .up
  let last := (parts (hi / step)).toSigned .down
  (List.range (min TimeStep.maxInstants (last - first + 1).toNat)).map fun (i : Nat) =>
    first + (i : Int)

def valueTicks (a : Axis) (domain : Float × Float) (range : Float32 × Float32) :
    Except Overflow (List Tick) :=
  let (lo, hi) := ordered domain
  if lo.isFinite ∧ hi.isFinite then
    if hi ≤ lo then
      (valueLabel lo 1).map fun label => [⟨lo, middle range, label⟩]
    else
      let step := niceStep ((hi - lo) / TimeStep.targetTicks)
      ((multiples lo hi step).mapM (valueTick (lo, hi) range step)).map (Tick.thin a.minPitch)
  else .ok []

end Axis

end PoolWatch
