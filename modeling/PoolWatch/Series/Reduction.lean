import PoolWatch.Numeric.Checked
import PoolWatch.Series
/-!
# Reduced series

A series is reduced to a bounded number of points by taking the mean of consecutive chunks. A
series that covers only part of the time range gets smaller chunks in proportion, so that all
lines are equally dense, and chunks are counted from an origin that all series share.
-/

namespace PoolWatch

open PoolWatch.Numeric

structure Line where
  index : Nat
  name : String
  offset : Nat
  points : List Point
  deriving DecidableEq

namespace Series

/-! ## Extents -/

def hull : List (Float × Float) → Option (Float × Float)
  | [] => none
  | r :: rs => some (rs.foldl (fun h r => (lesser h.1 r.1, greater h.2 r.2)) r)

def timeExtent (points : List Point) : Option (Float × Float) :=
  hull (points.map fun p => (p.x, p.x))

def domain (series : List Series) : Option (Float × Float) :=
  hull (series.filterMap fun s => timeExtent s.points)

/-! ## Windows -/

def bisectFrom {α : Type} (before : α → Bool) (xs : List α) : (fuel base size : Nat) → Nat
  | 0, base, _ => base
  | fuel + 1, base, size =>
    if size ≤ 1 then base
    else
      let half := size / 2
      let middle := base + half
      bisectFrom before xs fuel (if xs[middle]?.any before then middle else base) (size - half)

def bisect {α : Type} (before : α → Bool) (xs : List α) : Nat :=
  let base := bisectFrom before xs xs.length 0 xs.length
  if xs[base]?.any before then base + 1 else base

def clip (points : List Point) (window : Float × Float) : List Point :=
  let start := bisect (fun p => p.x < window.1) points
  let stop := bisect (fun p => p.x ≤ window.2) points
  (points.take stop).drop start

/-! ## Chunks -/

def chunkCount (length offset chunk : Nat) : Except Overflow Nat := do
  let total ← checkCount (offset % chunk + length)
  return (total + chunk - 1) / chunk

def baseChunk (length maxPoints : Nat) (fraction : Float) : Nat :=
  let budget := Float.ofNat maxPoints * fraction
  max ((parts (Float.ofNat length / budget)).toUnsigned .up) 1

def fittingChunk (length maxPoints : Nat) : Nat :=
  max ((length - 1 + (maxPoints - 1) - 1) / (maxPoints - 1)) 1

def chunkSize (length offset maxPoints : Nat) (fraction : Float) : Except Overflow Nat := do
  let base := baseChunk length maxPoints fraction
  if maxPoints < 2 then return base
  if (← chunkCount length offset base) ≤ maxPoints then return base
  let next ← checkCount (base + 1)
  if (← chunkCount length offset next) ≤ maxPoints then return next
  return fittingChunk length maxPoints

def blocks {α : Type} (chunk : Nat) : (room : Nat) → List α → List (List α)
  | _, [] => []
  | room, x :: xs =>
    if room ≤ 1 then [x] :: blocks chunk chunk xs
    else
      match blocks chunk (room - 1) xs with
      | [] => [[x]]
      | b :: bs => (x :: b) :: bs

def blockMean : List Point → Option Point
  | [] => none
  | p :: ps =>
    let ys := (p :: ps).map (·.y)
    some ⟨p.x, sum ys / Float.ofNat ys.length⟩

def chunkMeans (points : List Point) (offset chunk : Nat) : List Point :=
  (blocks chunk (chunk - offset % chunk) points).filterMap blockMean

/-! ## Lines -/

def coverage (range extent : Float × Float) : Float :=
  let width := range.2 - range.1
  if 0 < width then lesser ((extent.2 - extent.1) / width) 1 else 1

def reducePoints (points : List Point) (offset maxPoints : Nat) (fraction : Float) :
    Except Overflow (List Point) := do
  let offset := if maxPoints = 1 then 0 else offset
  return chunkMeans points offset (← chunkSize points.length offset maxPoints fraction)

def reduceOne (range : Float × Float) (maxPoints index : Nat) (s : Series)
    (points : List Point) : Except Overflow (Option Line) :=
  match timeExtent points with
  | none => .ok none
  | some extent =>
    let fraction := coverage range extent
    if 0 < fraction then
      (reducePoints points s.offset maxPoints fraction).map fun reduced =>
        some ⟨index, s.name, s.offset, reduced⟩
    else .ok none

def visible (window : Option (Float × Float)) (s : Series) : List Point :=
  match window with
  | none => s.points
  | some w => clip s.points w

def reduceAll (range : Float × Float) (maxPoints : Nat) :
    List (Nat × Series × List Point) → Except Overflow (List Line)
  | [] => .ok []
  | (index, s, points) :: rest => do
    let line ← reduceOne range maxPoints index s points
    let lines ← reduceAll range maxPoints rest
    return line.toList ++ lines

def numbered {α : Type} (start : Nat) : List α → List (Nat × α)
  | [] => []
  | x :: xs => (start, x) :: numbered (start + 1) xs

def seen (window : Option (Float × Float)) (series : List Series) :
    List (Nat × Series × List Point) :=
  (numbered 0 series).filterMap fun (index, s) =>
    match visible window s with
    | [] => none
    | points => some (index, s, points)

def reduce (series : List Series) (maxPoints : Nat) (window : Option (Float × Float)) :
    Except Overflow (List Line) :=
  if maxPoints = 0 then .ok []
  else
    let seen := seen window series
    match window.or (hull (seen.filterMap fun (_, _, points) => timeExtent points)) with
    | none => .ok []
    | some range => reduceAll range maxPoints seen

/-! ## Offsets -/

def stepsFrom (origin : Float) (points : List Point) : Nat :=
  match points.head?, points.getLast? with
  | some first, some last =>
    if points.length < 2 ∨ last.x ≤ first.x then 0
    else
      let spacing := (last.x - first.x) / Float.ofNat (points.length - 1)
      (parts ((first.x - origin) / spacing)).toUnsigned .nearest
  | _, _ => 0

def align (origin : Float) (s : Series) : Series :=
  if s.points.isEmpty then s else { s with offset := stepsFrom origin s.points }

end Series

end PoolWatch
