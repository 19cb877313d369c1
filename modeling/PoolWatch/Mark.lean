import PoolWatch.Color
/-!
# Marks

What is drawn on a surface: polylines, straight lines and anchored texts, in pixels.
-/

namespace PoolWatch

structure Pos where
  x : Float32
  y : Float32
  deriving DecidableEq

structure Size where
  width : Float32
  height : Float32
  deriving DecidableEq

/-- Where a text stands relative to its position. -/
inductive Anchor where
  | topCenter
  | rightMiddle
  | bottomCenter
  deriving DecidableEq, Repr

inductive Mark where
  | polyline (points : List Pos) (color : Color) (width : Float32)
  | line (start stop : Pos) (color : Color) (width : Float32)
  | text (pos : Pos) (text : String) (anchor : Anchor) (color : Color)
  deriving DecidableEq

end PoolWatch
