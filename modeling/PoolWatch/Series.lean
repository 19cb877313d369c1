/-!
# Series of samples

A named series of points, ordered by time. Its offset counts the virtual points before the first
one, from an origin that several series share.
-/

namespace PoolWatch

structure Point where
  x : Float
  y : Float
  deriving DecidableEq

structure Series where
  name : String
  offset : Nat
  points : List Point
  deriving DecidableEq

end PoolWatch
