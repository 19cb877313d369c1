/-!
# Polling policies

Which result is kept when fetches overlap, and what is seen while one is under way.
-/

namespace PoolWatch

inductive Overlap where
  /-- Every result replaces the one before, late ones included. -/
  | lastCompletion
  /-- A result of a fetch issued before the newest applied one is dropped. -/
  | lastIssued
  deriving DecidableEq, Repr

inductive Refresh where
  | keepStale
  | resetToLoading
  deriving DecidableEq, Repr

structure Policy where
  overlap : Overlap := .lastCompletion
  refresh : Refresh := .keepStale
  deriving DecidableEq, Repr

end PoolWatch
