import Std.Data.ExtTreeMap
import PoolWatch.Metric
import PoolWatch.Series
/-!
# Metric history

The newest readings of every GPU of the pool, up to a capacity. A reading that is not newer than
the last one kept is skipped, and a GPU that is missing from a snapshot is forgotten.
-/

namespace PoolWatch

structure Reading where
  time : Float
  gpu : Gpu
  deriving DecidableEq

def historyKey (workstation uuid : String) : String := workstation ++ "/" ++ uuid

def observations (groups : List Group) : List (String × Reading) :=
  groups.flatMap fun g =>
    g.workstations.flatMap fun w =>
      w.gpus.map fun gpu => (historyKey w.name gpu.uuid, ⟨w.lastSeenSeconds, gpu⟩)

def Metric.slot (m : Metric) : Fin Metric.all.length :=
  ⟨Metric.all.idxOf m, List.idxOf_lt_length_of_mem m.mem_all⟩

structure Sample where
  time : Float
  values : Vector Float Metric.all.length
  deriving DecidableEq

namespace Sample

def ofReading (r : Reading) : Sample := ⟨r.time, .ofFn fun slot => Metric.all[slot].value r.gpu⟩

def value (s : Sample) (m : Metric) : Float := s.values[m.slot]

@[simp]
theorem ofReading_time (r : Reading) : (ofReading r).time = r.time := rfl

@[simp]
theorem ofReading_value (r : Reading) (m : Metric) : (ofReading r).value m = m.value r.gpu := by
  simp [ofReading, value, Metric.slot]

end Sample

/-- Appends a reading to the samples kept, oldest first, unless the last one is as new. At
capacity the oldest gives way. -/
def appendSample? (capacity : Nat) (kept : List Sample) (r : Reading) : Option (List Sample) :=
  if kept.getLast?.any (fun last => r.time ≤ last.time) then none
  else some ((if capacity ≤ kept.length then kept.drop 1 else kept) ++ [.ofReading r])

/-- The samples kept for each GPU, oldest first. -/
structure History where
  capacity : Nat
  samples : Std.ExtTreeMap String (List Sample)
  capacity_pos : 0 < capacity := by omega

namespace History

def empty (capacity : Nat) : History where
  capacity := max capacity 1
  samples := ∅
  capacity_pos := Nat.le_max_right capacity 1

def kept (h : History) (key : String) : List Sample := h.samples[key]?.getD []

def observe (h : History) (key : String) (r : Reading) : Nat × History :=
  match appendSample? h.capacity (h.kept key) r with
  | none => (0, h)
  | some kept => (1, { h with samples := h.samples.insert key kept })

def observeAll (h : History) : List (String × Reading) → Nat × History
  | [] => (0, h)
  | (key, r) :: rest =>
    let (n, h) := h.observe key r
    let (m, h) := h.observeAll rest
    (n + m, h)

def retain (h : History) (keys : List String) : History :=
  { h with samples := h.samples.filter fun key _ => keys.contains key }

/-- Takes up a snapshot: its readings are observed in order, and GPUs that it lacks are
forgotten. -/
def record (h : History) (groups : List Group) : Nat × History :=
  let seen := observations groups
  let (added, h) := h.observeAll seen
  (added, h.retain (seen.map (·.1)))

def gpuCount (h : History) : Nat := h.samples.size

def maxLength (h : History) : Nat :=
  (h.samples.toList.map (·.2.length)).foldl max 0

def series (h : History) (metric : Metric) : List Series :=
  h.samples.toList.map fun (key, samples) =>
    ⟨key, 0, samples.map fun s => ⟨s.time, s.value metric⟩⟩

end History

end PoolWatch
