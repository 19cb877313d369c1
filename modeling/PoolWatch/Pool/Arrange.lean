import PoolWatch.Pool
import PoolWatch.Report
/-!
# The arrangement of a pool

The shared group comes first and the others follow by name. In a group the free workstations
come before the busy ones, each part by name, and a workstation's GPUs are in the order of their
ids. Names are compared by code points, and equal ones keep the order of the report.
-/

namespace PoolWatch.Pool

def sharedName : String := "Shared"

/-- The elements in the order of a text each of them has; equal ones keep their order. -/
def sortBy {α : Type} (key : α → String) (xs : List α) : List α :=
  xs.mergeSort fun a b => decide (key a ≤ key b)

/-- The shared group goes before every other, others go by name. -/
def groupLe (a b : Group) : Bool :=
  if a.name = sharedName then true
  else if b.name = sharedName then false
  else decide (a.name ≤ b.name)

def nanosPerSecond : Float := 1e9

def gpuOfReport (g : Report.Gpu) : Gpu where
  uuid := g.uuid
  model := g.gpuName
  brand := g.gpuBrand
  driver := g.driverVer
  memoryTotal := g.memoryTotal
  memoryUtilization := g.memoryUtil
  utilization := g.gpuUtil
  memoryUsed := g.memoryUsed
  fanSpeed := g.fanSpeed
  temperature := g.gpuTemp
  memoryTemperature := g.memoryTemp
  voltage := g.graphicsVoltage
  powerDraw := g.powerDraw
  graphicsClock := g.graphicsClock
  maxGraphicsClock := g.maxGraphicsClock
  memoryClock := g.memoryClock
  maxMemoryClock := g.maxMemoryClock
  inUse := g.inUse
  user := g.user

def arrangeWorkstation (w : Report.Workstation) : Workstation :=
  let gpus := sortBy (·.uuid) (w.gpus.map gpuOfReport)
  { name := w.name
    cpu := w.cpu
    motherboard := w.motherboard
    notes := w.notes
    owner := w.owner
    lastSeenSeconds := Float.ofNat w.lastSeen / nanosPerSecond
    gpus
    free := !gpus.any (·.inUse) }

def freeFirst (ws : List Workstation) : List Workstation :=
  ws.filter (·.free) ++ ws.filter (!·.free)

def arrangeGroup (g : Report.Group) : Group where
  name := g.name
  workstations := freeFirst (sortBy (·.name) (g.workstations.map arrangeWorkstation))

def arrange (groups : List Report.Group) : List Group :=
  (groups.map arrangeGroup).mergeSort groupLe

end PoolWatch.Pool
