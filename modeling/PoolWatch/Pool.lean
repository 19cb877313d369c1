/-!
# Pools of workstations

A pool is a list of administrative groups; a group has workstations, a workstation has GPUs. A
workstation is free while none of its GPUs is in use.
-/

namespace PoolWatch

/-- Memory is in megabytes and its use in percent, like the utilization and the speed of the fan.
Temperatures are in degrees Celsius, the voltage in millivolts, the power in watts, and clocks in
megahertz. -/
structure Gpu where
  uuid : String
  model : String
  brand : String
  driver : String
  memoryTotal : Float
  memoryUtilization : Float
  utilization : Float
  memoryUsed : Float
  fanSpeed : Float
  temperature : Float
  memoryTemperature : Float
  voltage : Float
  powerDraw : Float
  graphicsClock : Float
  maxGraphicsClock : Float
  memoryClock : Float
  maxMemoryClock : Float
  inUse : Bool
  user : Option String
  deriving DecidableEq

structure Workstation where
  name : String
  cpu : String
  motherboard : String
  notes : String
  owner : String
  lastSeenSeconds : Float
  gpus : List Gpu
  /-- None of the GPUs is in use. -/
  free : Bool
  deriving DecidableEq

structure Group where
  name : String
  workstations : List Workstation
  deriving DecidableEq

def Group.freeCount (g : Group) : Nat := g.workstations.countP (·.free)

def Group.gpuCount (g : Group) : Nat := (g.workstations.flatMap (·.gpus)).length

end PoolWatch
