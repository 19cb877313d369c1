import PoolWatch.Json.Record
/-!
# Pool reports

What the backend reports: groups of workstations as a JSON text. Every record is described once
by its fields, in the order in which they stand when it is written as a list.
-/

namespace PoolWatch.Report

open PoolWatch.Json

structure Gpu where
  uuid : String
  gpuName : String
  gpuBrand : String
  driverVer : String
  memoryTotal : Float
  memoryUtil : Float
  gpuUtil : Float
  memoryUsed : Float
  fanSpeed : Float
  gpuTemp : Float
  memoryTemp : Float
  graphicsVoltage : Float
  powerDraw : Float
  graphicsClock : Float
  maxGraphicsClock : Float
  memoryClock : Float
  maxMemoryClock : Float
  inUse : Bool
  user : Option String
  deriving DecidableEq

structure Workstation where
  name : String
  cpu : String
  motherboard : String
  notes : String
  owner : String
  lastSeen : Nat
  gpus : List Gpu
  deriving DecidableEq

structure Group where
  name : String
  workstations : List Workstation
  deriving DecidableEq

/-! ## The records -/

def gpuShape : Shape where
  name := "RawGpu"
  fields :=
    [⟨"uuid", .text, true⟩,
     ⟨"gpu_name", .text, true⟩,
     ⟨"gpu_brand", .text, true⟩,
     ⟨"driver_ver", .text, true⟩,
     ⟨"memory_total", .amount, true⟩,
     ⟨"memory_util", .amount, true⟩,
     ⟨"gpu_util", .amount, true⟩,
     ⟨"memory_used", .amount, true⟩,
     ⟨"fan_speed", .amount, true⟩,
     ⟨"gpu_temp", .amount, true⟩,
     ⟨"memory_temp", .amount, true⟩,
     ⟨"graphics_voltage", .amount, true⟩,
     ⟨"power_draw", .amount, true⟩,
     ⟨"graphics_clock", .amount, true⟩,
     ⟨"max_graphics_clock", .amount, true⟩,
     ⟨"memory_clock", .amount, true⟩,
     ⟨"max_memory_clock", .amount, true⟩,
     ⟨"in_use", .flag, true⟩,
     ⟨"user", .optionalText, false⟩]

def workstationShape : Shape where
  name := "RawWorkstation"
  fields :=
    [⟨"name", .text, true⟩,
     ⟨"cpu", .text, true⟩,
     ⟨"motherboard", .text, true⟩,
     ⟨"notes", .text, false⟩,
     ⟨"owner", .text, true⟩,
     ⟨"last_seen", .count, true⟩,
     ⟨"gpus", .list, true⟩]

def groupShape : Shape where
  name := "RawGroup"
  fields := [⟨"name", .text, true⟩, ⟨"workstations", .list, true⟩]

def gpuOfRow : Row Empty gpuShape.fields → Gpu
  | (uuid, gpuName, gpuBrand, driverVer, memoryTotal, memoryUtil, gpuUtil, memoryUsed, fanSpeed,
      gpuTemp, memoryTemp, graphicsVoltage, powerDraw, graphicsClock, maxGraphicsClock,
      memoryClock, maxMemoryClock, inUse, user, ()) =>
    { uuid, gpuName, gpuBrand, driverVer, memoryTotal, memoryUtil, gpuUtil, memoryUsed, fanSpeed,
      gpuTemp, memoryTemp, graphicsVoltage, powerDraw, graphicsClock, maxGraphicsClock,
      memoryClock, maxMemoryClock, inUse, user }

def workstationOfRow : Row Gpu workstationShape.fields → Workstation
  | (name, cpu, motherboard, notes, owner, lastSeen, gpus, ()) =>
    { name, cpu, motherboard, notes, owner, lastSeen, gpus }

def groupOfRow : Row Workstation groupShape.fields → Group
  | (name, workstations, ()) => { name, workstations }

/-! ## Reading -/

def noElement : Reader Empty := fun _ => .error .expectedValue

def readGpu : Reader Gpu := fun text =>
  (gpuShape.read noElement text).map fun (row, rest) => (gpuOfRow row, rest)

def readWorkstation : Reader Workstation := fun text =>
  (workstationShape.read readGpu text).map fun (row, rest) => (workstationOfRow row, rest)

def readGroup : Reader Group := fun text =>
  (groupShape.read readWorkstation text).map fun (row, rest) => (groupOfRow row, rest)

def parse (text : List UInt8) : Except Problem (List Group) :=
  readAll (readList readGroup) text

end PoolWatch.Report
