import PoolWatch.Pool
/-!
# Metrics

The readings of a GPU that are followed over time.
-/

namespace PoolWatch

inductive Metric where
  | gpuUtilization
  | memoryUtilization
  | memoryUsed
  | temperature
  | memoryTemperature
  | fanSpeed
  | powerDraw
  | graphicsClock
  deriving DecidableEq, Repr

namespace Metric

def all : List Metric :=
  [gpuUtilization, memoryUtilization, memoryUsed, temperature, memoryTemperature, fanSpeed,
    powerDraw, graphicsClock]

theorem mem_all (m : Metric) : m ∈ all := by cases m <;> decide

def label : Metric → String
  | gpuUtilization => "GPU utilization (%)"
  | memoryUtilization => "Memory utilization (%)"
  | memoryUsed => "Memory used (MB)"
  | temperature => "Temperature (°C)"
  | memoryTemperature => "Memory temperature (°C)"
  | fanSpeed => "Fan speed (%)"
  | powerDraw => "Power draw (W)"
  | graphicsClock => "Graphics clock (MHz)"

def value : Metric → Gpu → Float
  | gpuUtilization, gpu => gpu.utilization
  | memoryUtilization, gpu => gpu.memoryUtilization
  | memoryUsed, gpu => gpu.memoryUsed
  | temperature, gpu => gpu.temperature
  | memoryTemperature, gpu => gpu.memoryTemperature
  | fanSpeed, gpu => gpu.fanSpeed
  | powerDraw, gpu => gpu.powerDraw
  | graphicsClock, gpu => gpu.graphicsClock

/-- The fixed range that a metric is charted over, if it is a percentage. -/
def fixedRange? : Metric → Option (Float × Float)
  | gpuUtilization | memoryUtilization | fanSpeed => some (0, 100)
  | _ => none

end Metric

end PoolWatch
