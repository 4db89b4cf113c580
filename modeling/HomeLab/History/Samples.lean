/-
  The tables of host metrics.

  Raw samples and rollups of the six metrics, in the order in which retention
  visits them: by time, then by metric.  Values are exact.
-/
import Mathlib.Data.Prod.Lex
import Mathlib.Data.Rat.Defs
import HomeLab.Lib.Calendar
import HomeLab.Lib.Keyed

namespace HomeLab

namespace History

inductive MetricID where
  | cpuUtilization
  | memoryUtilization
  | filesystemUtilization
  | networkReceiveRate
  | networkTransmitRate
  | processCount
  deriving DecidableEq, Repr

/-- The place of a metric among the metrics sorted by name. -/
def MetricID.rank : MetricID → ℕ
  | cpuUtilization => 0
  | filesystemUtilization => 1
  | memoryUtilization => 2
  | networkReceiveRate => 3
  | networkTransmitRate => 4
  | processCount => 5

theorem MetricID.rank_injective : Function.Injective MetricID.rank := by
  intro a b h
  cases a <;> cases b <;> first | rfl | cases h

instance : LinearOrder MetricID := LinearOrder.lift' MetricID.rank MetricID.rank_injective

/-- 1970-01-01T00:00:00Z. -/
def unixEpoch : Instant := 62135596800 * second

structure Sample where
  metric : MetricID
  observedAtNs : ℤ
  value : ℚ
  deriving DecidableEq

structure Rollup where
  metric : MetricID
  bucketStartNs : ℤ
  resolutionSeconds : ℤ
  sampleCount : ℕ
  minimum : ℚ
  maximum : ℚ
  total : ℚ
  lastValue : ℚ
  lastAtNs : ℤ
  deriving DecidableEq

/-- The primary key of a sample, ordered by time first. -/
def Sample.key (s : Sample) : ℤ ×ₗ MetricID := toLex (s.observedAtNs, s.metric)

/-- The primary key of a rollup, ordered by time first. -/
def Rollup.key (r : Rollup) : ℤ ×ₗ MetricID ×ₗ ℤ :=
  toLex (r.bucketStartNs, toLex (r.metric, r.resolutionSeconds))

end History

end HomeLab
