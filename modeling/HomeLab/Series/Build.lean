/-
  Published metric series.

  `buildMetric` reads the raw and rollup rows of a window and lays them on a grid
  of buckets: one point per bucket, a gap where nothing was collected, and what
  the rows say about freshness.
-/
import Mathlib.Data.Rat.Floor
import HomeLab.History.Rollups

namespace HomeLab

namespace Series

open History

/-! ## Ranges and series -/

inductive Range where
  | hour1
  | hours6
  | hours24
  | days7
  deriving DecidableEq, Repr

structure RangeConfig where
  duration : Duration
  resolution : Duration

def ranges : Range → RangeConfig
  | .hour1 => ⟨hour, 15 * second⟩
  | .hours6 => ⟨6 * hour, minute⟩
  | .hours24 => ⟨24 * hour, 5 * minute⟩
  | .days7 => ⟨7 * 24 * hour, 30 * minute⟩

def windowStart (range : Range) (now : Instant) : Instant :=
  truncate now (ranges range).resolution - (ranges range).duration

def maxPointsPerSeries : ℕ := 2048

inductive MetricUnit where
  | percent
  | bytesPerSecond
  | count
  deriving DecidableEq, Repr

def metricMetadata : MetricID → MetricUnit
  | .cpuUtilization | .memoryUtilization | .filesystemUtilization => .percent
  | .networkReceiveRate | .networkTransmitRate => .bytesPerSecond
  | .processCount => .count

inductive CollectionState where
  | notRun
  | ok
  | incomplete
  deriving DecidableEq, Repr

inductive Freshness where
  | unknown
  | current
  | stale
  deriving DecidableEq, Repr

inductive SeriesReason where
  | noSamples
  | collectionGaps
  | latestSampleStale
  deriving DecidableEq, Repr

structure Point where
  instant : Instant
  value : Option ℚ
  deriving DecidableEq

structure MetricSeries where
  metric : MetricID
  unit : MetricUnit
  collectionState : CollectionState := .notRun
  freshness : Freshness := .unknown
  reasonCode : Option SeriesReason := none
  pointCount : ℕ := 0
  gapCount : ℕ := 0
  truncated : Bool := false
  points : List Point := []
  deriving DecidableEq

inductive SeriesError where
  | pointBoundExceeded
  deriving DecidableEq, Repr

/-! ## Buckets -/

/-- The rows added to a bucket; `lastAt` is zero in an empty one. -/
structure Bucket where
  count : ℕ := 0
  sum : ℚ := 0
  last : ℚ := 0
  lastAt : Instant := 0
  deriving DecidableEq

def bucketIndex (start : Instant) (resolution : Duration) (t : Instant) : ℤ :=
  (timeSub t start).tdiv resolution

def Bucket.take (b : Bucket) (row : Tally Instant ℚ) : Bucket where
  count := b.count + row.count
  sum := b.sum + row.total
  last := if b.lastAt = 0 ∨ b.lastAt < row.lastAt then row.last else b.last
  lastAt := if b.lastAt = 0 ∨ b.lastAt < row.lastAt then row.lastAt else b.lastAt

/-- A row at `t` goes to its bucket, or nowhere outside of the grid. -/
def add (start : Instant) (resolution : Duration) (buckets : List Bucket) (t : Instant)
    (row : Tally Instant ℚ) : List Bucket :=
  let index := bucketIndex start resolution t
  if index < 0 ∨ (buckets.length : ℤ) ≤ index ∨ row.count < 1 then buckets
  else buckets.modify index.toNat fun b => b.take row

/-- `math.Round`: half away from zero. -/
def round (q : ℚ) : ℤ := if 0 ≤ q then ⌊q + 1 / 2⌋ else -⌊-q + 1 / 2⌋

def Bucket.value (metric : MetricID) (b : Bucket) : Option ℚ :=
  if b.count = 0 then none
  else if metric = .processCount then some (round b.last)
  else some (b.sum / b.count)

def later (latest t : Instant) : Instant := if latest < t then t else latest

/-! ## The series -/

def bucketsOf (start : Instant) (resolution : Duration) (count : ℕ) (raw : List Sample)
    (rollups : List Rollup) : List Bucket :=
  let buckets := raw.foldl (fun bs s => add start resolution bs s.instant s.tally)
    (List.replicate count {})
  rollups.foldl (fun bs r => add start resolution bs r.bucketStart r.tally) buckets

def latestOf (raw : List Sample) (rollups : List Rollup) : Instant :=
  rollups.foldl (fun t r => later t r.lastAt) (raw.foldl (fun t s => later t s.instant) 0)

/-- What the buckets and the latest time say. -/
def publish (metric : MetricID) (start stop : Instant) (resolution : Duration)
    (buckets : List Bucket) (latest : Instant) (truncated : Bool) : MetricSeries :=
  let gapCount := buckets.countP fun b => b.count = 0
  let gaps := 0 < gapCount || truncated
  let stale := 45 * second < timeSub stop latest
  { metric := metric
    unit := metricMetadata metric
    collectionState := if gaps then .incomplete else .ok
    freshness := if stale then .stale else .current
    reasonCode :=
      if gaps then some .collectionGaps else if stale then some .latestSampleStale else none
    pointCount := buckets.length
    gapCount := gapCount
    truncated := truncated
    points := buckets.mapIdx fun i b => ⟨start + i * resolution, b.value metric⟩ }

def buildMetric (db : Database) (metric : MetricID) (start stop : Instant)
    (resolution : Duration) : Except SeriesError MetricSeries :=
  let (raw, rollups) := readMetric db metric start stop 10000
  if raw.isEmpty && rollups.isEmpty then
    .ok { metric := metric, unit := metricMetadata metric, reasonCode := some .noSamples }
  else
    let bucketCount := (timeSub stop start).tdiv resolution + 1
    if maxPointsPerSeries < bucketCount then .error .pointBoundExceeded
    else
      .ok (publish metric start stop resolution
        (bucketsOf start resolution bucketCount.toNat raw rollups) (latestOf raw rollups)
        (raw.length = 10000 || rollups.length = 10000))

end Series

end HomeLab
