/-
  Summaries of the log sources.

  A summary counts the events of each source in the buckets of a fixed grid and
  says for how many seconds of each bucket the log was read completely.
  `Summary.validate` decides which summaries are in order, `Snapshot.validate`
  which snapshots of the latest events are.
-/
import HomeLab.LogObs.Batch

namespace HomeLab

namespace LogObs

def maxSources : ℕ := 2
def maxRecentEvents : ℕ := 200
def maxSummaryBuckets : ℤ := 168

/-- `incomplete` is `PARTIAL`. -/
inductive CoverageState where
  | full
  | incomplete
  | gap
  | unknown
  deriving DecidableEq, Repr

structure SummaryQuery where
  windowStart : Instant
  windowEnd : Instant
  bucketInterval : Duration
  bucketCount : ℤ
  deriving DecidableEq, Repr

structure Counts where
  captured : ℕ
  discarded : ℕ
  deriving DecidableEq, Repr

structure SummaryBucket where
  startsAt : Instant
  coverageState : CoverageState
  coveredSeconds : ℕ
  reasonCode : Option ReasonCode
  counts : Option BucketCounts
  deriving DecidableEq, Repr

structure SourceSummary where
  source : Source
  status : Status
  coverageState : CoverageState
  coveredSeconds : ℕ
  counts : Option Counts
  buckets : List SummaryBucket
  deriving DecidableEq, Repr

structure Summary extends SummaryQuery where
  sources : List SourceSummary
  deriving DecidableEq, Repr

structure Snapshot where
  status : Status
  totalCount : ℕ
  events : List Event
  deriving DecidableEq, Repr

/-! ## Queries -/

/-- The nanoseconds of an instant within its second. -/
def nanosecond (t : Instant) : ℤ := t % second

/-- The seconds since 1970, rounded down. -/
def unix (t : Instant) : ℤ := t / second - 62135596800

def SummaryQuery.validate (q : SummaryQuery) : Bool :=
  validateUTC q.windowStart && validateUTC q.windowEnd && q.windowStart < q.windowEnd &&
  ((q.bucketInterval = minute && q.bucketCount = 60) ||
    (q.bucketInterval = 5 * minute && q.bucketCount = 72) ||
    (q.bucketInterval = 15 * minute && q.bucketCount = 96) ||
    (q.bucketInterval = hour && q.bucketCount = 168)) &&
  q.bucketCount ≤ maxSummaryBuckets &&
  timeSub q.windowEnd q.windowStart = q.bucketCount * q.bucketInterval &&
  nanosecond q.windowStart = 0 && nanosecond q.windowEnd = 0 &&
  unix q.windowStart % (q.bucketInterval / second) = 0 &&
  unix q.windowEnd % (q.bucketInterval / second) = 0

/-! ## Buckets -/

def isGapReason (reason : Option ReasonCode) : Bool :=
  reason.any fun r => r ≠ .notYetObserved && (historicalReasonRank r).isSome

def isHistoricalReason (reason : Option ReasonCode) : Bool :=
  reason.any fun r => (historicalReasonRank r).isSome

/-- The sum of counts, as long as it is safe. -/
def sumSafe : List ℕ → ℕ → Option ℕ
  | [], total => some total
  | n :: ns, total => (addSafe total n).bind (sumSafe ns)

def SeverityCounts.values (s : SeverityCounts) : List ℕ :=
  [s.trace, s.debug, s.info, s.warn, s.error, s.critical, s.unknown]

def validateBucketCounts (counts : BucketCounts) : Bool :=
  (counts.captured :: counts.discarded :: counts.severity.values).all (· ≤ maxSafeInteger) &&
    sumSafe counts.severity.values 0 = some counts.captured

def validateSummaryBucket (bucket : SummaryBucket) (intervalSeconds : ℕ) : Bool :=
  (match bucket.coverageState with
    | .full =>
      bucket.coveredSeconds = intervalSeconds && bucket.reasonCode = none && bucket.counts.isSome
    | .incomplete =>
      bucket.coveredSeconds ≠ 0 && bucket.coveredSeconds < intervalSeconds &&
        isHistoricalReason bucket.reasonCode && bucket.counts.isSome
    | .gap => bucket.coveredSeconds = 0 && isGapReason bucket.reasonCode
    | .unknown => bucket.coveredSeconds = 0 && bucket.reasonCode = some .notYetObserved) &&
  bucket.counts.all fun counts =>
    validateBucketCounts counts &&
      !((bucket.coverageState = .gap || bucket.coverageState = .unknown) &&
        counts.captured = 0 && counts.discarded = 0)

/-! ## Source summaries -/

def aggregateCoverage (states : List CoverageState) : CoverageState :=
  if states = [] then .unknown
  else if states.all (· = .full) then .full
  else if states.all (· = .unknown) then .unknown
  else if states.any (· = .gap) && states.all fun s => s ≠ .full && s ≠ .incomplete then .gap
  else .incomplete

/-- The counts of a bucket added to those of the buckets before it. -/
def addCounts (totals : Option Counts) (counts : Option BucketCounts) : Option (Option Counts) :=
  match counts with
  | none => some totals
  | some counts =>
    let totals := totals.getD ⟨0, 0⟩
    (addSafe totals.captured counts.captured).bind fun captured =>
      (addSafe totals.discarded counts.discarded).bind fun discarded =>
        some (some ⟨captured, discarded⟩)

/-- The covered seconds and the counts of the buckets from index `i` on, each of
    which is checked. -/
def sumBuckets (query : SummaryQuery) :
    ℕ → List SummaryBucket → ℕ → Option Counts → Option (ℕ × Option Counts)
  | _, [], covered, totals => some (covered, totals)
  | i, bucket :: buckets, covered, totals =>
    if bucket.startsAt ≠ query.windowStart + i * query.bucketInterval then none
    else if !validateSummaryBucket bucket (query.bucketInterval / second).toNat then none
    else
      (addSafe covered bucket.coveredSeconds).bind fun covered =>
        (addCounts totals bucket.counts).bind (sumBuckets query (i + 1) buckets covered)

/-- The states and reasons that a source itself may be in. -/
def validateSourceStatus (status : Status) : Bool :=
  match status.supportState, status.collectionState with
  | .supported, .ok => status.reasonCode = none
  | .supported, .incomplete =>
    status.reasonCode = some .checkpointReset || status.reasonCode = some .invalidResponse ||
      status.reasonCode = some .deadlineExceeded || status.reasonCode = some .responseTooLarge ||
      status.reasonCode = some .backlogDeferred
  | .supported, .failed =>
    status.reasonCode = some .deadlineExceeded || status.reasonCode = some .invalidResponse ||
      status.reasonCode = some .responseTooLarge || status.reasonCode = some .readerFailed ||
      status.reasonCode = some .logStorageUnavailable
  | .unavailable, .notRun =>
    status.reasonCode = some .noVisibleJournal || status.reasonCode = some .logHelperUnavailable ||
      status.reasonCode = some .logHelperMismatch || status.reasonCode = some .readerFailed
  | .unavailable, .failed =>
    status.reasonCode = some .readerFailed || status.reasonCode = some .logStorageUnavailable
  | .permissionDenied, .notRun => status.reasonCode = some .permissionDenied
  | .unsupported, .notRun => status.reasonCode = some .platformUnsupported
  | _, _ => false

/-- The checks of a source summary on its buckets. -/
def validateSourceBuckets (source : SourceSummary) (query : SummaryQuery) : Bool :=
  source.buckets.length = query.bucketCount &&
  sumBuckets query 0 source.buckets 0 none = some (source.coveredSeconds, source.counts) &&
  source.coverageState = aggregateCoverage (source.buckets.map (·.coverageState))

def validateSourceSummary (source : SourceSummary) (query : SummaryQuery) : Bool :=
  source.status.validate && validateSourceStatus source.status && validateSourceBuckets source query

/-! ## Summaries and snapshots -/

def sourceRank : Source → ℕ
  | .system => 0
  | .application => 1

/-- The sources from one on: `previous` is the rank of the source before it, the
    counts are those of all sources before it. -/
def validateSources (query : SummaryQuery) :
    List SourceSummary → Option ℕ → ℕ → ℕ → Bool
  | [], _, _, _ => true
  | s :: sources, previous, captured, discarded =>
    previous.all (· < sourceRank s.source) && validateSourceSummary s query &&
    match s.counts with
    | none => validateSources query sources (some (sourceRank s.source)) captured discarded
    | some counts =>
      match addSafe captured counts.captured, addSafe discarded counts.discarded with
      | some captured, some discarded =>
        validateSources query sources (some (sourceRank s.source)) captured discarded
      | _, _ => false

def Summary.validate (s : Summary) : Bool :=
  s.toSummaryQuery.validate && s.sources.length ≤ maxSources &&
    validateSources s.toSummaryQuery s.sources none 0 0

def Snapshot.validate (s : Snapshot) : Bool :=
  s.status.validate && s.totalCount ≤ maxRecentEvents && s.totalCount = s.events.length &&
    s.events.all Event.validate &&
    (s.events.zip s.events.tail).all fun p => p.2.observedAt ≤ p.1.observedAt

end LogObs

end HomeLab
