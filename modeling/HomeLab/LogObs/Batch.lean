/-
  Batches of log metadata and the checkpoints they advance.

  A reader hands over, per source, the events and discards of one query, what
  it says about the source and whether it has caught up.  `Batch.validate`,
  `Checkpoint.validate`, `ReadRequest.validate` and `Status.validate` decide
  which of them are in order; every time in a batch, checkpoint or status that
  is in order is a clock reading.
-/
import HomeLab.Lib.Bytes
import HomeLab.Lib.Calendar

namespace HomeLab

namespace LogObs

def maxAcceptedEvents : ℕ := 512
def maxExaminedEvents : ℕ := 513
def maxProbeEvents : ℕ := 2
def maxCheckpointBytes : ℕ := 16 * 1024
def maxCoverageSegmentsPerCommit : ℕ := 2
def maxSafeInteger : ℕ := 9007199254740991

inductive Source where
  | system
  | application
  deriving DecidableEq, Repr

inductive Severity where
  | trace
  | debug
  | info
  | warn
  | error
  | critical
  | unknown
  deriving DecidableEq, Repr

inductive SupportState where
  | supported
  | disabled
  | unavailable
  | permissionDenied
  | unsupported
  deriving DecidableEq, Repr

/-- `incomplete` is `PARTIAL`. -/
inductive CollectionState where
  | ok
  | incomplete
  | failed
  | notRun
  deriving DecidableEq, Repr

inductive Freshness where
  | current
  | stale
  | unknown
  deriving DecidableEq, Repr

inductive ReasonCode where
  | checkpointReset
  | permissionDenied
  | deadlineExceeded
  | invalidResponse
  | responseTooLarge
  | readerFailed
  | backlogDeferred
  | missedCollection
  | notYetObserved
  | logStorageUnavailable
  | noVisibleJournal
  | logHelperUnavailable
  | logHelperMismatch
  | platformUnsupported
  | logSourcesDisabled
  | sourcePartial
  deriving DecidableEq, Repr

inductive BatchKind where
  | normal
  | resetPending
  | resetEstablished
  deriving DecidableEq, Repr

structure Event where
  observedAt : Instant
  source : Source
  severity : Severity
  eventCode : Bytes
  deriving DecidableEq, Repr

structure DiscardCount where
  discardedAt : Instant
  count : ℕ
  deriving DecidableEq, Repr

structure Batch where
  kind : BatchKind
  source : Source
  expectedRevision : UInt64
  queryStartedAt : Instant
  startedAt : Instant
  finishedAt : Instant
  supportState : SupportState
  collectionState : CollectionState
  reasonCode : Option ReasonCode
  events : List Event
  discards : List DiscardCount
  examinedCount : ℕ
  probeCount : ℕ
  discardedCount : ℕ
  deferred : Bool
  caughtUp : Bool
  nextOpaque : Bytes
  deriving DecidableEq, Repr

structure Checkpoint where
  revision : UInt64
  resetPending : Bool
  opaqueData : Bytes
  previousAttemptAt : Option Instant
  coverageThrough : Option Instant
  deriving DecidableEq, Repr

structure Status where
  supportState : SupportState
  collectionState : CollectionState
  freshness : Freshness
  observedAt : Option Instant
  attemptedAt : Option Instant
  coverageThrough : Option Instant
  reasonCode : Option ReasonCode
  deriving DecidableEq, Repr

structure ReadRequest where
  source : Source
  checkpoint : Checkpoint
  queryStartedAt : Instant
  deriving DecidableEq, Repr

/-! ## Events -/

def validateUTC (value : Instant) : Bool := !(value = 0 || year value < 1 || 9999 < year value)

theorem validateUTC_iff {t : Instant} : validateUTC t = true ↔ ClockReading t := by
  rw [clockReading_iff, validateUTC]
  simp only [Bool.not_eq_true', Bool.or_eq_false_iff, decide_eq_false_iff_not, not_lt, and_assoc]

/-- A decimal numeral of 32 bits without leading zeros. -/
def canonicalUint32 (value : Bytes) : Bool :=
  value.all isDigit && numeral value < 2 ^ 32 && decimal (numeral value) = value

def digits (value : Bytes) : Bool := value.all isDigit && 1 ≤ value.length && value.length ≤ 10

/-- `^WIN_(?:([0-9]{1,10})|([0-9a-f]{32})_([0-9]{1,10}))$`, with the number. -/
def windowsCode (code : Bytes) : Option Bytes :=
  if (ascii "WIN_").isPrefixOf code then
    let rest := code.drop 4
    if digits rest then some rest
    else if (rest.take 32).length = 32 && (rest.take 32).all hexByte &&
        (rest.drop 32).head? = some 95 && digits (rest.drop 33) then
      some (rest.drop 33)
    else none
  else none

def validEventCode (code : Bytes) : Bool :=
  match windowsCode code with
  | some number => canonicalUint32 number
  | none =>
    ((ascii "SYSTEMD_").isPrefixOf code && (code.drop 8).length = 32 &&
      (code.drop 8).all hexByte) ||
    ((ascii "SYSTEMD_PRIORITY_").isPrefixOf code && (code.drop 17).length = 1 &&
      (code.drop 17).all fun b => 48 ≤ b && b ≤ 55)

def Event.validate (e : Event) : Bool :=
  validateUTC e.observedAt && 0 < e.eventCode.length && e.eventCode.length ≤ 64 &&
    validEventCode e.eventCode

/-! ## Batches -/

def validateOrderedTimes (query started finished : Instant) : Bool :=
  validateUTC query && validateUTC started && validateUTC finished &&
    !(started < query || finished < started)

def addSafe (left right : ℕ) : Option ℕ :=
  if maxSafeInteger < left || maxSafeInteger < right || maxSafeInteger - left < right then none
  else some (left + right)

/-- The sum of the discards, each of which is checked. -/
def sumDiscards : List DiscardCount → ℕ → Option ℕ
  | [], discarded => some discarded
  | d :: ds, discarded =>
    if !validateUTC d.discardedAt || d.count = 0 then none
    else (addSafe discarded d.count).bind (sumDiscards ds)

def Batch.validateNativeState (b : Batch) : Bool :=
  match b.supportState, b.collectionState with
  | .supported, .ok => true
  | .supported, .incomplete =>
    (b.kind ≠ .normal && b.reasonCode = some .checkpointReset) ||
      b.reasonCode = some .invalidResponse || b.reasonCode = some .deadlineExceeded ||
      b.reasonCode = some .responseTooLarge || b.reasonCode = some .backlogDeferred
  | .supported, .failed =>
    b.reasonCode = some .deadlineExceeded || b.reasonCode = some .invalidResponse ||
      b.reasonCode = some .responseTooLarge || b.reasonCode = some .readerFailed
  | .unavailable, .failed => b.reasonCode = some .readerFailed
  | .unavailable, .notRun =>
    b.reasonCode = some .noVisibleJournal || b.reasonCode = some .logHelperUnavailable ||
      b.reasonCode = some .logHelperMismatch || b.reasonCode = some .readerFailed
  | .permissionDenied, .notRun => b.reasonCode = some .permissionDenied
  | .unsupported, .notRun => b.reasonCode = some .platformUnsupported
  | _, _ => false

def Batch.validateResetBatch (b : Batch) : Bool :=
  if b.events.length ≠ 0 || b.discards.length ≠ 0 || b.discardedCount ≠ 0 || b.deferred ||
      b.caughtUp then false
  else if b.examinedCount ≠ b.probeCount then false
  else if b.kind = .resetEstablished then
    !(b.probeCount = 0 || maxProbeEvents < b.probeCount || b.nextOpaque.length = 0 ||
      b.reasonCode ≠ some .checkpointReset || b.supportState ≠ .supported ||
      b.collectionState ≠ .incomplete)
  else
    !(maxProbeEvents < b.probeCount || b.nextOpaque.length ≠ 0 || b.collectionState = .ok ||
      b.reasonCode = none)

/-- The checks of a normal batch on its counts. -/
def Batch.validateNormalBatch (b : Batch) (discarded : ℕ) : Bool :=
  let acceptedAndDiscarded := b.events.length + discarded
  !(1 < b.probeCount) &&
  !(maxAcceptedEvents < acceptedAndDiscarded) &&
  b.examinedCount = acceptedAndDiscarded + b.probeCount + (if b.deferred then 1 else 0) &&
  !(b.deferred && b.caughtUp) &&
  !(b.collectionState = .ok && !b.caughtUp) &&
  !(b.collectionState = .ok && b.discardedCount ≠ 0) &&
  !(b.caughtUp && b.collectionState = .incomplete &&
    (b.reasonCode ≠ some .invalidResponse || b.discardedCount = 0)) &&
  !((0 < acceptedAndDiscarded || 0 < b.probeCount) && b.nextOpaque.length = 0) &&
  !(b.caughtUp && b.collectionState = .failed) &&
  !((b.collectionState = .failed || b.collectionState = .notRun) &&
    (b.events.length ≠ 0 || b.discards.length ≠ 0 || b.examinedCount ≠ 0 || b.probeCount ≠ 0 ||
      b.discardedCount ≠ 0 || b.deferred || b.caughtUp || b.nextOpaque.length ≠ 0))

def Batch.validate (b : Batch) : Bool :=
  validateOrderedTimes b.queryStartedAt b.startedAt b.finishedAt &&
  !(maxCheckpointBytes < b.nextOpaque.length) &&
  !(maxAcceptedEvents < b.events.length || maxAcceptedEvents < b.discards.length ||
    maxExaminedEvents < b.examinedCount || maxProbeEvents < b.probeCount) &&
  (if b.collectionState = .ok then b.supportState = .supported && b.reasonCode = none
    else b.reasonCode.isSome) &&
  !(b.collectionState = .incomplete && b.supportState ≠ .supported) &&
  !(b.collectionState = .notRun && b.supportState = .supported) &&
  !(b.supportState ≠ .supported && b.supportState ≠ .unavailable &&
    b.collectionState ≠ .notRun) &&
  b.validateNativeState &&
  (match sumDiscards b.discards 0 with
    | none => false
    | some discarded =>
      discarded = b.discardedCount &&
      b.events.all (fun e => e.validate && e.source = b.source) &&
      (if b.kind ≠ .normal then b.validateResetBatch else b.validateNormalBatch discarded))

/-! ## Checkpoints -/

def Checkpoint.validate (c : Checkpoint) : Bool :=
  !(maxCheckpointBytes < c.opaqueData.length) &&
  !(c.resetPending && c.opaqueData.length ≠ 0) &&
  !(c.resetPending && c.revision = 0) &&
  !(0 < c.revision && c.previousAttemptAt = none) &&
  !(c.revision = 0 && (c.opaqueData.length ≠ 0 || c.previousAttemptAt ≠ none ||
    c.coverageThrough ≠ none)) &&
  c.previousAttemptAt.all validateUTC &&
  c.coverageThrough.all fun coverage =>
    validateUTC coverage && c.previousAttemptAt.any fun previous => coverage ≤ previous

def ReadRequest.validate (r : ReadRequest) : Bool :=
  r.checkpoint.validate && validateUTC r.queryStartedAt &&
  r.checkpoint.previousAttemptAt.all (· < r.queryStartedAt) &&
  r.checkpoint.coverageThrough.all (· ≤ r.queryStartedAt)

/-! ## Status -/

def Status.validate (s : Status) : Bool :=
  s.observedAt.all validateUTC && s.attemptedAt.all validateUTC &&
  s.coverageThrough.all validateUTC &&
  (if s.freshness = .current || s.freshness = .stale then s.observedAt.isSome
    else s.observedAt.isNone) &&
  !(s.coverageThrough.isSome && s.observedAt.isNone) &&
  !(s.observedAt.isSome && s.attemptedAt.isNone) &&
  (s.coverageThrough.all fun coverage => s.observedAt.all (coverage ≤ ·)) &&
  (s.observedAt.all fun observed => s.attemptedAt.all (observed ≤ ·)) &&
  (s.coverageThrough.all fun coverage => s.attemptedAt.all (coverage ≤ ·)) &&
  (if s.collectionState = .ok then
      !(s.supportState ≠ .supported || s.reasonCode.isSome || s.observedAt.isNone ||
        s.attemptedAt.isNone || s.freshness = .unknown)
    else s.reasonCode.isSome) &&
  !(s.collectionState = .incomplete && s.supportState ≠ .supported) &&
  !(s.collectionState = .notRun && s.supportState = .supported) &&
  !(s.supportState ≠ .supported && s.supportState ≠ .unavailable &&
    s.collectionState ≠ .notRun) &&
  !(s.supportState ≠ .supported && s.collectionState = .notRun &&
    (s.freshness ≠ .unknown || s.observedAt.isSome)) &&
  !(s.collectionState = .failed && s.freshness = .current)

/-- The status of a source after a batch. -/
def statusAfterBatch (batch : Batch) (previous : Option Status) : Status :=
  let status : Status :=
    { supportState := batch.supportState
      collectionState := batch.collectionState
      freshness := .unknown
      observedAt := none
      attemptedAt := some batch.queryStartedAt
      coverageThrough := none
      reasonCode := batch.reasonCode }
  if batch.kind = .normal && (batch.caughtUp || 0 < batch.events.length) then
    { status with
      observedAt := some batch.queryStartedAt
      freshness := .current
      coverageThrough :=
        if batch.caughtUp then some batch.queryStartedAt
        else (previous.bind (·.coverageThrough)).filter (· ≤ batch.queryStartedAt) }
  else if (batch.supportState = .supported &&
        (batch.collectionState = .incomplete || batch.collectionState = .failed)) ||
      (batch.supportState = .unavailable && batch.collectionState = .failed) then
    match (previous.bind (·.observedAt)).filter (· ≤ batch.queryStartedAt) with
    | some observed =>
      { status with
        observedAt := some observed
        coverageThrough := previous.bind (·.coverageThrough)
        freshness := .stale }
    | none => status
  else status

/-! ## Reasons -/

/-- The precedence of the reasons that coverage may carry. -/
def historicalReasonRank : ReasonCode → Option ℕ
  | .checkpointReset => some 0
  | .permissionDenied => some 1
  | .deadlineExceeded => some 2
  | .invalidResponse => some 3
  | .responseTooLarge => some 4
  | .readerFailed => some 5
  | .backlogDeferred => some 6
  | .missedCollection => some 7
  | .notYetObserved => some 8
  | _ => none

/-! ## Counts -/

@[ext] structure SeverityCounts where
  trace : ℕ := 0
  debug : ℕ := 0
  info : ℕ := 0
  warn : ℕ := 0
  error : ℕ := 0
  critical : ℕ := 0
  unknown : ℕ := 0
  deriving DecidableEq, Repr

@[ext] structure BucketCounts where
  captured : ℕ := 0
  discarded : ℕ := 0
  severity : SeverityCounts := {}
  deriving DecidableEq, Repr

/-- The events of all severities. -/
def SeverityCounts.total (s : SeverityCounts) : ℕ :=
  s.trace + s.debug + s.info + s.warn + s.error + s.critical + s.unknown

instance : Add SeverityCounts where
  add a b := ⟨a.trace + b.trace, a.debug + b.debug, a.info + b.info, a.warn + b.warn,
    a.error + b.error, a.critical + b.critical, a.unknown + b.unknown⟩

instance : Add BucketCounts where
  add a b := ⟨a.captured + b.captured, a.discarded + b.discarded, a.severity + b.severity⟩

instance : Zero BucketCounts := ⟨{}⟩

theorem SeverityCounts.add_def (a b : SeverityCounts) :
    a + b = ⟨a.trace + b.trace, a.debug + b.debug, a.info + b.info, a.warn + b.warn,
      a.error + b.error, a.critical + b.critical, a.unknown + b.unknown⟩ := rfl

@[simp] theorem BucketCounts.captured_add (a b : BucketCounts) :
    (a + b).captured = a.captured + b.captured := rfl

@[simp] theorem BucketCounts.discarded_add (a b : BucketCounts) :
    (a + b).discarded = a.discarded + b.discarded := rfl

@[simp] theorem BucketCounts.severity_add (a b : BucketCounts) :
    (a + b).severity = a.severity + b.severity := rfl

theorem BucketCounts.zero_def : (0 : BucketCounts) = {} := rfl

instance : AddCommMonoid BucketCounts where
  add_assoc a b c := by
    ext <;> simp [SeverityCounts.add_def, Nat.add_assoc]
  zero_add a := by
    ext <;> simp [BucketCounts.zero_def, SeverityCounts.add_def]
  add_zero a := by
    ext <;> simp [BucketCounts.zero_def, SeverityCounts.add_def]
  add_comm a b := by
    ext <;> simp [SeverityCounts.add_def, Nat.add_comm]
  nsmul := nsmulRec

/-- One event of the severity. -/
def Severity.counts : Severity → SeverityCounts
  | .trace => { trace := 1 }
  | .debug => { debug := 1 }
  | .info => { info := 1 }
  | .warn => { warn := 1 }
  | .error => { error := 1 }
  | .critical => { critical := 1 }
  | .unknown => { unknown := 1 }

/-- What a batch adds to the counts, with the time it belongs to. -/
def Batch.contributions (b : Batch) : List (Instant × BucketCounts) :=
  b.events.map (fun e => (e.observedAt, { captured := 1, severity := e.severity.counts })) ++
    b.discards.map fun d => (d.discardedAt, { discarded := d.count })

end LogObs

end HomeLab
