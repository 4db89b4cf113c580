/-
  The collector of log metadata.

  A collector keeps the latest status of each source, an overlay for a source
  whose last attempt failed at the store, and the most recent events.
  `collectOnce` loads the checkpoints, reads every source and then commits what
  was read; `current` and `summary` show the state to others.
-/
import HomeLab.Lib.Interaction
import HomeLab.Lib.Ranking
import HomeLab.LogObs.Status

namespace HomeLab

namespace LogObs

/-! ## State -/

/-- The check of `New` on the ranks of the sources. -/
def orderedSources : Option ℕ → List Source → Bool
  | _, [] => true
  | previous, source :: sources =>
    previous.all (· < sourceRank source) && orderedSources (some (sourceRank source)) sources

/-- The sources that `New` accepts. -/
def validSources (sources : List Source) : Bool :=
  !(maxSources < sources.length) && orderedSources none sources

structure Collector where
  latest : Source → Option Status := fun _ => none
  overlays : Source → Option Status := fun _ => none
  events : List Event := []

/-- Newest first; events of one time in the order in which they were committed. -/
def newestFirst (events : List Event) : List Event := ranked Event.observedAt events

def Collector.recordCommit (c : Collector) (batch : Batch) : Collector :=
  let c : Collector :=
    { c with
      latest := Function.update c.latest batch.source
        (some (statusAfterBatch batch (c.latest batch.source)))
      overlays := Function.update c.overlays batch.source none }
  if batch.events.length = 0 then c
  else
    let events := newestFirst (c.events ++ batch.events)
    { c with
      events := if maxRecentEvents < events.length then events.take maxRecentEvents else events }

def Collector.recordStorageFailure (c : Collector) (source : Source) (attemptedAt : Instant)
    (attempted : Option Batch) : Collector :=
  let status := storageFailureStatus (c.latest source) attemptedAt attempted
  { c with
    latest := Function.update c.latest source (some status)
    overlays := Function.update c.overlays source (some status) }

/-! ## What a collector shows -/

/-- A source that has not been tried yet. -/
def notYetObserved : Status :=
  ⟨.unavailable, .notRun, .unknown, none, none, none, some .notYetObserved⟩

def Collector.statuses (c : Collector) (sources : List Source) : List Status :=
  sources.map fun source => (c.latest source).getD notYetObserved

/-- What `Current` shows if the statuses cannot be aggregated. -/
def fallbackStatus : Status :=
  ⟨.unavailable, .failed, .unknown, none, none, none, some .readerFailed⟩

def Collector.current (c : Collector) (sources : List Source) : Snapshot :=
  ⟨(aggregateStatus (c.statuses sources)).getD fallbackStatus, c.events.length, c.events⟩

/-- A source summary with the overlay of a later failure. -/
def Collector.overlaySource (c : Collector) (s : SourceSummary) : SourceSummary :=
  match c.overlays s.source with
  | some overlay =>
    if statusAttemptIsAfter overlay s.status then
      { s with status := mergeStorageOverlay s.status overlay }
    else s
  | none => s

def Collector.overlaySummary (c : Collector) (s : Summary) : Summary :=
  { s with sources := s.sources.map c.overlaySource }

def summaryMatchesRequest (summary : Summary) (query : SummaryQuery) (expected : List Source) :
    Bool :=
  summary.toSummaryQuery = query && summary.sources.map (·.source) = expected

/-- `none` is an error; `answer` is what the store returned in time. -/
def Collector.summary (c : Collector) (sources : List Source) (query : SummaryQuery)
    (answer : Option Summary) : Option Summary :=
  if !query.validate then none
  else if sources.length = 0 then some { query with sources := [] }
  else
    match answer with
    | none => none
    | some summary =>
      if !summary.validate || !summaryMatchesRequest summary query sources then none
      else
        let result := c.overlaySummary summary
        if result.validate then some result else none

/-! ## Collection -/

/-- What the store answers to a commit. -/
inductive CommitAnswer where
  | committed
  | revisionConflict
  | failed
  deriving DecidableEq

/-- The calls of a collection: to the context, the store, the clock, the reader and
    the collector's own state. -/
inductive CollectorCall where
  /-- Whether the context of the collector lives. -/
  | alive
  /-- Whether the deadline of the commit has not passed. -/
  | inTime
  | loadCheckpoint (source : Source)
  | now
  | read (request : ReadRequest)
  | commitBatch (batch : Batch)
  | recordCommit (batch : Batch)
  | recordStorageFailure (source : Source) (attemptedAt : Instant) (attempted : Option Batch)

/-- Answers; a load or read that fails or is late has none. -/
def CollectorCall.Answer : CollectorCall → Type
  | alive => Bool
  | inTime => Bool
  | loadCheckpoint _ => Option Checkpoint
  | now => Instant
  | read _ => Option Batch
  | commitBatch _ => CommitAnswer
  | recordCommit _ => Unit
  | recordStorageFailure .. => Unit

abbrev collectorInterface : Interface := ⟨CollectorCall, CollectorCall.Answer⟩

abbrev CollectorProg := Prog collectorInterface

def alive : CollectorProg Bool := Prog.ask (I := collectorInterface) .alive
def inTime : CollectorProg Bool := Prog.ask (I := collectorInterface) .inTime
def now : CollectorProg Instant := Prog.ask (I := collectorInterface) .now

def loadCheckpoint (source : Source) : CollectorProg (Option Checkpoint) :=
  Prog.ask (I := collectorInterface) (.loadCheckpoint source)

def readBatch (request : ReadRequest) : CollectorProg (Option Batch) :=
  Prog.ask (I := collectorInterface) (.read request)

def commitBatch (batch : Batch) : CollectorProg CommitAnswer :=
  Prog.ask (I := collectorInterface) (.commitBatch batch)

def recordCommit (batch : Batch) : CollectorProg Unit :=
  Prog.ask (I := collectorInterface) (.recordCommit batch)

def recordStorageFailure (source : Source) (attemptedAt : Instant) (attempted : Option Batch) :
    CollectorProg Unit :=
  Prog.ask (I := collectorInterface) (.recordStorageFailure source attemptedAt attempted)

def validBatchForRequest (batch : Batch) (request : ReadRequest) : Bool :=
  if !batch.validate || batch.source ≠ request.source ||
      batch.expectedRevision ≠ request.checkpoint.revision ||
      batch.queryStartedAt ≠ request.queryStartedAt then false
  else if request.checkpoint.resetPending then
    batch.kind = .resetPending || batch.kind = .resetEstablished
  else if request.checkpoint.opaqueData.length = 0 then batch.kind = .normal
  else true

def readerFailureBatch (request : ReadRequest) : CollectorProg Batch := do
  let finishedAt ← now
  return {
    kind := if request.checkpoint.resetPending then .resetPending else .normal
    source := request.source
    expectedRevision := request.checkpoint.revision
    queryStartedAt := request.queryStartedAt
    startedAt := request.queryStartedAt
    finishedAt := if finishedAt < request.queryStartedAt then request.queryStartedAt else finishedAt
    supportState := .unavailable
    collectionState := .failed
    reasonCode := some .readerFailed
    events := []
    discards := []
    examinedCount := 0
    probeCount := 0
    discardedCount := 0
    deferred := false
    caughtUp := false
    nextOpaque := [] }

/-- Read one source; `none` if the attempt ends without a batch. -/
def readSource (source : Source) (checkpoint : Checkpoint) : CollectorProg (Option Batch) := do
  let queryStartedAt ← now
  let request : ReadRequest := ⟨source, checkpoint, queryStartedAt⟩
  if !request.validate then
    if ← alive then recordStorageFailure source queryStartedAt none
    return none
  else
    let batch ← readBatch request
    if !(← alive) then return none
    else
      match batch.filter (validBatchForRequest · request) with
      | some batch => return some batch
      | none => return some (← readerFailureBatch request)

/-- The last attempt of a commit that did not report success. -/
def reloadAfterRetry (source : Source) (batch : Batch) : CollectorProg Bool := do
  if !(← inTime) then return false
  else
    let checkpoint ← loadCheckpoint source
    return checkpoint.any fun c => c.validate && c.revision = batch.expectedRevision + 1

/-- Commit once more, after the store said that nothing was committed. -/
def retryCommit (source : Source) (batch : Batch) : CollectorProg Bool := do
  match ← commitBatch batch with
  | .committed => inTime
  | .revisionConflict => return false
  | .failed => reloadAfterRetry source batch

def commitConfirmed (source : Source) (batch : Batch) : CollectorProg Bool := do
  if !(← inTime) then return false
  else
    match ← commitBatch batch with
    | .committed => inTime
    | .revisionConflict => return false
    | .failed =>
      if !(← inTime) || batch.expectedRevision = ~~~0 then return false
      else
        match (← loadCheckpoint source).filter Checkpoint.validate with
        | none => return false
        | some checkpoint =>
          if checkpoint.revision = batch.expectedRevision + 1 then return true
          else if checkpoint.revision ≠ batch.expectedRevision then return false
          else retryCommit source batch

/-- The checkpoints of the sources; `none` if the collection is to stop. -/
def prepareSources : List Source → CollectorProg (Option (List (Source × Option Checkpoint)))
  | [] => return some []
  | source :: sources => do
    if !(← alive) then return none
    else
      let checkpoint := (← loadCheckpoint source).filter Checkpoint.validate
      if checkpoint.isNone then
        if ← alive then recordStorageFailure source (← now) none
      return (← prepareSources sources).map ((source, checkpoint) :: ·)

/-- The batches of the prepared sources; `none` if the collection is to stop. -/
def readSources : List (Source × Option Checkpoint) → CollectorProg (Option (List (Source × Batch)))
  | [] => return some []
  | (source, checkpoint) :: prepared => do
    if !(← alive) then return none
    else
      match checkpoint with
      | none => readSources prepared
      | some checkpoint =>
        match ← readSource source checkpoint with
        | some batch => return (← readSources prepared).map ((source, batch) :: ·)
        | none => if !(← alive) then return none else readSources prepared

def commitBatches : List (Source × Batch) → CollectorProg Unit
  | [] => return ()
  | (source, batch) :: results => do
    if !(← alive) then return ()
    else
      if ← commitConfirmed source batch then recordCommit batch
      else
        if ← alive then recordStorageFailure source batch.queryStartedAt (some batch)
      commitBatches results

def collectOnce (sources : List Source) : CollectorProg Unit := do
  if sources.length = 0 then return ()
  else
    match ← prepareSources sources with
    | none => return ()
    | some prepared =>
      match ← readSources prepared with
      | none => return ()
      | some results => commitBatches results

/-- `n` collections, one after the other. -/
def collect (sources : List Source) : ℕ → CollectorProg Unit
  | 0 => return ()
  | n + 1 => do
    collectOnce sources
    collect sources n

end LogObs

end HomeLab
