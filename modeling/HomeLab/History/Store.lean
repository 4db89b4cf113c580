/-
  The log tables of the history database.

  Per source: the state row, the counts of each minute, the coverage rows and
  the eviction frontier.  Times are stored as texts.  `commitLogBatch` is the
  transaction that a batch of log metadata runs: it adds the batch's counts,
  merges its coverage with the stored rows, writes what changed and advances
  the checkpoint.
-/
import HomeLab.History.Coverage
import HomeLab.History.Samples
import HomeLab.Lib.Interaction
import HomeLab.Lib.Timestamp

namespace HomeLab

namespace History

open LogObs

/-! ## Times -/

def encodeLogTime (t : Instant) : Except LogError Bytes :=
  if !validLogTime t then .error .unavailable else .ok (formatNanos t)

/-- Only the text that the time is written as is accepted. -/
def decodeLogTime (text : Bytes) : Except LogError Instant :=
  match parseRFC3339 text with
  | none => .error .unavailable
  | some t => if !validLogTime t || formatNanos t ≠ text then .error .unavailable else .ok t

/-- The last multiple of `d` not after `t`. -/
def truncate (t : Instant) (d : Duration) : Instant := t - t % d

/-! ## Tables -/

structure LogState where
  checkpoint : Checkpoint
  status : Status
  deriving DecidableEq, Repr

structure MinuteRow where
  minute : Bytes
  counts : BucketCounts
  deriving DecidableEq, Repr

structure CoverageRow where
  startAt : Bytes
  endAt : Bytes
  reason : Reason
  deriving DecidableEq, Repr

/-- The rows of one source, each table in the order of its key. -/
structure LogTables where
  state : Option LogState := none
  minutes : List MinuteRow := []
  coverage : List CoverageRow := []
  evictedBefore : Option Bytes := none
  deriving DecidableEq, Repr

structure Database where
  log : Source → LogTables := fun _ => {}
  samples : List Sample := []
  rollups : List Rollup := []

def Database.setLog (db : Database) (source : Source) (t : LogTables) : Database :=
  { db with log := Function.update db.log source t }

def maxLogCoverageRows : ℕ := 2 * 7 * 24 * 60 + 2

/-! ## Minutes -/

/-- `CHECK` of the minute table. -/
def MinuteRow.check (r : MinuteRow) : Bool :=
  r.counts.captured ≤ maxSafeInteger && r.counts.discarded ≤ maxSafeInteger &&
  r.counts.severity.trace ≤ maxSafeInteger && r.counts.severity.debug ≤ maxSafeInteger &&
  r.counts.severity.info ≤ maxSafeInteger && r.counts.severity.warn ≤ maxSafeInteger &&
  r.counts.severity.error ≤ maxSafeInteger && r.counts.severity.critical ≤ maxSafeInteger &&
  r.counts.severity.unknown ≤ maxSafeInteger && r.counts.captured = r.counts.severity.total

/-- Add counts to the row of a minute, which is made if it is missing. -/
def addMinute (minutes : List MinuteRow) (key : Bytes) (c : BucketCounts) : List MinuteRow :=
  match Keyed.find MinuteRow.minute key minutes with
  | some _ => Keyed.modify MinuteRow.minute key (fun r => { r with counts := r.counts + c }) minutes
  | none => Keyed.insert MinuteRow.minute ⟨key, c⟩ minutes

/-- The counts of the entries not before the floor, minute by minute. -/
def gatherMinutes (floor : Instant) :
    List (Instant × BucketCounts) → List MinuteRow → Except LogError (List MinuteRow)
  | [], minutes => .ok minutes
  | (t, c) :: entries, minutes =>
    if t < floor then gatherMinutes floor entries minutes
    else do
      let key ← encodeLogTime (truncate t minute)
      gatherMinutes floor entries (addMinute minutes key c)

/-- `INSERT … ON CONFLICT DO UPDATE` of each gathered row. -/
def upsertMinutes : List MinuteRow → List MinuteRow → Except LogError (List MinuteRow)
  | [], table => .ok table
  | r :: rows, table =>
    let table := addMinute table r.minute r.counts
    if (Keyed.find MinuteRow.minute r.minute table).all MinuteRow.check then
      upsertMinutes rows table
    else .error .unavailable

def writeLogMinutes (table : List MinuteRow) (batch : Batch) (floor : Instant) :
    Except LogError (List MinuteRow) := do
  let rows ← gatherMinutes floor batch.contributions []
  upsertMinutes rows table

/-! ## Coverage -/

/-- Decode rows in order; `previous` is the end of the segment before. -/
def decodeCoverage : Option Instant → List CoverageRow → Except LogError (List LogCoverageSegment)
  | _, [] => .ok []
  | previous, r :: rows => do
    let start ← decodeLogTime r.startAt
    let stop ← decodeLogTime r.endAt
    let segment : LogCoverageSegment := ⟨start, stop, r.reason⟩
    if !validLogSegment segment || previous.any (start < ·) then .error .unavailable
    else
      let segments ← decodeCoverage (some stop) rows
      .ok (segment :: segments)

def loadLogCoverage (table : List CoverageRow) (start stop : Instant) :
    Except LogError (List LogCoverageSegment) := do
  let left ← encodeLogTime start
  let right ← encodeLogTime stop
  let rows := table.filter fun r => left < r.endAt && r.startAt < right
  let segments ← decodeCoverage none (rows.take (maxLogCoverageRows + 1))
  if maxLogCoverageRows < segments.length then .error .unavailable else .ok segments

/-- The row of a segment. -/
def coverageRow (s : LogCoverageSegment) : CoverageRow :=
  ⟨formatNanos s.start, formatNanos s.stop, s.label⟩

/-- `CHECK` of the coverage table. -/
def CoverageRow.check (r : CoverageRow) : Bool := r.startAt < r.endAt

/-- `INSERT … ON CONFLICT DO UPDATE` of a row. -/
def upsertCoverage (table : List CoverageRow) (r : CoverageRow) : List CoverageRow :=
  Keyed.insert CoverageRow.startAt r (Keyed.erase CoverageRow.startAt r.startAt table)

/-- Delete the rows of old segments that no new segment starts with. -/
def deleteCoverage (next : List LogCoverageSegment) :
    List LogCoverageSegment → List CoverageRow → Except LogError (List CoverageRow)
  | [], table => .ok table
  | s :: old, table =>
    if next.any (·.start = s.start) then deleteCoverage next old table
    else do
      let key ← encodeLogTime s.start
      deleteCoverage next old (Keyed.erase CoverageRow.startAt key table)

/-- The segment is the old one with its start. -/
def unchanged (old : List LogCoverageSegment) (s : LogCoverageSegment) : Bool :=
  old.reverse.find? (·.start = s.start) = some s

/-- Write the new segments that differ from the old ones. -/
def insertCoverage (old : List LogCoverageSegment) :
    List LogCoverageSegment → List CoverageRow → Except LogError (List CoverageRow)
  | [], table => .ok table
  | s :: next, table =>
    if unchanged old s then insertCoverage old next table
    else do
      let start ← encodeLogTime s.start
      let stop ← encodeLogTime s.stop
      let r : CoverageRow := ⟨start, stop, s.label⟩
      if r.check then insertCoverage old next (upsertCoverage table r) else .error .unavailable

def writeLogCoverage (table : List CoverageRow) (old next : List LogCoverageSegment) :
    Except LogError (List CoverageRow) := do
  let table ← deleteCoverage next old table
  insertCoverage old next table

def loadLogEvictionFrontier (t : LogTables) : Except LogError (Option Instant) :=
  match t.evictedBefore with
  | none => .ok none
  | some text => do
    let frontier ← decodeLogTime text
    .ok (some frontier)

/-- The floor of a commit, raised to the frontier. -/
def raisedFloor (floor : Instant) (frontier : Option Instant) : Instant :=
  match frontier with
  | some frontier => if floor < frontier then frontier else floor
  | none => floor

/-- The segments of the window after a commit; there are none in an empty window. -/
def windowSegments (old addition : List LogCoverageSegment) (floor q : Instant) :
    Except LogError (List LogCoverageSegment) :=
  if floor < q then mergeLogCoverage old addition floor q else .ok []

/-- The coverage rows after a commit. -/
def commitLogCoverage (t : LogTables) (addition : List LogCoverageSegment) (floor q : Instant) :
    Except LogError (List CoverageRow) := do
  let old ← loadLogCoverage t.coverage floor q
  let frontier ← loadLogEvictionFrontier t
  let segments ← windowSegments old addition (raisedFloor floor frontier) q
  if maxLogCoverageRows < segments.length then .error .unavailable
  else writeLogCoverage t.coverage old segments

/-! ## The transaction -/

/-- The checkpoint before the first batch. -/
def initialCheckpoint : Checkpoint :=
  { revision := 0, resetPending := false, opaqueData := [], previousAttemptAt := none,
    coverageThrough := none }

def loadLogState (t : LogTables) : Except LogError (Checkpoint × Option Status) :=
  match t.state with
  | none => .ok (initialCheckpoint, none)
  | some row =>
    let status := { row.status with attemptedAt := row.checkpoint.previousAttemptAt }
    if row.checkpoint.revision = 0 || !row.checkpoint.validate || !status.validate then
      .error .unavailable
    else .ok (row.checkpoint, some status)

def nextCheckpoint (prior : Checkpoint) (batch : Batch) : Checkpoint :=
  let next := { prior with
    revision := prior.revision + 1, previousAttemptAt := some batch.queryStartedAt }
  match batch.kind with
  | .resetPending => { next with resetPending := true, opaqueData := [] }
  | .resetEstablished => { next with resetPending := false, opaqueData := batch.nextOpaque }
  | .normal =>
    { next with
      opaqueData := if 0 < batch.nextOpaque.length then batch.nextOpaque else next.opaqueData
      coverageThrough :=
        if batch.caughtUp then some batch.queryStartedAt else next.coverageThrough }

/-- How far back a batch with this retention age may still add counts. -/
def commitFloor (age : Duration) (batch : Batch) : Instant :=
  logRetentionFloor batch.queryStartedAt (min age logRetention)

/-- Add the counts and the coverage of a batch and advance the checkpoint. -/
def applyLogBatch (age : Duration) (t : LogTables) (batch : Batch) (prior : Checkpoint)
    (priorStatus : Option Status) : Except LogError LogTables := do
  let addition ← deriveLogCoverage prior batch
  let minutes ← writeLogMinutes t.minutes batch (commitFloor age batch)
  let coverage ← commitLogCoverage t addition (commitFloor age batch) batch.queryStartedAt
  let next := nextCheckpoint prior batch
  let status := statusAfterBatch batch priorStatus
  if !next.validate || !status.validate then .error .unavailable
  else .ok { t with state := some ⟨next, status⟩, minutes := minutes, coverage := coverage }

/-- The tables of the batch's source after its commit. -/
def commitLogTables (age : Duration) (t : LogTables) (batch : Batch) :
    Except LogError LogTables := do
  let (prior, priorStatus) ← loadLogState t
  if prior.revision ≠ batch.expectedRevision then .error .revisionConflict
  else if batch.expectedRevision = -1 then .error .unavailable
  else applyLogBatch age t batch prior priorStatus

/-- All counts of both sources. -/
def Database.totals (db : Database) : BucketCounts :=
  (([Source.system, .application].flatMap fun s => (db.log s).minutes).map (·.counts)).sum

/-- The transaction of a batch; `pressure` says that the database is too large. -/
def commitLogBatch (age : Duration) (pressure : Bool) (db : Database) (batch : Batch) :
    Except LogError Database :=
  if pressure then .error .unavailable
  else do
    let t ← commitLogTables age (db.log batch.source) batch
    let db := db.setLog batch.source t
    if maxSafeInteger < db.totals.captured || maxSafeInteger < db.totals.discarded then
      .error .unavailable
    else .ok db

/-- The surroundings of a commit: whether the schema is ready and every
    statement runs, the size of the database, and the outcome of `COMMIT`. -/
structure CommitEnv where
  ready : Bool := true
  pressure : Bool := false
  outcome : Commit := .done
  deriving DecidableEq

/-- The database that a call of `CommitBatch` leaves behind, if it changes it. -/
def committed (age : Duration) (env : CommitEnv) (db : Database) (batch : Batch) :
    Option Database :=
  if !batch.validate || !env.ready || env.outcome = .lost then none
  else (commitLogBatch age env.pressure db batch).toOption

end History

end HomeLab
