/-
  Retention of host metrics and log metadata.

  A pass removes the oldest rows of all tables first, one mutation at a time,
  until its budget is spent.  Before the counts of a minute go, the positive
  coverage that vouches for them is trimmed; once they are gone, the eviction
  frontier of the source moves past the minute.
-/
import HomeLab.History.Store

namespace HomeLab

namespace History

open LogObs

/-- A row that retention may remove. -/
inductive RetentionCandidate where
  | sample (s : Sample)
  | rollup (r : Rollup)
  | minute (source : Source) (r : MinuteRow) (start : Instant)
  | coverage (source : Source) (r : CoverageRow)

/-- The first row of the two sources, by text and then by source. -/
def firstOfSources {α : Type} (text : α → Bytes) (system application : List α) :
    Option (Source × α) :=
  match system.head?, application.head? with
  | some a, some b => if text b ≤ text a then some (.application, b) else some (.system, a)
  | some a, none => some (.system, a)
  | none, some b => some (.application, b)
  | none, none => none

/-- A row takes the place of the oldest one found if it is before the boundary
    and strictly older. -/
def older (boundary : Option Instant) (oldest : Option (RetentionCandidate × Instant))
    (item : RetentionCandidate) (t : Instant) : Option (RetentionCandidate × Instant) :=
  if boundary.any fun b => !(t < b) then oldest
  else
    match oldest with
    | none => some (item, t)
    | some (_, t') => if t < t' then some (item, t) else oldest

def oldestHostCandidate (db : Database) (cutoff : Option Instant) :
    Option (RetentionCandidate × Instant) :=
  let oldest := match db.samples.head? with
    | some s => older cutoff none (.sample s) (unixEpoch + s.observedAtNs)
    | none => none
  match db.rollups.head? with
  | some r => older cutoff oldest (.rollup r) (unixEpoch + r.bucketStartNs)
  | none => oldest

/-- The first minute is considered after `oldest`. -/
def considerMinute (db : Database) (logCutoff : Option Instant)
    (oldest : Option (RetentionCandidate × Instant)) :
    Except LogError (Option (RetentionCandidate × Instant)) :=
  match firstOfSources MinuteRow.minute (db.log .system).minutes (db.log .application).minutes with
  | none => .ok oldest
  | some (source, r) => do
    let t ← decodeLogTime r.minute
    .ok (older logCutoff oldest (.minute source r t) t)

/-- The first coverage row is considered after `oldest`. -/
def considerCoverage (db : Database) (logCutoff : Option Instant)
    (oldest : Option (RetentionCandidate × Instant)) :
    Except LogError (Option (RetentionCandidate × Instant)) :=
  match firstOfSources CoverageRow.startAt (db.log .system).coverage
      (db.log .application).coverage with
  | none => .ok oldest
  | some (source, r) => do
    let t ← decodeLogTime r.startAt
    .ok (older logCutoff oldest (.coverage source r) t)

def oldestRetentionCandidate (db : Database) (cutoff logCutoff : Option Instant) :
    Except LogError (Option RetentionCandidate) := do
  let oldest ← considerMinute db logCutoff (oldestHostCandidate db cutoff)
  let oldest ← considerCoverage db logCutoff oldest
  .ok (oldest.map Prod.fst)

/-- `UPDATE … SET start_at` of a row: the new row must pass the check and must
    not take another row's key. -/
def moveCoverage (table : List CoverageRow) (r : CoverageRow) (startAt : Bytes) :
    Except LogError (List CoverageRow) :=
  let rest := Keyed.erase CoverageRow.startAt r.startAt table
  let moved := { r with startAt := startAt }
  if !moved.check || (Keyed.find CoverageRow.startAt startAt rest).isSome then .error .unavailable
  else .ok (Keyed.insert CoverageRow.startAt moved rest)

def deleteCoverageRow (table : List CoverageRow) (r : CoverageRow) : List CoverageRow :=
  Keyed.erase CoverageRow.startAt r.startAt table

/-- Trim or remove the first positive row that starts before the frontier.
    `none`: there is none; otherwise the rows, and whether one was removed. -/
def trimPositiveLogProof (table : List CoverageRow) (frontier : Instant) :
    Except LogError (Option (List CoverageRow × Bool)) :=
  match table.find? (·.reason = none) with
  | none => .ok none
  | some r => do
    let start ← decodeLogTime r.startAt
    let stop ← decodeLogTime r.endAt
    if !(start < frontier) then .ok none
    else if frontier < stop then
      let table ← moveCoverage table r (formatNanos frontier)
      .ok (some (table, false))
    else .ok (some (deleteCoverageRow table r, true))

/-- The last instant that a frontier can name. -/
def lastLogTime : Instant := maxInstant - 1

def minuteFrontier (start : Instant) : Instant :=
  if 9999 < year (start + minute) then lastLogTime else start + minute

/-- The state of a pass: the database, the frontiers to record and the number of
    rows dropped. -/
structure Pass where
  db : Database
  frontiers : Source → Option Instant := fun _ => none
  dropped : ℕ := 0

/-- Replace the coverage of a source. -/
def Database.setCoverage (db : Database) (source : Source) (rows : List CoverageRow) : Database :=
  db.setLog source { db.log source with coverage := rows }

/-- The removal of a minute: its proof first, then its counts. -/
def pruneMinute (p : Pass) (source : Source) (r : MinuteRow) (start : Instant) :
    Except LogError Pass := do
  match ← trimPositiveLogProof (p.db.log source).coverage (start + minute) with
  | some (rows, removed) =>
    .ok { p with
      db := p.db.setCoverage source rows
      dropped := if removed then p.dropped + 1 else p.dropped }
  | none =>
    let t := p.db.log source
    let frontier := minuteFrontier start
    .ok { db := p.db.setLog source
            { t with minutes := Keyed.erase MinuteRow.minute r.minute t.minutes }
          frontiers :=
            if (p.frontiers source).getD 0 < frontier then
              Function.update p.frontiers source (some frontier)
            else p.frontiers
          dropped := p.dropped + 1 }

/-- The removal of coverage, up to the cutoff. -/
def pruneCoverage (logCutoff : Option Instant) (p : Pass) (source : Source) (r : CoverageRow) :
    Except LogError Pass :=
  let table := (p.db.log source).coverage
  match logCutoff with
  | some cutoff =>
    if formatNanos cutoff < r.endAt then do
      let rows ← moveCoverage table r (formatNanos cutoff)
      .ok { p with db := p.db.setCoverage source rows }
    else
      .ok { p with
        db := p.db.setCoverage source (deleteCoverageRow table r), dropped := p.dropped + 1 }
  | none =>
    .ok { p with
      db := p.db.setCoverage source (deleteCoverageRow table r), dropped := p.dropped + 1 }

/-- One mutation of a pass. -/
def pruneStep (logCutoff : Option Instant) (p : Pass) : RetentionCandidate → Except LogError Pass
  | .sample s =>
    .ok { p with
      db := { p.db with samples := Keyed.erase Sample.key s.key p.db.samples }
      dropped := p.dropped + 1 }
  | .rollup r =>
    .ok { p with
      db := { p.db with rollups := Keyed.erase Rollup.key r.key p.db.rollups }
      dropped := p.dropped + 1 }
  | .minute source r start => pruneMinute p source r start
  | .coverage source r => pruneCoverage logCutoff p source r

/-- The mutations of a pass; each one costs one unit of the budget. -/
def pruneLoop (cutoff logCutoff : Option Instant) : ℕ → Pass → Except LogError Pass
  | 0, p => .ok p
  | budget + 1, p => do
    match ← oldestRetentionCandidate p.db cutoff logCutoff with
    | none => .ok p
    | some item =>
      let p ← pruneStep logCutoff p item
      pruneLoop cutoff logCutoff budget p

/-- Record the frontier of a source, unless the recorded one is not before it. -/
def recordFrontier (frontiers : Source → Option Instant) (source : Source) (db : Database) :
    Except LogError Database :=
  match frontiers source with
  | none => .ok db
  | some frontier => do
    let previous ← loadLogEvictionFrontier (db.log source)
    if previous.any fun f => !(f < frontier) then .ok db
    else .ok (db.setLog source { db.log source with evictedBefore := some (formatNanos frontier) })

/-- The cutoff of log metadata, which is kept for a week at most. -/
def logCutoffOf (age : Duration) (cutoff : Option Instant) : Option Instant :=
  cutoff.map fun t => if logRetention < age then t + (age - logRetention) else t

def pruneShared (age : Duration) (batchSize : ℕ) (db : Database) (cutoff : Option Instant) :
    Except LogError (Database × ℕ) := do
  let p ← pruneLoop cutoff (logCutoffOf age cutoff) batchSize { db := db }
  let db ← recordFrontier p.frontiers .system p.db
  let db ← recordFrontier p.frontiers .application db
  .ok (db, p.dropped)

/-- The database that a pass leaves behind, if it changes it: `ready` says that
    the schema is valid and every statement runs. -/
def pruned (age : Duration) (ready : Bool) (outcome : Commit) (batchSize : ℕ) (db : Database)
    (cutoff : Option Instant) : Option Database :=
  if !ready || outcome = .lost then none
  else ((pruneShared age batchSize db cutoff).toOption).map Prod.fst

/-! ## Runs -/

/-- A call on the store.  `host` stands for the calls on the host metrics. -/
inductive Op where
  | commit (batch : Batch) (env : CommitEnv)
  | prune (cutoff : Option Instant) (batchSize : ℕ) (ready : Bool) (outcome : Commit)
  | host (samples : List Sample) (rollups : List Rollup)

/-- The database and the batches committed to it. -/
structure World where
  db : Database := {}
  batches : List Batch := []

def step (age : Duration) (w : World) : Op → World
  | .commit batch env =>
    match committed age env w.db batch with
    | some db => ⟨db, w.batches ++ [batch]⟩
    | none => w
  | .prune cutoff batchSize ready outcome =>
    match pruned age ready outcome batchSize w.db cutoff with
    | some db => { w with db := db }
    | none => w
  | .host samples rollups => { w with db := { w.db with samples := samples, rollups := rollups } }

def run (age : Duration) (w : World) (ops : List Op) : World := ops.foldl (step age) w

end History

end HomeLab
