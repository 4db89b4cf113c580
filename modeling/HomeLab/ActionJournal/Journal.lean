/-
  The action journal as a state machine.

  A `System` is the durable database together with the process that has it
  open: the journal handle, with its map of active attempts, and the attempts
  handed out so far.  Every call is a function of the system and of what the
  environment answers during the call (`Call`): the clock, the guard of the
  execution budget, the mutex and the outcome of each part of the transaction.
  A commit that reports an error may be durable all the same.

  `System.step` is one call, a close, a reopen or a crash; `System.run` is any
  sequence of them.
-/
import HomeLab.Lib.Interaction
import HomeLab.ActionJournal.Store

namespace HomeLab

namespace ActionJournal

open ActionCore

/-! ## State -/

/-- The execution a guarded attempt belongs to. -/
structure ExecutionCommit where
  action : Bytes
  digest : Digest
  deriving DecidableEq

/-- An attempt belongs to the handle of one generation. -/
structure Attempt where
  generation : ℕ
  r : Record
  closed : Bool := false
  mutable : Bool
  execution : Option ExecutionCommit
  deriving DecidableEq

structure Journal where
  binding : Binding
  failed : Bool := false
  conn : Bool := true
  /-- The active attempt of each action. -/
  active : List (Bytes × ℕ) := []
  deriving DecidableEq

def Journal.usable (j : Journal) : Bool := !j.failed && j.conn

structure System where
  db : Database
  /-- The handle of the running process; no process runs after a crash. -/
  journal : Option Journal
  generation : ℕ
  attempts : List Attempt
  deriving DecidableEq

/-! ## Environment -/

/-- A clock reading: a non-zero instant of the years 1 to 9999. -/
abbrev Clock := {t : Instant // ClockReading t}

/-- What the driver and the guard answer during a transaction. -/
structure Transaction where
  guardBegin : Bool := true
  begin : Bool := true
  /-- Every statement of the body succeeds. -/
  statements : Bool := true
  guardCommit : Bool := true
  commit : Commit := .done
  guardAfter : Bool := true
  rollback : Bool := true
  deriving DecidableEq

/-- What the environment answers during a call. -/
structure Call where
  now : Clock
  /-- The mutex is held by another call. -/
  locked : Bool := false
  /-- The guard's check on entry. -/
  guard : Bool := true
  tx : Transaction := {}
  deriving DecidableEq

/-- What the environment answers while a store is opened. -/
structure Opening where
  context : Bool := true
  /-- The first failing check of the directory and its files. -/
  files : Option Error := none
  driver : Bool := true
  deriving DecidableEq

/-! ## Transactions -/

/-- The errors of a body that leave the handle usable. -/
def Error.tolerated : Error → Bool
  | .busy | .full | .identityConflict | .unresolvedTarget => true
  | _ => false

/-- The end of a transaction that is not committed. -/
def rollback {α : Type} (t : Transaction) (failed : Bool) (db : Database) (e : Error) :
    Except Error α × Bool × Database :=
  if !t.rollback ∨ !e.tolerated then (.error .recovery, true, db) else (.error e, failed, db)

/-- The end of a transaction whose body has returned. -/
def settle {α : Type} (guarded : Bool) (t : Transaction) (failed : Bool) (db : Database) :
    Except Error (Database × α) → Except Error α × Bool × Database
  | .error e => rollback t failed db e
  | .ok (db', x) =>
    if guarded ∧ !t.guardCommit then rollback t failed db .recovery
    else
      match t.commit with
      | .done =>
        if guarded ∧ !t.guardAfter then (.error .recovery, true, db') else (.ok x, failed, db')
      | .lost => (.error .recovery, true, db)
      | .uncertain => (.error .recovery, true, db')

/-- Run a body in a transaction.  The result is what the caller is told,
    whether the handle has failed, and the durable database. -/
def transactionGuarded {α : Type} (guarded : Bool) (t : Transaction) (failed : Bool)
    (db : Database) (body : Database → Except Error (Database × α)) :
    Except Error α × Bool × Database :=
  if guarded ∧ !t.guardBegin then (.error .recovery, failed, db)
  else if !t.begin then (.error .recovery, true, db)
  else settle guarded t failed db (if t.statements then body db else .error .recovery)

section
variable [Sha256]

/-! ## Acquire -/

/-- The active attempts with the action each is filed under. -/
def System.live (sys : System) (j : Journal) : List (Bytes × Attempt) :=
  j.active.filterMap fun p => sys.attempts[p.2]?.map fun a => (p.1, a)

/-- Two keys name one target or one container. -/
def relatedKeys (k k' : Key) : Bool :=
  k.targetId = k'.targetId || k.metadata.engineGeneration = k'.metadata.engineGeneration &&
    k.metadata.containerId = k'.metadata.containerId

/-- Start, stop and restart are followed by a pause on the target. -/
def cooling (now : Instant) (r : Record) : Bool :=
  (r.code = some .started || r.code = some .stopped || r.code = some .restarted) &&
    now < r.terminal + 30 * second

/-- The loop over the records related to the key. -/
def fenced (now : Instant) : List Record → Option Error
  | [] => none
  | other :: records =>
    if other.unresolved then some .unresolvedTarget
    else if cooling now other then some .busy
    else fenced now records

def expiredEvent (id : Bytes) (now : Instant) : EventRow :=
  { actionId := id, ordinal := 2, stampedAt := stamp now, code := .code .denied,
    reason := .expiredUndispatched }

def actionRow (k : Key) (raw : Bytes) (admitted : Instant) : ActionRow :=
  { actionId := k.actionId, targetId := k.targetId,
    engineGeneration := k.metadata.engineGeneration, containerId := k.metadata.containerId,
    metadata := raw, digest := k.fingerprint.toList, admittedAt := stamp admitted }

/-- Store a new action. -/
def admitAction (k : Key) (raw : Bytes) (now : Instant) (db : Database) :
    Except Error (Database × Record × Bool) :=
  if maxRecords < db.actions.length then .error .recovery
  else if db.actions.length = maxRecords then .error .full
  else do
    let db ← db.insertAction (actionRow k raw now)
    .ok (db, { key := k, raw, admitted := now }, true)

/-- Hand out a mutable attempt on an undispatched action, `found` if it is
    stored already. -/
def permit (b : Binding) (live : List (Bytes × Attempt)) (now : Instant) (k : Key) (raw : Bytes)
    (found : Option Record) (db : Database) : Except Error (Database × Record × Bool) := do
  let floor ← floor b db
  if found = none ∧ k.metadata.request.expiresAt ≤ floor then .error .identityConflict
  else
    let others ← related b db k
    match fenced now others with
    | some e => .error e
    | none =>
      let permits := live.countP fun p => p.2.r.terminal = 0 && p.2.r.intent = 0
      if live.any fun p => relatedKeys p.2.r.key k then .error .busy
      else if 2 < db.unknown then .error .recovery
      else if 2 ≤ permits + db.unknown then .error .busy
      else
        match found with
        | some r => .ok (db, r, true)
        | none => admitAction k raw now db

/-- The body of `Acquire` once the stored record, if any, is known to be
    undispatched. -/
def acquireUndispatched (b : Binding) (live : List (Bytes × Attempt)) (now : Instant) (k : Key)
    (raw : Bytes) (found : Option Record) (db : Database) :
    Except Error (Database × Record × Bool) :=
  if live.any (·.1 = k.actionId) then .error .busy
  else if now < k.metadata.request.createdAt then .error .identityConflict
  else if k.metadata.request.expiresAt ≤ now then
    match found with
    | none => .error .identityConflict
    | some r => do
      let db ← db.insertEvent (expiredEvent k.actionId now)
      .ok (db, { r with terminal := now, code := some .denied, reason := .expiredUndispatched },
        false)
  else permit b live now k raw found db

/-- The body of `Acquire`: the database, the record and whether the attempt is
    mutable. -/
def acquireBody (b : Binding) (live : List (Bytes × Attempt)) (now : Instant) (k : Key)
    (raw : Bytes) (db : Database) : Except Error (Database × Record × Bool) := do
  match ← read b db k.actionId with
  | none => acquireUndispatched b live now k raw none db
  | some r =>
    if raw ≠ r.raw then .error .identityConflict
    else if r.terminal ≠ 0 ∨ r.intent ≠ 0 then .ok (db, r, false)
    else acquireUndispatched b live now k raw (some r) db

/-- The binding names the server, installation and owner of the request. -/
def Binding.admits (b : Binding) (k : Key) : Bool :=
  k.metadata.request.serverId = b.serverId && k.metadata.request.installationId = b.installationId &&
    k.metadata.request.ownerId = b.ownerId

/-- File an attempt for the caller. -/
def System.hand (sys : System) (j : Journal) (db : Database) (k : Key) (r : Record)
    (mutable : Bool) (guard : Option ExecutionCommit) : System :=
  { sys with
    db
    attempts := sys.attempts ++ [{ generation := sys.generation, r, mutable, execution := guard }]
    journal := some
      (if mutable then { j with active := (k.actionId, sys.attempts.length) :: j.active } else j) }

def System.acquire (sys : System) (c : Call) (k : Key) (guard : Option ExecutionCommit) :
    System × Except Error ℕ :=
  match sys.journal with
  | none => (sys, .error .recovery)
  | some j =>
    if guard.isSome ∧ !c.guard then (sys, .error .recovery)
    else
      match canonicalJournalMetadata k with
      | none => (sys, .error .identityConflict)
      | some raw =>
        if !j.binding.admits k then (sys, .error .identityConflict)
        else if c.locked then (sys, .error .busy)
        else if !j.usable then (sys, .error .recovery)
        else
          match transactionGuarded guard.isSome c.tx j.failed sys.db
              (acquireBody j.binding (sys.live j) c.now k raw) with
          | (.error e, failed, db) => ({ sys with db, journal := some { j with failed } }, .error e)
          | (.ok (r, mutable), failed, db) =>
            (sys.hand { j with failed } db k r mutable guard, .ok sys.attempts.length)

/-! ## Attempts -/

inductive Transition where
  | intent
  | finish (code : Code)
  deriving DecidableEq

/-- The event a transition stores. -/
def Transition.event (t : Transition) (id : Bytes) (now : Instant) : EventRow :=
  match t with
  | .intent =>
    { actionId := id, ordinal := 1, stampedAt := stamp now, code := .intent, reason := .none }
  | .finish code =>
    { actionId := id, ordinal := 2, stampedAt := stamp now, code := .code code, reason := .none }

/-- What a transition does to the record in memory. -/
def Transition.apply (t : Transition) (now : Instant) (r : Record) : Record :=
  match t with
  | .intent => { r with intent := now }
  | .finish code => { r with terminal := now, code := some code }

/-- The record in memory admits the transition. -/
def Transition.allowed (t : Transition) (r : Record) : Bool :=
  match t with
  | .intent => r.terminal = 0 && r.intent = 0
  | .finish code =>
    r.terminal = 0 && terminalAllowed r.key.metadata.request.operation (r.intent ≠ 0) code .none

def transitionBody (b : Binding) (now : Instant) (r : Record) (t : Transition) (db : Database) :
    Except Error (Database × Unit) :=
  match read b db r.key.actionId with
  | .error _ => .error .recovery
  | .ok none => .error .recovery
  | .ok (some actual) =>
    if actual.raw ≠ r.raw ∨ stamp actual.admitted ≠ stamp r.admitted ∨
        stamp actual.intent ≠ stamp r.intent ∨ actual.terminal ≠ 0 ∨ now < actual.admitted ∨
        (actual.intent ≠ 0 ∧ now < actual.intent) then
      .error .recovery
    else if t = .intent ∧ r.key.metadata.request.expiresAt ≤ now then .error .recovery
    else do
      let db ← db.insertEvent (t.event r.key.actionId now)
      .ok (db, ())

def System.transition (sys : System) (c : Call) (i : ℕ) (t : Transition) :
    System × Except Error Unit :=
  match sys.attempts[i]?, sys.journal with
  | some a, some j =>
    if a.execution.isSome ∧ !c.guard then (sys, .error .recovery)
    else if c.locked then (sys, .error .busy)
    else if a.generation ≠ sys.generation ∨ !j.usable ∨ !a.mutable ∨ a.closed ∨
        j.active.lookup a.r.key.actionId ≠ some i ∨ !t.allowed a.r then
      (sys, .error .recovery)
    else
      match transactionGuarded a.execution.isSome c.tx j.failed sys.db
          (transitionBody j.binding c.now a.r t) with
      | (.error e, failed, db) => ({ sys with db, journal := some { j with failed } }, .error e)
      | (.ok _, failed, db) =>
        ({ sys with
           db
           journal := some { j with failed }
           attempts := sys.attempts.set i { a with r := t.apply c.now a.r } }, .ok ())
  | _, _ => (sys, .error .recovery)

/-- The code of an attempt as its caller sees it; `none` is an attempt that was
    never dispatched. -/
def System.existing (sys : System) (i : ℕ) : Option Code :=
  match sys.attempts[i]?, sys.journal with
  | some a, some j =>
    if a.closed ∨ a.generation ≠ sys.generation ∨ !j.usable then some .unavailable
    else if a.r.terminal ≠ 0 then a.r.code
    else if a.r.intent ≠ 0 then some .outcomeUnknown
    else none
  | _, _ => some .unavailable

/-- Take an attempt off the active map, if it is there. -/
def Journal.release (j : Journal) (id : Bytes) (i : ℕ) : Journal :=
  if j.active.lookup id = some i then { j with active := j.active.filter (·.1 ≠ id) } else j

def System.closeAttempt (sys : System) (i : ℕ) : System :=
  match sys.attempts[i]? with
  | none => sys
  | some a =>
    if a.closed then sys
    else
      { sys with
        attempts := sys.attempts.set i { a with closed := true }
        journal :=
          if a.generation = sys.generation then
            sys.journal.map fun j => j.release a.r.key.actionId i
          else sys.journal }

/-! ## Prune -/

/-- What `Prune` does to one record, and how many changes that makes. -/
def pruneRecord (active : List (Bytes × ℕ)) (now cutoff : Instant) (r : Record) (db : Database) :
    Except Error (Database × ℕ) :=
  if active.any (·.1 = r.key.actionId) then .ok (db, 0)
  else if r.intent = 0 ∧ r.terminal = 0 ∧ r.key.metadata.request.expiresAt ≤ now then
    (db.insertEvent (expiredEvent r.key.actionId now)).map fun db => (db, 1)
  else if r.terminal ≠ 0 ∧ r.terminal ≤ cutoff ∧ r.key.metadata.request.expiresAt ≤ cutoff then
    ((db.deleteEvents r.key.actionId).deleteAction r.key.actionId).map fun db => (db, 1)
  else .ok (db, 0)

/-- The loop of `Prune`: at most fifty changes. -/
def pruneLoop (active : List (Bytes × ℕ)) (now cutoff : Instant) :
    ℕ → List Record → Database → Except Error Database
  | _, [], db => .ok db
  | changed, r :: records, db =>
    if changed = 50 then .ok db
    else do
      let (db, n) ← pruneRecord active now cutoff r db
      pruneLoop active now cutoff (changed + n) records db

def pruneBody (b : Binding) (active : List (Bytes × ℕ)) (now : Instant) (db : Database) :
    Except Error (Database × Unit) := do
  let floor ← floor b db
  let cutoff := now - 30 * day
  let persistedFloor := if cutoff < floor then floor else cutoff
  let rs ← records b db
  let db ← pruneLoop active now cutoff 0 rs db
  let db ← db.setFloor (stamp persistedFloor)
  .ok (db, ())

def System.prune (sys : System) (c : Call) : System × Except Error Unit :=
  match sys.journal with
  | none => (sys, .error .recovery)
  | some j =>
    if c.locked then (sys, .error .busy)
    else if !j.usable then (sys, .error .recovery)
    else
      match transactionGuarded false c.tx j.failed sys.db
          (pruneBody j.binding j.active c.now) with
      | (.error e, failed, db) => ({ sys with db, journal := some { j with failed } }, .error e)
      | (.ok _, failed, db) => ({ sys with db, journal := some { j with failed } }, .ok ())

/-! ## Close and open -/

def System.close (sys : System) : System :=
  match sys.journal with
  | none => sys
  | some j =>
    { sys with
      attempts := sys.attempts.mapIdx fun i a =>
        if a.generation = sys.generation ∧ j.active.any (·.2 = i) then { a with closed := true }
        else a
      journal := some { j with failed := true, conn := false, active := [] } }

/-- A store as `Provision` leaves it. -/
def Database.initial (b : Binding) : Database where
  applicationId := applicationID
  userVersion := 1
  schema := definitions
  metadata := [⟨b.serverId, b.installationId, b.ownerId, stamp 0⟩]
  actions := []
  events := []

/-- The system after a successful `Provision`. -/
def System.provisioned (b : Binding) : System where
  db := Database.initial b
  journal := some { binding := b }
  generation := 0
  attempts := []

/-- Open the store in a new process or after a close. -/
def System.openExisting (sys : System) (b : Binding) (o : Opening) : System × Except Error Unit :=
  if !o.context ∨ !validBinding b then (sys, .error .recovery)
  else if sys.journal.any (·.conn) then (sys, .error .busy)
  else
    match o.files with
    | some e => (sys, .error e)
    | none =>
      if !o.driver then (sys, .error .recovery)
      else
        match verify b sys.db with
        | .error e => (sys, .error e)
        | .ok _ =>
          ({ sys with journal := some { binding := b }, generation := sys.generation + 1 }, .ok ())

/-- The process ends without a close. -/
def System.crash (sys : System) : System :=
  { sys with journal := none, generation := sys.generation + 1 }

/-! ## Runs -/

/-- One call, a close, a reopen or a crash. -/
inductive Op where
  | acquire (c : Call) (k : Key) (guard : Option ExecutionCommit)
  | transition (c : Call) (i : ℕ) (t : Transition)
  | closeAttempt (i : ℕ)
  | prune (c : Call)
  | close
  | openExisting (b : Binding) (o : Opening)
  | crash

def System.step (sys : System) : Op → System
  | .acquire c k guard => (sys.acquire c k guard).1
  | .transition c i t => (sys.transition c i t).1
  | .closeAttempt i => sys.closeAttempt i
  | .prune c => (sys.prune c).1
  | .close => sys.close
  | .openExisting b o => (sys.openExisting b o).1
  | .crash => sys.crash

def System.run (sys : System) (ops : List Op) : System := ops.foldl System.step sys

end

end ActionJournal

end HomeLab
