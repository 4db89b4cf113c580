/-
  The journal's database and its readers.

  Three tables hold the journal: one metadata row, one row per admitted action
  and up to two event rows per action (ordinal 1 the intent, ordinal 2 the
  terminal result).  `load` rebuilds the records from the rows and refuses
  anything a writer could not have stored; `verify` is the check of a reopened
  store.

  The tables are `WITHOUT ROWID`, hence kept in the order of their primary
  keys: a query with `ORDER BY` on the key is a filter.
-/
import HomeLab.Lib.Fallible
import HomeLab.Lib.Keyed
import HomeLab.ActionCore.Key

namespace HomeLab

namespace ActionJournal

open ActionCore

structure Binding where
  serverId : Bytes
  installationId : Bytes
  ownerId : Bytes
  deriving DecidableEq, Repr

/-- The errors a caller can tell apart. -/
inductive Error where
  | unsafeStore
  | busy
  | full
  | recovery
  | identityConflict
  | unresolvedTarget
  deriving DecidableEq, Repr

def maxRecords : ℕ := 1000

def validID (s pre : Bytes) : Bool :=
  s.length = pre.length + 32 && pre.isPrefixOf s && (s.drop pre.length).all hexByte

def validBinding (b : Binding) : Bool :=
  validID b.serverId (ascii "srv_") && validID b.installationId (ascii "agent_") &&
  validID b.ownerId (ascii "usr_")

def stamp (t : Instant) : Bytes := formatRFC3339Nano t

def parseTime (s : Bytes) : Except Error Instant :=
  match parseRFC3339 s with
  | some t => if 30 < s.length ∨ stamp t ≠ s then .error .recovery else .ok t
  | none => .error .recovery

/-! ## Rows -/

inductive Reason where
  | none
  | expiredUndispatched
  deriving DecidableEq, Repr

/-- The code column of an event: `INTENT` or the code of a terminal result. -/
inductive EventCode where
  | intent
  | code (c : Code)
  deriving DecidableEq, Repr

structure ActionRow where
  actionId : Bytes
  targetId : Bytes
  engineGeneration : Bytes
  containerId : Bytes
  metadata : Bytes
  digest : Bytes
  admittedAt : Bytes
  deriving DecidableEq, Repr

structure EventRow where
  actionId : Bytes
  ordinal : ℕ
  stampedAt : Bytes
  code : EventCode
  reason : Reason
  deriving DecidableEq, Repr

structure MetadataRow where
  serverId : Bytes
  installationId : Bytes
  ownerId : Bytes
  prunedExpiryThrough : Bytes
  deriving DecidableEq, Repr

/-- The entries of the schema table. -/
inductive Definition where
  | metadata
  | actions
  | events
  | actionsTarget
  | actionsPhysical
  deriving DecidableEq, Repr

def definitions : List Definition :=
  [.metadata, .actions, .events, .actionsTarget, .actionsPhysical]

structure Database where
  applicationId : ℕ
  userVersion : ℕ
  schema : List Definition
  metadata : List MetadataRow
  actions : List ActionRow
  events : List EventRow
  deriving DecidableEq, Repr

/-- The length checks of the schema, which the readers repeat. -/
def ActionRow.bounded (a : ActionRow) : Bool :=
  a.actionId.length = 36 && a.targetId.length = 36 && a.engineGeneration.length = 32 &&
  a.containerId.length = 64 && 1 ≤ a.metadata.length && a.metadata.length ≤ 2048 &&
  a.digest.length = 32 && 20 ≤ a.admittedAt.length && a.admittedAt.length ≤ 30

def EventRow.bounded (e : EventRow) : Bool :=
  e.actionId.length = 36 && 20 ≤ e.stampedAt.length && e.stampedAt.length ≤ 30

def eventCodes : List EventCode :=
  [.intent, .code .started, .code .stopped, .code .restarted, .code .alreadyRunning,
   .code .alreadyStopped, .code .stateConflict, .code .denied]

/-- The constraints of the events table. -/
def EventRow.check (e : EventRow) : Bool :=
  20 ≤ e.stampedAt.length && e.stampedAt.length ≤ 30 && (e.ordinal = 1 || e.ordinal = 2) &&
  e.code ∈ eventCodes &&
  (e.ordinal = 1 && e.code = .intent && e.reason = .none || e.ordinal = 2 && e.code ≠ .intent) &&
  (e.code = .code .denied && e.reason = .expiredUndispatched ||
    e.code ≠ .code .denied && e.reason = .none)

/-! ## Statements that write -/

namespace Database

/-- The order of the primary key of the events. -/
def eventLe (d e : EventRow) : Prop :=
  d.actionId < e.actionId ∨ d.actionId = e.actionId ∧ d.ordinal ≤ e.ordinal

instance : DecidableRel eventLe := fun a b => by unfold eventLe; infer_instance

/-- `INSERT INTO actions` -/
def insertAction (db : Database) (row : ActionRow) : Except Error Database :=
  if row.bounded ∧ ∀ a ∈ db.actions, a.actionId ≠ row.actionId then
    .ok { db with actions := Keyed.insert ActionRow.actionId row db.actions }
  else .error .recovery

/-- `INSERT INTO events` -/
def insertEvent (db : Database) (row : EventRow) : Except Error Database :=
  if row.check ∧ (∃ a ∈ db.actions, a.actionId = row.actionId) ∧
      ∀ e ∈ db.events, ¬ (e.actionId = row.actionId ∧ e.ordinal = row.ordinal) then
    .ok { db with events := db.events.orderedInsert eventLe row }
  else .error .recovery

/-- `DELETE FROM events WHERE action_id=?` -/
def deleteEvents (db : Database) (id : Bytes) : Database :=
  { db with events := Keyed.erase EventRow.actionId id db.events }

/-- `DELETE FROM actions WHERE action_id=?`; an event that refers to the action
    forbids it. -/
def deleteAction (db : Database) (id : Bytes) : Except Error Database :=
  if ∀ e ∈ db.events, e.actionId ≠ id then
    .ok { db with actions := Keyed.erase ActionRow.actionId id db.actions }
  else .error .recovery

/-- `UPDATE metadata SET pruned_expiry_through=?` -/
def setFloor (db : Database) (s : Bytes) : Except Error Database :=
  if 20 ≤ s.length ∧ s.length ≤ 30 then
    .ok { db with metadata := db.metadata.map fun m => { m with prunedExpiryThrough := s } }
  else .error .recovery

/-- `SELECT count(*)` of the intents without a terminal event. -/
def unknown (db : Database) : ℕ :=
  db.events.countP fun i =>
    i.ordinal = 1 && !db.events.any fun t => t.actionId = i.actionId && t.ordinal = 2

end Database

/-! ## Records -/

/-- An action as the journal holds it in memory.  The zero time means absent. -/
structure Record where
  key : Key
  raw : Bytes
  admitted : Instant
  intent : Instant := 0
  terminal : Instant := 0
  code : Option Code := none
  reason : Reason := .none
  deriving DecidableEq

/-- An intent without a terminal event. -/
def Record.unresolved (r : Record) : Bool := r.intent ≠ 0 && r.terminal = 0

def terminalAllowed (op : Operation) (intent : Bool) (code : Code) (reason : Reason) : Bool :=
  if !intent ∧ code = .denied then reason = .expiredUndispatched
  else if reason ≠ .none then false
  else if intent then
    op = .start && code = .started || op = .stop && code = .stopped ||
      op = .restart && code = .restarted
  else
    code = .stateConflict || op = .start && code = .alreadyRunning ||
      op = .stop && code = .alreadyStopped

section
variable [Sha256]

def validateAction (b : Binding) (a : ActionRow) : Except Error Record :=
  match parseJournalMetadata a.metadata with
  | none => .error .recovery
  | some k =>
    let req := k.metadata.request
    if k.actionId ≠ a.actionId ∨ k.targetId ≠ a.targetId ∨
        k.metadata.engineGeneration ≠ a.engineGeneration ∨
        k.metadata.containerId ≠ a.containerId ∨ a.digest ≠ k.fingerprint.toList then
      .error .recovery
    else if req.serverId ≠ b.serverId ∨ req.installationId ≠ b.installationId ∨
        req.ownerId ≠ b.ownerId then
      .error .recovery
    else do
      let admitted ← parseTime a.admittedAt
      if admitted < req.createdAt ∨ req.expiresAt ≤ admitted then .error .recovery
      else .ok { key := k, raw := a.metadata, admitted }

def validateEvent (r : Record) (e : EventRow) : Except Error Record := do
  let req := r.key.metadata.request
  let moment ← parseTime e.stampedAt
  if moment < r.admitted then .error .recovery
  else if e.ordinal = 1 then
    if e.code ≠ .intent ∨ e.reason ≠ .none ∨ r.intent ≠ 0 ∨ r.terminal ≠ 0 ∨
        req.expiresAt ≤ moment then
      .error .recovery
    else .ok { r with intent := moment }
  else if e.ordinal = 2 then
    match e.code with
    | .intent => .error .recovery
    | .code c =>
      if r.terminal ≠ 0 ∨ (r.intent ≠ 0 ∧ moment < r.intent) ∨
          !terminalAllowed req.operation (r.intent ≠ 0) c e.reason then
        .error .recovery
      else if c = .denied ∧ moment < req.expiresAt then .error .recovery
      else .ok { r with terminal := moment, code := some c, reason := e.reason }
  else .error .recovery

/-! ## Loading -/

inductive RecordScope where
  | allRecords
  | oneRecord (id : Bytes)
  | relatedRecords (k : Key)

/-- `target_id=? OR (engine_generation=? AND container_id=?)` -/
def ActionRow.relatedTo (k : Key) (a : ActionRow) : Bool :=
  a.targetId = k.targetId || a.engineGeneration = k.metadata.engineGeneration &&
    a.containerId = k.metadata.containerId

def RecordScope.action : RecordScope → ActionRow → Bool
  | allRecords, _ => true
  | oneRecord id, a => a.actionId = id
  | relatedRecords k, a => a.relatedTo k

def RecordScope.event (actions : List ActionRow) : RecordScope → EventRow → Bool
  | allRecords, _ => true
  | oneRecord id, e => e.actionId = id
  | relatedRecords k, e => actions.any fun a => a.actionId = e.actionId && a.relatedTo k

/-- The loop over the action rows. -/
def scanActions (b : Binding) : List Record → List ActionRow → Except Error (List Record)
  | records, [] => .ok records
  | records, a :: rows =>
    if maxRecords ≤ records.length ∨ !a.bounded then .error .recovery
    else
      match validateAction b a with
      | .error _ => .error .recovery
      | .ok r =>
        if records.any (·.key.actionId = a.actionId) then .error .recovery
        else scanActions b (records ++ [r]) rows

/-- Apply an event to the record it belongs to. -/
def applyEvent (e : EventRow) : List Record → Except Error (List Record)
  | [] => .error .recovery
  | r :: records =>
    if r.key.actionId = e.actionId then
      match validateEvent r e with
      | .error _ => .error .recovery
      | .ok r => .ok (r :: records)
    else do
      let records ← applyEvent e records
      .ok (r :: records)

/-- The loop over the event rows. -/
def scanEvents : ℕ → List Record → List EventRow → Except Error (List Record)
  | _, records, [] => .ok records
  | count, records, e :: rows =>
    if 2 * maxRecords ≤ count ∨ !e.bounded then .error .recovery
    else
      match applyEvent e records with
      | .error _ => .error .recovery
      | .ok records => scanEvents (count + 1) records rows

def load (b : Binding) (db : Database) (scope : RecordScope) : Except Error (List Record) := do
  let records ← scanActions b [] (db.actions.filter scope.action)
  scanEvents 0 records (db.events.filter (scope.event db.actions))

def records (b : Binding) (db : Database) : Except Error (List Record) := load b db .allRecords

def related (b : Binding) (db : Database) (k : Key) : Except Error (List Record) :=
  load b db (.relatedRecords k)

/-- The record of an action, if there is one. -/
def read (b : Binding) (db : Database) (id : Bytes) : Except Error (Option Record) := do
  match ← load b db (.oneRecord id) with
  | [] => .ok none
  | [r] => .ok (some r)
  | _ => .error .recovery

/-- The instant up to which expired actions may have been pruned. -/
def floor (b : Binding) (db : Database) : Except Error Instant :=
  match db.metadata with
  | [m] =>
    if Binding.mk m.serverId m.installationId m.ownerId = b then parseTime m.prunedExpiryThrough
    else .error .recovery
  | _ => .error .recovery

/-! ## Verification -/

/-- The loop of `verify` over the records, with the targets and containers of
    the unresolved ones. -/
def fences (targets : List Bytes) (physical : List (Bytes × Bytes)) (unknown : ℕ) :
    List Record → Except Error ℕ
  | [] => .ok unknown
  | r :: records =>
    if r.unresolved then
      let pair := (r.key.metadata.engineGeneration, r.key.metadata.containerId)
      if r.key.targetId ∈ targets ∨ pair ∈ physical then .error .recovery
      else fences (r.key.targetId :: targets) (pair :: physical) (unknown + 1) records
    else fences targets physical unknown records

def applicationID : ℕ := 0x484C414A

def verify (b : Binding) (db : Database) : Except Error Unit :=
  if db.applicationId ≠ applicationID ∨ db.userVersion ≠ 1 then .error .recovery
  else if !(db.schema.all (· ∈ definitions)) ∨ db.schema.length ≠ definitions.length then
    .error .recovery
  else do
    let _ ← floor b db
    let rs ← records b db
    let unknown ← fences [] [] 0 rs
    if 2 < unknown ∨ ∃ e ∈ db.events, ∀ a ∈ db.actions, a.actionId ≠ e.actionId then
      .error .recovery
    else .ok ()

end

end ActionJournal

end HomeLab
