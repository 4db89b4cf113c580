/-
  The enrollment of an installation and the directory that records it.

  An enrollment spends a grant that can be used once.  Its directory records how
  far it has come: an `ATTEMPTED` record before the exchange, the `CREDENTIAL`
  that the exchange gave, the provisioned upload ledger, a `READY` record.  Each
  record is written to a stage file and renamed into place, and every step checks
  that the directory holds exactly what the steps before it left.

  An enrollment and an opening are programs over the file operations, the
  exchange with the server and the upload ledger.  The calls of a context that
  is done, of a path that is not private and of a file system that fails are
  answered with a failure.
-/
import HomeLab.Lib.Interaction
import HomeLab.Lib.Json
import HomeLab.UploadLedger.Ledger

namespace HomeLab

namespace Enrollment

open Prog UploadState

/-! ## Principals and their profiles -/

structure RichProcessesPrincipals where
  collectorUid : UInt32
  uploaderUid : UInt32
  uploaderGid : UInt32
  sharedGid : UInt32
  deriving DecidableEq, Repr

structure RichProcessesDockerPrincipals where
  collectorUid : UInt32
  uploaderUid : UInt32
  uploaderGid : UInt32
  sharedGid : UInt32
  readerUid : UInt32
  frameGid : UInt32
  socketGid : UInt32
  deriving DecidableEq, Repr

/-- Neither root nor the largest number. -/
def ordinaryId (id : UInt32) : Bool := id ≠ 0 && id ≠ 4294967295

def validRichIDs (p : RichProcessesPrincipals) : Bool :=
  [p.collectorUid, p.uploaderUid, p.uploaderGid, p.sharedGid].all ordinaryId &&
    p.collectorUid ≠ p.uploaderUid && p.uploaderGid ≠ p.sharedGid

def validDockerIDs (p : RichProcessesDockerPrincipals) : Bool :=
  [p.collectorUid, p.uploaderUid, p.readerUid, p.uploaderGid, p.sharedGid, p.frameGid,
    p.socketGid].all ordinaryId &&
    p.collectorUid ≠ p.uploaderUid && p.collectorUid ≠ p.readerUid &&
    p.uploaderUid ≠ p.readerUid && p.uploaderGid ≠ p.sharedGid && p.uploaderGid ≠ p.frameGid &&
    p.uploaderGid ≠ p.socketGid && p.sharedGid ≠ p.frameGid && p.sharedGid ≠ p.socketGid &&
    p.frameGid ≠ p.socketGid

def uintJson (n : UInt32) : Json := .num (decimal n.toNat)

def richPolicyJson (b : Binding) (p : RichProcessesPrincipals) : Json :=
  .obj
    [(ascii "version", .str (ascii "observer-connected-rich-policy/v1")),
     (ascii "collection_profile", .str (ascii "RICH_PROCESSES_V1")),
     (ascii "server_id", .str b.serverId), (ascii "connector_id", .str b.connectorId),
     (ascii "collector_uid", uintJson p.collectorUid),
     (ascii "uploader_uid", uintJson p.uploaderUid),
     (ascii "uploader_gid", uintJson p.uploaderGid), (ascii "shared_gid", uintJson p.sharedGid),
     (ascii "collection_definition_sha256",
      .str (ascii "438442e2675b19fc7f1f181e7eaef80d45f6c87b807710970664affbbc6e1150")),
     (ascii "processes_enabled", .bool true), (ascii "containers_enabled", .bool false)]

def dockerPolicyJson (b : Binding) (p : RichProcessesDockerPrincipals) : Json :=
  .obj
    [(ascii "version", .str (ascii "observer-connected-rich-docker-policy/v1")),
     (ascii "collection_profile", .str (ascii "RICH_PROCESSES_DOCKER_V1")),
     (ascii "server_id", .str b.serverId), (ascii "connector_id", .str b.connectorId),
     (ascii "collector_uid", uintJson p.collectorUid),
     (ascii "uploader_uid", uintJson p.uploaderUid),
     (ascii "uploader_gid", uintJson p.uploaderGid), (ascii "shared_gid", uintJson p.sharedGid),
     (ascii "reader_uid", uintJson p.readerUid), (ascii "frame_gid", uintJson p.frameGid),
     (ascii "socket_gid", uintJson p.socketGid),
     (ascii "collection_definition_sha256",
      .str (ascii "86f39c7ba444f5ef4560ba82cbf660a17c0d7810b6e49443cb509d9e85036f37")),
     (ascii "processes_enabled", .bool true), (ascii "containers_enabled", .bool true)]

/-- What an installation collects, and as whom. -/
inductive Principals where
  | numeric
  | richProcesses (p : RichProcessesPrincipals)
  | richProcessesDocker (p : RichProcessesDockerPrincipals)
  deriving DecidableEq

section
variable [Sha256]

/-- The profile of an installation: the kind, and the digest of its policy. -/
def Principals.profile (b : Binding) : Principals → Option ProfileBinding
  | numeric => some ⟨.numeric, zeroDigest⟩
  | richProcesses p =>
    if !validBinding b || !validRichIDs p then none
    else some ⟨.richProcesses, Sha256.sum256 (richPolicyJson b p).render⟩
  | richProcessesDocker p =>
    if !validBinding b || !validDockerIDs p then none
    else some ⟨.richProcessesDocker, Sha256.sum256 (dockerPolicyJson b p).render⟩

end

/-- The principals are checked with it before the directory is touched. -/
def syntheticBinding : Binding :=
  ⟨ascii "srv_00000000000000000000000000000000", ascii "agent_00000000000000000000000000000000"⟩

/-! ## Records -/

inductive RecordState where
  | attempted
  | credential
  | ready
  deriving DecidableEq, Repr

/-- The version of a record is fixed. -/
structure EnrollmentRecord where
  state : RecordState
  binding : Binding
  secret : Bytes
  deriving DecidableEq, Repr

/-- `[A-Za-z0-9_-]` -/
def tokenByte (b : UInt8) : Bool :=
  65 ≤ b && b ≤ 90 || 97 ≤ b && b ≤ 122 || 48 ≤ b && b ≤ 57 || b = 95 || b = 45

/-- `^hlc_[A-Za-z0-9_-]{43}$`, or with `hle_` for a grant. -/
def tokenPattern (pre value : Bytes) : Bool :=
  pre.isPrefixOf value && (value.drop pre.length).length = 43 &&
    (value.drop pre.length).all tokenByte

def secretPattern : Bytes → Bool := tokenPattern (ascii "hlc_")
def grantPattern : Bytes → Bool := tokenPattern (ascii "hle_")

/-- What `decode` accepts; the text of a file is kept as the record it encodes. -/
def decode (r : EnrollmentRecord) (b : Binding) (state : RecordState) : Bool :=
  validBinding b && r.state = state && r.binding = b &&
    (if state = .credential then secretPattern r.secret else r.secret = [])

/-! ## Calls -/

/-- The names in the directory. -/
inductive Name where
  | lock
  | stage
  | attempt
  | credential
  | ready
  | ledger
  deriving DecidableEq, Repr

def Name.all : List Name := [.lock, .stage, .attempt, .credential, .ready, .ledger]

structure Grant where
  expectedServerId : Bytes
  secret : Bytes
  deriving DecidableEq, Repr

structure ExchangeRequest where
  binding : Binding
  enrollmentGrant : Bytes
  deriving DecidableEq, Repr

inductive ExchangeOutcome where
  | accepted
  | rateLimited
  | rejected
  | ambiguous
  deriving DecidableEq, Repr

structure ExchangeResponse where
  outcome : ExchangeOutcome
  serverId : Bytes
  connectorSecret : Bytes
  deriving DecidableEq, Repr

inductive Call where
  /-- The context is not done. -/
  | alive
  /-- The path is private and the two handles name one directory. -/
  | prepare
  | checkRoot
  | entries
  | create (n : Name)
  | openLock
  | flock
  | write (r : EnrollmentRecord)
  | closeStage
  | rename (n : Name)
  | read (n : Name)
  | syncFile (n : Name)
  | syncDirectory
  | close
  | grant
  | random
  | exchange (q : ExchangeRequest)
  | mkdirLedger
  | ledgerPrivacy (kind : ProfileKind)
  /-- The lock file of the ledger is created or opened, and locked. -/
  | ledgerLock (create : Bool)
  /-- Nothing but the lock file is there. -/
  | ledgerFresh
  | createDatabase
  | checkFiles (kind : ProfileKind)
  | checkHeader (kind : ProfileKind)
  | configure (kind : ProfileKind)
  | verifySchema (kind : ProfileKind)
  /-- The transaction that creates the table and inserts the record. -/
  | insert (r : Record)
  | syncLedger
  | readRecord
  | closeLedger

@[reducible] def Call.Answer : Call → Type
  | entries => Option (List Name)
  | read _ => Option EnrollmentRecord
  | grant => Option Grant
  | random => Option (Vector UInt8 16)
  | exchange _ => Option ExchangeResponse
  | readRecord => Option Record
  | _ => Bool

abbrev calls : Interface := ⟨Call, Call.Answer⟩

/-- Make one call. -/
def query (c : Call) : Prog calls c.Answer := ask (I := calls) c

/-- The steps one after the other, up to the first that fails. -/
def steps : List (Prog calls Bool) → Prog calls Bool
  | [] => return true
  | p :: ps => do
    if ← p then steps ps else return false

/-! ## The directory -/

/-- `open`: a fresh directory is empty, and its lock file is created. -/
def openDirectory (fresh : Bool) : Prog calls Bool := do
  if !(← query .alive) then return false
  if !(← query .prepare) then return false
  match ← query .entries with
  | none => return false
  | some names =>
    if (fresh && names ≠ []) || (!fresh && (.lock ∉ names || .stage ∈ names)) then return false
    steps
      (if fresh then
        [query (.create .lock), query .flock, query .checkRoot, query .alive,
          query (.syncFile .lock), query .syncDirectory]
      else [query .openLock, query .flock, query .checkRoot, query .alive])

/-- An enrollment that is under way: how many of its steps are done. -/
structure Setup where
  principals : Principals
  binding : Binding := ⟨[], []⟩
  profile : ProfileBinding := ⟨.numeric, zeroDigest⟩
  step : ℕ := 0
  deriving DecidableEq

/-- What the directory holds after so many steps. -/
def wanted (step : ℕ) : List Name :=
  [.lock] ++ (if 1 ≤ step then [.attempt] else []) ++ (if 2 ≤ step then [.credential] else []) ++
    (if 3 ≤ step then [.ledger] else [])

def listed (names : List Name) : Prog calls Bool := do
  match ← query .entries with
  | none => return false
  | some found => return found = names

def check (s : Setup) (b : Binding) (step : ℕ) : Prog calls Bool := do
  if !(← query .alive) || !validBinding b || s.step ≠ step || (step ≠ 0 && s.binding ≠ b) then
    return false
  listed (wanted step)

def readAs (b : Binding) (n : Name) (state : RecordState) : Prog calls (Option EnrollmentRecord) := do
  match ← query (.read n) with
  | none => return none
  | some r => return if decode r b state then some r else none

def readable (b : Binding) (n : Name) (state : RecordState) : Prog calls Bool := do
  return (← readAs b n state).isSome

def publish (n : Name) (r : EnrollmentRecord) : Prog calls Bool :=
  steps [query .checkRoot, query (.create .stage), query (.write r), query (.syncFile .stage),
    query .closeStage, query (.rename n), query .syncDirectory]

/-- `write`: on success one more step is done. -/
def Setup.write (s : Setup) (n : Name) (state : RecordState) (secret : Bytes) :
    Prog calls (Option Setup) := do
  if ← steps [publish n ⟨state, s.binding, secret⟩, query .alive] then
    return some { s with step := s.step + 1 }
  else return none

/-! ## The upload ledger -/

def freshRecord (b : Binding) (profile : ProfileBinding) : Record :=
  { binding := b, profile := profile, watermark := 0, hasAck := false, lastAck := zeroDigest,
    pending := none, stopped := none }

section
variable [Sha256] [Projection]

/-- The record of the ledger, if it is in order. -/
def loadLedger (b : Binding) (profile : ProfileBinding) : Prog calls (Option Record) := do
  match ← query .readRecord with
  | none => return none
  | some r => return if validateRecordForProfile r b profile then some r else none

def loadable (b : Binding) (profile : ProfileBinding) : Prog calls Bool := do
  return (← loadLedger b profile).isSome

/-- `uploadledger.open`; a ledger that cannot be opened is closed again. -/
def openLedger (b : Binding) (profile : ProfileBinding) (create : Bool) : Prog calls Bool := do
  if !(← query .alive) || !validateRecordForProfile (freshRecord b profile) b profile then
    return false
  if !(← query (.ledgerLock create)) then return false
  let opened ← steps
    ((if create then [query .ledgerFresh, query .createDatabase, query (.checkFiles profile.kind),
        query (.configure profile.kind), query (.insert (freshRecord b profile)),
        query .syncLedger]
      else [query (.checkFiles profile.kind), query (.checkHeader profile.kind),
        query (.verifySchema profile.kind), query (.configure profile.kind)]) ++
      [query (.verifySchema profile.kind), loadable b profile])
  if !opened then
    let _ ← query .closeLedger
    return false
  return true

/-- Load the record of a ledger that was opened and close it: it must be the fresh one. -/
def loadsFresh (b : Binding) (profile : ProfileBinding) : Prog calls Bool := do
  let r ← loadLedger b profile
  let closed ← query .closeLedger
  return closed && r = some (freshRecord b profile)

/-! ## The steps of an enrollment -/

def Setup.begin (s : Setup) (b : Binding) : Prog calls (Option Setup) := do
  if !(← check s b 0) then return none
  match s.principals.profile b with
  | none => return none
  | some profile => Setup.write { s with binding := b, profile := profile } .attempt .attempted []

def Setup.create (s : Setup) (b : Binding) (secret : Bytes) : Prog calls (Option Setup) := do
  if !(← check s b 1) then return none
  if !secretPattern secret then return none
  if !(← readable s.binding .attempt .attempted) then return none
  s.write .credential .credential secret

def Setup.provision (s : Setup) (b : Binding) : Prog calls (Option Setup) := do
  if ← steps [check s b 2, readable s.binding .attempt .attempted,
      readable s.binding .credential .credential, query .mkdirLedger,
      (do return (← query .entries).isSome), openLedger b s.profile true, loadsFresh b s.profile,
      query (.ledgerPrivacy s.profile.kind), query .syncDirectory, query .alive] then
    return some { s with step := s.step + 1 }
  else return none

def Setup.markReady (s : Setup) (b : Binding) : Prog calls (Option Setup) := do
  if ← steps [check s b 3, readable s.binding .attempt .attempted,
      readable s.binding .credential .credential, query (.ledgerPrivacy s.profile.kind),
      openLedger b s.profile false, loadsFresh b s.profile] then
    s.write .ready .ready []
  else return none

/-! ## The coordinator -/

inductive RunError where
  | canceled
  | grant
  | input
  | random
  | attempt
  deriving DecidableEq, Repr

inductive RunOutcome where
  | ready
  | retryable
  | rejected
  | recoveryRequired
  deriving DecidableEq, Repr

/-- What becomes of a process: its directory is refused, its enrollment has ended, or the
    directory is open. -/
inductive Finish where
  | refused
  | failed (e : RunError)
  | ended (o : RunOutcome)
  | enrolled (s : Setup)
  | opened (b : Binding) (profile : ProfileBinding) (secret : Bytes) (r : Record)
  deriving DecidableEq

def fixedPreAttemptError (fallback : RunError) : Prog calls Finish := do
  return .failed (if ← query .alive then fallback else .canceled)

/-- What the answer of the exchange means: the secret, if the grant was accepted. -/
def accepted (b : Binding) : Option ExchangeResponse → Except RunOutcome Bytes
  | none => .error .recoveryRequired
  | some r =>
    match r.outcome with
    | .rateLimited =>
      if r.serverId ≠ [] || r.connectorSecret ≠ [] then .error .recoveryRequired
      else .error .retryable
    | .rejected =>
      if r.serverId ≠ [] || r.connectorSecret ≠ [] then .error .recoveryRequired
      else .error .rejected
    | .accepted =>
      if r.serverId ≠ b.serverId || !secretPattern r.connectorSecret then .error .recoveryRequired
      else .ok r.connectorSecret
    | .ambiguous => .error .recoveryRequired

/-- One step of the coordinator and the check of the context before the next. -/
def stepThen (p : Prog calls (Option Setup)) (k : Setup → Prog calls Finish) : Prog calls Finish := do
  match ← p with
  | none => return .ended .recoveryRequired
  | some s => if ← query .alive then k s else return .ended .recoveryRequired

/-- The enrollment once the exchange has given the secret. -/
def afterExchange (s : Setup) (b : Binding) (secret : Bytes) : Prog calls Finish := do
  if !(← query .alive) then return .ended .recoveryRequired
  stepThen (s.create b secret) fun s =>
  stepThen (s.provision b) fun s => do
    match ← s.markReady b with
    | none => return .ended .recoveryRequired
    | some s => return .enrolled s

/-- The enrollment from the exchange on. -/
def afterBegin (s : Setup) (b : Binding) (grant : Bytes) : Prog calls Finish := do
  if !(← query .alive) then return .ended .recoveryRequired
  match accepted b (← query (.exchange ⟨b, grant⟩)) with
  | .error o => return .ended o
  | .ok secret => afterExchange s b secret

/-- The identity of a connector. -/
def connectorId (identity : Vector UInt8 16) : Bytes := ascii "agent_" ++ hexText identity.toList

def run (s : Setup) : Prog calls Finish := do
  if !(← query .alive) then return .failed .canceled
  match ← query .grant with
  | none => fixedPreAttemptError .grant
  | some grant =>
    if !serverPattern grant.expectedServerId || !grantPattern grant.secret then
      return .failed .input
    match ← query .random with
    | none => fixedPreAttemptError .random
    | some identity =>
      let b : Binding := ⟨grant.expectedServerId, connectorId identity⟩
      if !connectorPattern b.connectorId then return .failed .random
      match ← s.begin b with
      | none => fixedPreAttemptError .attempt
      | some s => afterBegin s b grant.secret

/-! ## Processes -/

/-- `OpenNew` or one of its rich variants, `Run`, and `Close`. -/
def enroll (principals : Principals) : Prog calls Finish := do
  if (principals.profile syntheticBinding).isNone then return .refused
  if !(← openDirectory true) then
    let _ ← query .close
    return .refused
  let result ← run { principals := principals }
  let _ ← query .close
  return result

/-- The opening of the ledger, once the records have been read. -/
def openedLedger (b : Binding) (profile : ProfileBinding) (secret : Bytes) : Prog calls Finish := do
  if !(← steps
      [query (.syncFile .lock), query (.syncFile .attempt), query (.syncFile .credential),
        query (.syncFile .ready), query (.ledgerPrivacy profile.kind),
        openLedger b profile false]) then return .refused
  match ← loadLedger b profile with
  | none => return .refused
  | some r =>
    if ← steps [query .syncLedger, query .syncDirectory, query .checkRoot, query .alive] then
      return .opened b profile secret r
    else return .refused

/-- `openReady` after the directory has been locked. -/
def openRecords (b : Binding) (profile : ProfileBinding) : Prog calls Finish := do
  if !(← steps [listed [.lock, .attempt, .credential, .ready, .ledger],
      readable b .attempt .attempted, readable b .ready .ready]) then return .refused
  match ← readAs b .credential .credential with
  | none => return .refused
  | some r => openedLedger b profile r.secret

/-- `OpenReady` or one of its rich variants; what is refused is closed. -/
def openReady (principals : Principals) (b : Binding) : Prog calls Finish := do
  match principals.profile b with
  | none => return .refused
  | some profile =>
    if !validBinding b then return .refused
    if !(← openDirectory false) then
      let _ ← query .close
      return .refused
    match ← openRecords b profile with
    | .opened b profile secret r => return .opened b profile secret r
    | _ =>
      let _ ← query .closeLedger
      let _ ← query .close
      return .refused

end

end Enrollment

end HomeLab
