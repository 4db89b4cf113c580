/-
  The conversations of the worker.

  The worker connects to the broker again and again and holds one conversation on
  each connection: it begins, and the broker selects what it is about.  A
  snapshot is published; an approval is claimed for, and a claimed action is
  passed on, checked at two checkpoints and reported; a recovery is relayed.

  A worker is a program over the messages of the connection, the calls of the
  remote server, the clocks and its own latch `disabled`.  Contexts and their
  deadlines are answers: a call that they cut off fails.
-/
import HomeLab.Lib.Interaction
import HomeLab.ActionProtocol.Envelope
import HomeLab.ActionWorker.Approval

namespace HomeLab

namespace ActionWorker

open ActionProtocol Prog

/-! ## Calls -/

/-- Which of the readers waits for a message. -/
inductive Wait where
  | selection
  | execution
  | continuation
  deriving DecidableEq

/-- What a connection gives: its end before the first byte, an error, or a message. -/
inductive Received where
  | closed
  | failed
  | message (e : Envelope)
  deriving DecidableEq

/-- A reading of the clocks of the process and of the boot time. -/
structure Sample where
  goTime : Instant
  wall : Instant
  bootSec : ℤ
  bootNsec : ℤ

/-- How the remote server refuses a recovery call. -/
inductive RemoteError where
  | denied
  | conflict
  | other
  deriving DecidableEq

inductive Dial where
  | connected
  /-- `errBrokerAbsent` -/
  | absent
  | failed
  deriving DecidableEq

/-- How a conversation ends; `refused` is `ErrUnsafe`. -/
inductive Outcome where
  | ok
  | noSelection
  | initialSelection
  | refused
  deriving DecidableEq

inductive Call where
  /-- The context is not done. -/
  | alive
  | sample
  | random
  | send (e : Envelope)
  | receive (w : Wait)
  | executionDisabled
  | disableExecution
  | refreshSnapshot (q : SnapshotQuery)
  | claim (nonce : Bytes) (targets : List Bytes)
  | check (q : CheckRequest)
  | report (actionId : Bytes) (r : Report)
  | retained (actionId : Bytes)
  | propose (actionId : Bytes) (p : RecoveryProposal)
  | recoveryStatus (actionId : Bytes)
  | recoveryCheck (actionId : Bytes) (c : RecoveryCheck)
  | finalize (actionId : Bytes) (f : FinalizeRequest)
  | connect
  /-- The connection is closed; its conversation ended with `result`. -/
  | close (result : Outcome)
  | pace

/-- The answer to `refreshSnapshot` also says whether there was an error; a claim is absent if
    the server had none. -/
@[reducible] def Call.Answer : Call → Type
  | alive => Bool
  | sample => Option Sample
  | random => Option (Vector UInt8 16)
  | send _ => Bool
  | receive _ => Received
  | executionDisabled => Bool
  | disableExecution => Unit
  | refreshSnapshot _ => SnapshotReply × Bool
  | claim _ _ => Option (Option Claim)
  | check _ => Option ExecutionDecision
  | report _ _ => Option ResultReceipt
  | retained _ => Except RemoteError RetainedStatus
  | propose _ _ => Except RemoteError RecoveryView
  | recoveryStatus _ => Except RemoteError RecoveryView
  | recoveryCheck _ _ => Except RemoteError RecoveryDecision
  | finalize _ _ => Except RemoteError Finalization
  | connect => Dial
  | close _ => Unit
  | pace => Bool

abbrev calls : Interface := ⟨Call, Call.Answer⟩

/-- Make one call. -/
def query (c : Call) : Prog calls c.Answer := ask (I := calls) c

/-- The worker: its binding, and whether its server takes recovery calls. -/
structure Client where
  binding : Binding
  recovers : Bool

/-! ## Clocks -/

structure NativeStamp where
  goTime : Instant
  wall : Instant
  boot : Duration

def executionHorizon : Duration := 89 * second

def reportingHorizon : Duration := 119 * second

def captureStamp : Prog calls (Option NativeStamp) := do
  match ← query .sample with
  | none => return none
  | some s =>
    if s.bootSec < 0 || s.bootNsec < 0 || second ≤ s.bootNsec || 9223372036 - 134 < s.bootSec then
      return none
    return some ⟨s.goTime, s.wall, s.bootSec * second + s.bootNsec⟩

/-- The boot time between two stamps, if the clocks agree on it and it is below the limit. -/
def elapsed (start stop : NativeStamp) (limit : Duration) : Option Duration :=
  let boot := stop.boot - start.boot
  let mono := timeSub stop.goTime start.goTime
  let wall := timeSub stop.wall start.wall
  let tolerance := 100 * 1000000
  if start.wall = 0 || stop.wall = 0 || boot < 0 || limit ≤ boot || mono < 0 || wall < 0 ||
      mono < boot - tolerance || boot + tolerance < mono || wall < boot - tolerance ||
      boot + tolerance < wall then none
  else some boot

/-- The time since `start`, taken now. -/
def elapsedSince (start : NativeStamp) (limit : Duration) : Prog calls (Option Duration) := do
  match ← captureStamp with
  | none => return none
  | some now => return elapsed start now limit

/-- The worker is still enabled, and less than `limit` has passed. -/
def inTime (start : NativeStamp) (limit : Duration) : Prog calls Bool := do
  match ← captureStamp with
  | none => return false
  | some now =>
    if ← query .executionDisabled then return false
    return (elapsed start now limit).isSome

section
variable [Sha256]

/-! ## Messages -/

def sendLocal (nonce : Bytes) (ordinal : ℕ) (m : Message) : Prog calls Bool := do
  let e : Envelope := ⟨nonce, ordinal, m⟩
  if !e.canonical then return false
  query (.send e)

/-- What `ReadWorkerSelection` takes from the connection. -/
def selection : Received → Received
  | .message e => if e.canonical && selectionKind e then .message e else .failed
  | r => r

/-- What `ReadExecutionMessage` takes from the connection. -/
def executionMessage : Received → Option Envelope
  | .message e => if e.canonical && executionKind e then some e else none
  | _ => none

/-- What `ReadRecoveryContinuation` takes from the connection. -/
def continuation : Received → Option Envelope
  | .message e => if e.canonical && continuationKind e then some e else none
  | _ => none

/-! ## Publishing a snapshot -/

/-- An error after this point keeps the worker from executing. -/
def latched (p : Prog calls Outcome) : Prog calls Outcome := do
  let result ← p
  if result ≠ .ok then query .disableExecution
  return result

def sent (p : Prog calls Bool) : Prog calls Outcome := do
  if ← p then return .ok else return .refused

def publish (first : Envelope) (q : SnapshotQuery) : Prog calls Outcome := do
  let (reply, failed) ← query (.refreshSnapshot q)
  if failed && reply.outcome = .ok then return .refused
  if !validSnapshotReply reply || reply.outcome = .ok && !matchSnapshotReply q reply then
    return .refused
  sent (sendLocal first.conversationNonce 2 (.snapshotReply reply))

/-! ## Executing a claim -/

/-- The targets of an approval, each once where entries of one target stand together. -/
def claimTargets (entries : List Entry) : List Bytes :=
  entries.foldl
    (fun targets e => if targets.getLast? = some e.targetId then targets else targets ++ [e.targetId])
    []

/-- The broker's challenge at a checkpoint. -/
def challenge (first : Envelope) (claim : Claim) (checkpoint : ℕ) (previous : Bytes) :
    Option Envelope → Option CheckRequest
  | some ⟨nonce, ordinal, .authorityChallenge q⟩ =>
    if nonce = first.conversationNonce && ordinal = checkpoint + 2 && q.request = claim.request &&
        q.executionLeaseId = claim.executionLeaseId && q.checkpoint = checkpoint &&
        q.checkNonce ≠ previous then some q else none
  | _ => none

/-- The decision answers the query. -/
def answers (q : CheckRequest) (d : ExecutionDecision) : Bool :=
  d.request = q.request && d.executionLeaseId = q.executionLeaseId && d.checkpoint = q.checkpoint &&
  d.checkNonce = q.checkNonce

/-- Take the server's decision and pass it on; a decision other than `permitted` disables the
    worker. -/
def decide_ (first : Envelope) (start : NativeStamp) (q : CheckRequest) : Prog calls Bool := do
  match ← captureStamp with
  | none => return false
  | some checkStart =>
    if ← query .executionDisabled then return false
    if (elapsed start checkStart executionHorizon).isNone then return false
    match ← query (.check q) with
    | none => return false
    | some decision =>
      match ← captureStamp with
      | none => return false
      | some checkEnd =>
        if ← query .executionDisabled then return false
        if (elapsed checkStart checkEnd (5 * second)).isNone then return false
        if (elapsed start checkEnd executionHorizon).isNone then return false
        if decision.decision ≠ .permitted then query .disableExecution
        if !answers q decision then return false
        if !(← sendLocal first.conversationNonce (q.checkpoint + 2) (.authorityReply decision)) then
          return false
        return decision.decision = .permitted

/-- One checkpoint: the nonce of the broker's challenge, if the server permitted it. -/
def checkpoint (first : Envelope) (start : NativeStamp) (claim : Claim) (n : ℕ)
    (previous : Bytes) : Prog calls (Option Bytes) := do
  if !(← inTime start executionHorizon) then return none
  let message ← query (.receive .execution)
  match challenge first claim n previous (executionMessage message) with
  | none => return none
  | some q => if ← decide_ first start q then return some q.checkNonce else return none

/-- The broker's report of the claimed action. -/
def resultOf (first : Envelope) (claim : Claim) : Option Envelope → Option Report
  | some ⟨nonce, ordinal, .result r⟩ =>
    if nonce = first.conversationNonce && ordinal = 5 && r.request = claim.request &&
        r.executionLeaseId = claim.executionLeaseId && r.correlationId = claim.correlationId then
      some r
    else none
  | _ => none

/-- Pass the report on. -/
def deliverReport (first : Envelope) (start : NativeStamp) (claim : Claim) :
    Prog calls Outcome := do
  if !(← inTime start reportingHorizon) then return .refused
  let message ← query (.receive .execution)
  match resultOf first claim (executionMessage message) with
  | none => return .refused
  | some report =>
    if (← elapsedSince start reportingHorizon).isNone then return .refused
    if ← query .executionDisabled then return .refused
    match ← query (.report claim.request.actionId report) with
    | none => return .refused
    | some receipt =>
      if !matchResultReceipt claim receipt || receipt.resultCode ≠ report.resultCode ||
          receipt.correlationId ≠ report.correlationId then return .refused
      if (← elapsedSince start reportingHorizon).isNone then return .refused
      if report.resultCode = .outcomeUnknown then query .disableExecution
      return .ok

/-- The conversation about a claim, after it was passed on. -/
def executeClaim (first : Envelope) (start : NativeStamp) (claim : Claim) :
    Prog calls Outcome := do
  match ← checkpoint first start claim 1 [] with
  | none => return .refused
  | some previous =>
    match ← checkpoint first start claim 2 previous with
    | none => return .refused
    | some _ => deliverReport first start claim

/-- Claim for an approval. -/
def claimFor (w : Client) (first : Envelope) (approval : ApprovalSnapshot) :
    Prog calls Outcome := do
  match ← captureStamp with
  | none => return .refused
  | some start =>
    match ← query .random with
    | none => return .refused
    | some random =>
      match ← query (.claim (hexText random.toList) (claimTargets approval.entries)) with
      | none => return .refused
      | some claimed =>
        if ← query .executionDisabled then return .refused
        match claimed with
        | none => sent (sendLocal first.conversationNonce 2 .noClaim)
        | some claim =>
          match ← elapsedSince start (30 * second) with
          | none => return .refused
          | some rtt =>
            if !w.binding.claimApproved claim approval then return .refused
            if !(← sendLocal first.conversationNonce 2 (.claimedExecute ⟨claim, rtt⟩)) then
              return .refused
            executeClaim first start claim

/-! ## Relaying a recovery -/

/-- What the relay has learned in this conversation. -/
structure RecoveryRelay where
  action : Bytes
  digest : Bytes
  request : Option RequestReceipt
  approval : Option Approval
  deriving DecidableEq

def recoveryOutcome : RemoteError → ReplyOutcome
  | .denied => .denied
  | .conflict => .conflict
  | .other => .unavailable

def RecoveryRelay.refusal (s : RecoveryRelay) (q : RecoveryQuery) (outcome : ReplyOutcome) :
    RecoveryReply :=
  ⟨q.operation, s.action, s.digest, outcome, .none⟩

/-- The reply with what the server answered, if it has an encoding. -/
def RecoveryRelay.success (s : RecoveryRelay) (q : RecoveryQuery) (body : ReplyBody) :
    RecoveryReply :=
  let reply : RecoveryReply := ⟨q.operation, s.action, s.digest, .ok, body⟩
  if validRecoveryReply reply then reply else s.refusal q .unavailable

/-- The retained request is one of the worker's owner. -/
def Client.owns (w : Client) (r : RequestReceipt) : Bool :=
  w.binding.bound r.serverId r.ownerUserId r.connectorInstanceId &&
  r.actorUserId = w.binding.ownerUserId

/-- The view fits the worker and the request that the relay has seen. -/
def RecoveryRelay.takes (s : RecoveryRelay) (w : Client) (v : RecoveryView) : Bool :=
  v.currentApproval.all (fun a => w.binding.bound a.serverId a.ownerUserId a.connectorInstanceId) &&
  s.request.all fun r => matchRecoveryView r s.digest v

def RecoveryRelay.matchesCheck (s : RecoveryRelay) (c : RecoveryCheck) (a : Approval) : Bool :=
  c.recoveryId = a.recoveryId && c.prepareId = a.prepareId &&
  c.approvalRevision = a.approvalRevision && c.remoteReceiptDigest = s.digest &&
  c.committedAckDigest = a.committedAckDigest

def RecoveryRelay.matchesFinalize (s : RecoveryRelay) (f : FinalizeRequest) (a : Approval) : Bool :=
  f.recoveryId = a.recoveryId && f.prepareId = a.prepareId &&
  f.approvalRevision = a.approvalRevision && f.remoteReceiptDigest = s.digest &&
  a.committedAckDigest.all (· = f.ackDigest)

/-- Take a view from the server. -/
def RecoveryRelay.seen (s : RecoveryRelay) (w : Client) (q : RecoveryQuery) :
    Except RemoteError RecoveryView → RecoveryRelay × RecoveryReply
  | .error e => (s, s.refusal q (recoveryOutcome e))
  | .ok v =>
    if !s.takes w v then (s, s.refusal q .unavailable)
    else ({ s with approval := v.currentApproval }, s.success q (.view v))

def deliver (s : RecoveryRelay) (w : Client) (q : RecoveryQuery) :
    Prog calls (RecoveryRelay × RecoveryReply) := do
  let refused := (s, s.refusal q .unavailable)
  match q.operation, q.body with
  | .retained, _ =>
    match ← query (.retained s.action) with
    | .error e => return (s, s.refusal q (recoveryOutcome e))
    | .ok value =>
      if !value.request.any w.owns then return refused
      return ({ s with request := value.request }, s.success q (.retained value))
  | .propose, .proposal p =>
    if s.request.isNone then return refused
    return s.seen w q (← query (.propose s.action p))
  | .status, _ => return s.seen w q (← query (.recoveryStatus s.action))
  | .check, .check c =>
    match s.approval with
    | none => return refused
    | some a =>
      if !s.matchesCheck c a then return refused
      match ← query (.recoveryCheck s.action c) with
      | .error e => return (s, s.refusal q (recoveryOutcome e))
      | .ok value =>
        if !matchRecoveryDecision a c.checkNonce value then return (s, s.refusal q .denied)
        return (s, s.success q (.decision value))
  | .finalize, .finalize f =>
    match s.approval with
    | none => return refused
    | some a =>
      if !s.matchesFinalize f a then return refused
      match ← query (.finalize s.action f) with
      | .error e => return (s, s.refusal q (recoveryOutcome e))
      | .ok value =>
        if !matchFinalization a f.ackDigest value then return refused
        return (s, s.success q (.finalization value))
  | _, _ => return refused

/-- The operations that may follow each other, by ordinal. -/
def nextRecoveryOperation (previous next : RecoveryOperation) : ℕ → Bool
  | 1 => previous = .retained && (next = .propose || next = .status)
  | 2 => previous = .status && next = .check
  | 3 => previous = .check && next = .finalize
  | 4 => previous = .finalize && next = .status
  | _ => false

/-- The relay is over after this reply. -/
def relayEnds (q : RecoveryQuery) (reply : RecoveryReply) (ordinal : ℕ) : Bool :=
  q.operation = .propose || q.operation = .status && (ordinal = 1 || ordinal = 5) ||
  q.operation = .finalize && reply.outcome = .ok || ordinal = 5 ||
  reply.outcome ≠ .ok && q.operation ≠ .finalize

/-- The context is alive, and the relay and its leg are in their budgets. -/
def relayInBudget (origin start stop : NativeStamp) : Prog calls Bool := do
  if !(← query .alive) then return false
  return (elapsed origin stop (90 * second)).isSome && (elapsed start stop (5 * second)).isSome

/-- The next query of the broker. -/
def followingQuery (first : Envelope) (s : RecoveryRelay) (q : RecoveryQuery) (ordinal : ℕ) :
    Option Envelope → Option RecoveryQuery
  | some ⟨nonce, n, .recoveryQuery next⟩ =>
    if nonce = first.conversationNonce && n = ordinal + 1 && next.actionId = s.action &&
        next.remoteReceiptDigest = s.digest &&
        nextRecoveryOperation q.operation next.operation ordinal then some next else none
  | _ => none

/-- The legs of a relay that are left; they have the ordinals up to five. -/
def relayLegs (w : Client) (first : Envelope) (origin : NativeStamp) :
    ℕ → RecoveryRelay → RecoveryQuery → Prog calls Outcome
  | 0, _, _ => return .refused
  | n + 1, s, q => do
    let ordinal := 5 - n
    match ← captureStamp with
    | none => return .refused
    | some start =>
      if !(← query .alive) then return .refused
      if (elapsed origin start (90 * second)).isNone then return .refused
      let (s, reply) ← deliver s w q
      match ← captureStamp with
      | none => return .refused
      | some stop =>
        if !(← relayInBudget origin start stop) then return .refused
        let written ← sendLocal first.conversationNonce ordinal (.recoveryReply reply)
        match ← captureStamp with
        | none => return .refused
        | some stop =>
          if !written then return .refused
          if !(← relayInBudget origin start stop) then return .refused
          if relayEnds q reply ordinal then return .ok
          let message ← query (.receive .continuation)
          match ← captureStamp with
          | none => return .refused
          | some received =>
            if !(← query .alive) then return .refused
            if (elapsed origin received (90 * second)).isNone then return .refused
            match followingQuery first s q ordinal (continuation message) with
            | none => return .refused
            | some next => relayLegs w first origin n s next

/-- Relay the recovery that the broker selected. -/
def relaySelected (w : Client) (first : Envelope) (q : RecoveryQuery) : Prog calls Outcome := do
  if first.ordinal ≠ 1 || q.operation ≠ .status && q.operation ≠ .retained then return .refused
  if !w.recovers then return .refused
  match ← captureStamp with
  | none => return .refused
  | some origin => relayLegs w first origin 5 ⟨q.actionId, q.remoteReceiptDigest, none, none⟩ q

/-- A recovery other than a lookup of its status keeps the worker from executing. -/
def relayRecovery (w : Client) (first : Envelope) (q : RecoveryQuery) : Prog calls Outcome := do
  if q.operation ≠ .status then query .disableExecution
  relaySelected w first q

/-! ## Conversations -/

/-- What the broker selected, unless it is a recovery. -/
def converseAbout (w : Client) (first : Envelope) : Prog calls Outcome := do
  if ← query .executionDisabled then return .refused
  match first.message with
  | .snapshotQuery q =>
    if !w.binding.bound q.serverId q.ownerUserId q.connectorInstanceId then return .refused
    latched (publish first q)
  | .approvalSnapshot approval =>
    if !w.binding.takesApproval approval then return .refused
    latched (claimFor w first approval)
  | _ => return .refused

def converse (w : Client) : Prog calls Outcome := do
  if !(← query .alive) then return .refused
  if !(← sendLocal zeroNonce 1 .begin) then return .refused
  match selection (← query (.receive .selection)) with
  | .closed => return .noSelection
  | .failed => return .initialSelection
  | .message first =>
    match first.message with
    | .recoveryQuery q => relayRecovery w first q
    | _ => converseAbout w first

/-- How the loop ends; `running` is a loop that goes on. -/
inductive LoopEnd where
  | running
  | stopped
  | refused
  deriving DecidableEq

/-- The loop goes on after a conversation that ended so. -/
def goesOn (result : Outcome) : Prog calls Bool := do
  match result with
  | .ok | .noSelection => return true
  | .initialSelection => return false
  | .refused => query .executionDisabled

/-- Wait before the next round; how the loop ends if it cannot. -/
def paced : Prog calls (Option LoopEnd) := do
  if ← query .pace then return none
  if ← query .alive then return some .refused else return some .stopped

/-- One conversation after the other, for at most the given number of rounds. -/
def runWorkerLoop (w : Client) : ℕ → Prog calls LoopEnd
  | 0 => return .running
  | n + 1 => do
    if !(← query .alive) then return .stopped
    let dial ← query .connect
    if !(← query .alive) then return .stopped
    match dial with
    | .failed => return .refused
    | .absent =>
      match ← paced with
      | some how => return how
      | none => runWorkerLoop w n
    | .connected =>
      let result ← converse w
      query (.close result)
      if !(← query .alive) then return .stopped
      if !(← goesOn result) then return .refused
      match ← paced with
      | some how => return how
      | none => runWorkerLoop w n

end

end ActionWorker

end HomeLab
