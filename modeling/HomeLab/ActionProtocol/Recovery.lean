/-
  Recovery of an uncertain action.

  The owner approves the recovery of an action whose outcome is not known, for
  five minutes and at most eight times (`Approval`).  The connector proposes it,
  reads its status (`RecoveryView`), has the approval checked again
  (`RecoveryDecision`) and reports that it acted on it (`Finalization`).  The
  broker asks for each of these steps with a `RecoveryQuery` and the worker
  answers with a `RecoveryReply`.
-/
import HomeLab.ActionProtocol.Claims

namespace HomeLab

namespace ActionProtocol

/-! ## Values -/

/-- What the journal holds of the action. -/
inductive RecoveryEvidence where
  | missingRecord
  | admittedWithoutIntent
  | intentWithoutTerminal
  | retainedKnownTerminal
  deriving DecidableEq, Repr

def RecoveryEvidence.text : RecoveryEvidence → Bytes
  | missingRecord => ascii "MISSING_RECORD"
  | admittedWithoutIntent => ascii "ADMITTED_WITHOUT_INTENT"
  | intentWithoutTerminal => ascii "INTENT_WITHOUT_TERMINAL"
  | retainedKnownTerminal => ascii "RETAINED_KNOWN_TERMINAL"

structure RecoveryProposal where
  proposalId : Bytes
  remoteReceiptDigest : Bytes
  evidenceKind : RecoveryEvidence
  deriving DecidableEq, Repr

structure Approval where
  recoveryId : Bytes
  prepareId : Bytes
  ownerDecisionId : Bytes
  approvalRevision : Bytes
  previousPrepareId : Option Bytes
  serverId : Bytes
  ownerUserId : Bytes
  connectorInstanceId : Bytes
  actionId : Bytes
  remoteReceiptDigest : Bytes
  evidenceKind : RecoveryEvidence
  laneRevision : Bytes
  committedAckDigest : Option Bytes
  preparedAt : Bytes
  expiresAt : Bytes
  deriving DecidableEq, Repr

structure RecoveryCheck where
  recoveryId : Bytes
  prepareId : Bytes
  approvalRevision : Bytes
  remoteReceiptDigest : Bytes
  checkNonce : Bytes
  committedAckDigest : Option Bytes
  deriving DecidableEq, Repr

structure RecoveryDecision where
  approval : Approval
  checkNonce : Bytes
  credentialId : Bytes
  credentialRevision : Bytes
  checkedAt : Bytes
  decision : Verdict
  deriving DecidableEq, Repr

structure FinalizeRequest where
  recoveryId : Bytes
  prepareId : Bytes
  approvalRevision : Bytes
  remoteReceiptDigest : Bytes
  ackDigest : Bytes
  deriving DecidableEq, Repr

structure Finalization where
  recoveryId : Bytes
  prepareId : Bytes
  ownerDecisionId : Bytes
  approvalRevision : Bytes
  actionId : Bytes
  remoteReceiptDigest : Bytes
  ackDigest : Bytes
  releasedLaneRevision : Bytes
  finalizedAt : Bytes
  deriving DecidableEq, Repr

inductive RecoveryState where
  | none
  | awaitingOwner
  | prepared
  | finalized
  deriving DecidableEq, Repr

structure RecoveryView where
  actionId : Bytes
  recoveryId : Option Bytes
  remoteReceiptDigest : Option Bytes
  evidenceKind : Option RecoveryEvidence
  laneRevision : Bytes
  state : RecoveryState
  currentApproval : Option Approval
  finalization : Option Finalization
  remainingApprovals : ℤ
  deriving DecidableEq, Repr

/-- The state of an action on the server. -/
inductive RetainedState where
  | missing
  | requested
  | claimed
  | expiredUnconfirmed
  | expired
  | canceled
  | succeeded
  | failed
  | outcomeUnknown
  deriving DecidableEq, Repr

inductive LaneState where
  | missing
  | held
  | released
  deriving DecidableEq, Repr

structure RetainedStatus where
  actionId : Bytes
  state : RetainedState
  request : Option RequestReceipt
  claim : Option Claim
  result : Option ResultReceipt
  laneState : LaneState
  deriving DecidableEq, Repr

/-! ## Checks -/

def approvalRevision (s : Bytes) : Bool :=
  s.length = 1 && s.head?.any fun b => 49 ≤ b && b ≤ 56

def optionalDigest (s : Option Bytes) : Bool := s.all (hexValue · 64)

/-- The only id that a proposal of this evidence can have. -/
def proposalId [Sha256] (digest : Bytes) (evidence : RecoveryEvidence) : Option Bytes :=
  if !hexValue digest 64 then none
  else some (hexText ((Sha256.sum256 (ascii "observer-recovery-proposal/v1\n" ++ (digest ++
    (10 :: evidence.text)))).toList.take 16))

/-- The checks of `DecodeRecoveryProposal`. -/
def validRecoveryProposal [Sha256] (p : RecoveryProposal) : Bool :=
  proposalId p.remoteReceiptDigest p.evidenceKind = some p.proposalId

def validateApproval (a : Approval) : Bool :=
  nonce a.recoveryId && nonce a.prepareId && nonce a.ownerDecisionId &&
  approvalRevision a.approvalRevision &&
  decide (a.approvalRevision = ascii "1") == a.previousPrepareId.isNone &&
  a.previousPrepareId.all (fun p => nonce p && p ≠ a.prepareId) &&
  identifier a.serverId (ascii "srv_") && identifier a.ownerUserId (ascii "usr_") &&
  identifier a.connectorInstanceId (ascii "agent_") && identifier a.actionId (ascii "hla_") &&
  hexValue a.remoteReceiptDigest 64 && revision a.laneRevision &&
  optionalDigest a.committedAckDigest &&
  !(a.approvalRevision = ascii "1" && a.committedAckDigest.isSome) &&
    match parseHTTPTime a.preparedAt, parseHTTPTime a.expiresAt with
    | some prepared, some expires => prepared < expires && timeSub expires prepared ≤ 300 * second
    | _, _ => false

/-- The checks of `DecodeRecoveryCheck`. -/
def validRecoveryCheck (c : RecoveryCheck) : Bool :=
  nonce c.recoveryId && nonce c.prepareId && approvalRevision c.approvalRevision &&
  hexValue c.remoteReceiptDigest 64 && nonce c.checkNonce && optionalDigest c.committedAckDigest

/-- The checks of `DecodeRecoveryDecision`. -/
def validRecoveryDecision (d : RecoveryDecision) : Bool :=
  validateApproval d.approval && nonce d.checkNonce && identifier d.credentialId (ascii "hlac_") &&
  revision d.credentialRevision && d.decision ≠ .other &&
    match parseHTTPTime d.checkedAt, parseHTTPTime d.approval.preparedAt with
    | some checked, some prepared => prepared ≤ checked
    | _, _ => false

/-- The checks of `DecodeFinalizeRequest`. -/
def validFinalizeRequest (f : FinalizeRequest) : Bool :=
  nonce f.recoveryId && nonce f.prepareId && approvalRevision f.approvalRevision &&
  hexValue f.remoteReceiptDigest 64 && hexValue f.ackDigest 64

/-- The checks of `DecodeFinalization`. -/
def validFinalization (f : Finalization) : Bool :=
  (parseHTTPTime f.finalizedAt).isSome && nonce f.recoveryId && nonce f.prepareId &&
  nonce f.ownerDecisionId && approvalRevision f.approvalRevision &&
  identifier f.actionId (ascii "hla_") && hexValue f.remoteReceiptDigest 64 &&
  hexValue f.ackDigest 64 && revision f.releasedLaneRevision

/-- The decision permits the approval, in answer to a challenge. -/
def matchRecoveryDecision (a : Approval) (challenge : Bytes) (d : RecoveryDecision) : Bool :=
  validateApproval a && a = d.approval && nonce challenge && d.checkNonce = challenge &&
  identifier d.credentialId (ascii "hlac_") && revision d.credentialRevision &&
  d.decision = .permitted &&
    match parseHTTPTime d.checkedAt, parseHTTPTime a.expiresAt, parseHTTPTime a.preparedAt with
    | some checked, some expires, some prepared => prepared ≤ checked && checked < expires
    | _, _, _ => false

/-- The finalization is one of the approval; it released the next lane revision. -/
def matchFinalization (a : Approval) (ack : Bytes) (f : Finalization) : Bool :=
  validateApproval a && hexValue ack 64 && f.recoveryId = a.recoveryId &&
  f.prepareId = a.prepareId && f.ownerDecisionId = a.ownerDecisionId &&
  f.approvalRevision = a.approvalRevision && f.actionId = a.actionId &&
  f.remoteReceiptDigest = a.remoteReceiptDigest && f.ackDigest = ack &&
  revision f.releasedLaneRevision && numeral a.laneRevision < 9223372036854775807 &&
  numeral f.releasedLaneRevision = numeral a.laneRevision + 1 &&
    match parseHTTPTime f.finalizedAt, parseHTTPTime a.preparedAt, parseHTTPTime a.expiresAt with
    | some finished, some prepared, some expires => prepared ≤ finished && finished < expires
    | _, _, _ => false

/-- The approval that a view shows is one of the recovery that it describes. -/
def RecoveryView.shows (v : RecoveryView) (a : Approval) : Bool :=
  a.actionId = v.actionId && some a.recoveryId = v.recoveryId &&
  some a.remoteReceiptDigest = v.remoteReceiptDigest && some a.evidenceKind = v.evidenceKind &&
  v.remainingApprovals = 8 - (numeral a.approvalRevision : ℤ)

/-- The checks of `DecodeRecoveryView`. -/
def validRecoveryView (v : RecoveryView) : Bool :=
  identifier v.actionId (ascii "hla_") && revision v.laneRevision && 0 ≤ v.remainingApprovals &&
  v.remainingApprovals ≤ 8 && v.currentApproval.all validateApproval &&
  v.finalization.all validFinalization &&
    match v.state with
    | .none =>
      v.recoveryId.isNone && v.remoteReceiptDigest.isNone && v.evidenceKind.isNone &&
      v.currentApproval.isNone && v.finalization.isNone && v.remainingApprovals = 8
    | .awaitingOwner =>
      described v && v.currentApproval.isNone && v.finalization.isNone && v.remainingApprovals = 8
    | .prepared =>
      described v && v.finalization.isNone &&
      v.currentApproval.any fun a => v.shows a && v.laneRevision = a.laneRevision
    | .finalized =>
      described v && v.currentApproval.any fun a => v.shows a && v.finalization.any fun f =>
        matchFinalization a f.ackDigest f && v.laneRevision = f.releasedLaneRevision
where
  described (v : RecoveryView) : Bool :=
    v.recoveryId.any nonce && v.remoteReceiptDigest.any (hexValue · 64) && v.evidenceKind.isSome

section
variable [Sha256]

/-- The view is one of the action with this receipt. -/
def matchRecoveryView (r : RequestReceipt) (digest : Bytes) (v : RecoveryView) : Bool :=
  (receiptDigest r).any (fun actual => hexText actual.toList = digest) && v.actionId = r.actionId &&
  v.remoteReceiptDigest.all (· = digest) &&
  v.currentApproval.all fun a => a.serverId = r.serverId && a.ownerUserId = r.ownerUserId &&
    a.connectorInstanceId = r.connectorInstanceId

/-- The checks of `DecodeRetainedStatus`. -/
def validRetainedStatus (s : RetainedStatus) : Bool :=
  identifier s.actionId (ascii "hla_") &&
  s.request.all (fun r => validateRequest r && r.actionId = s.actionId) &&
  s.claim.all (fun c => validClaim c && s.request = some c.request) &&
  s.result.all (fun r => validResultReceipt r && s.claim.any fun c => matchResultReceipt c r) &&
    match s.state with
    | .missing =>
      s.request.isNone && s.claim.isNone && s.result.isNone && s.laneState = .missing
    | .requested => s.request.isSome && s.claim.isNone && s.result.isNone && s.laneState = .held
    | .claimed => s.request.isSome && s.claim.isSome && s.result.isNone && s.laneState = .held
    | .expiredUnconfirmed =>
      s.request.isSome && s.claim.isSome && s.result.isNone && s.laneState ≠ .missing
    | .expired | .canceled =>
      s.request.isSome && s.claim.isNone && s.result.isNone && s.laneState = .released
    | .succeeded =>
      s.result.any (fun r => r.resultCode ≠ .stateConflict && r.resultCode ≠ .outcomeUnknown) &&
      s.laneState = .released
    | .failed => s.result.any (·.resultCode = .stateConflict) && s.laneState = .released
    | .outcomeUnknown => s.result.any (·.resultCode = .outcomeUnknown) && s.laneState ≠ .missing

end

/-! ## Queries and replies -/

inductive RecoveryOperation where
  | retained
  | propose
  | status
  | check
  | finalize
  deriving DecidableEq, Repr

/-- The body of a query; `none` is the body `null`. -/
inductive QueryBody where
  | none
  | proposal (p : RecoveryProposal)
  | check (c : RecoveryCheck)
  | finalize (f : FinalizeRequest)
  deriving DecidableEq, Repr

structure RecoveryQuery where
  operation : RecoveryOperation
  actionId : Bytes
  remoteReceiptDigest : Bytes
  body : QueryBody
  deriving DecidableEq, Repr

inductive ReplyBody where
  | none
  | retained (s : RetainedStatus)
  | view (v : RecoveryView)
  | decision (d : RecoveryDecision)
  | finalization (f : Finalization)
  deriving DecidableEq, Repr

inductive ReplyOutcome where
  | ok
  | denied
  | unavailable
  | conflict
  | full
  deriving DecidableEq, Repr

structure RecoveryReply where
  operation : RecoveryOperation
  actionId : Bytes
  remoteReceiptDigest : Bytes
  outcome : ReplyOutcome
  body : ReplyBody
  deriving DecidableEq, Repr

section
variable [Sha256]

/-- The checks of `DecodeRecoveryQuery`. -/
def validRecoveryQuery (q : RecoveryQuery) : Bool :=
  identifier q.actionId (ascii "hla_") && hexValue q.remoteReceiptDigest 64 &&
    match q.operation, q.body with
    | .retained, .none | .status, .none => true
    | .propose, .proposal p =>
      validRecoveryProposal p && p.remoteReceiptDigest = q.remoteReceiptDigest
    | .check, .check c => validRecoveryCheck c && c.remoteReceiptDigest = q.remoteReceiptDigest
    | .finalize, .finalize f =>
      validFinalizeRequest f && f.remoteReceiptDigest = q.remoteReceiptDigest
    | _, _ => false

/-- The body of a reply that reports success. -/
def validReplyBody (r : RecoveryReply) : Bool :=
  match r.operation, r.body with
  | .retained, .retained s =>
    validRetainedStatus s && s.actionId = r.actionId && s.request.any fun q =>
      (receiptDigest q).any fun d => hexText d.toList = r.remoteReceiptDigest
  | .propose, .view v | .status, .view v =>
    validRecoveryView v && v.actionId = r.actionId &&
    v.remoteReceiptDigest.all (· = r.remoteReceiptDigest)
  | .check, .decision d =>
    validRecoveryDecision d && d.approval.actionId = r.actionId &&
    d.approval.remoteReceiptDigest = r.remoteReceiptDigest
  | .finalize, .finalization f =>
    validFinalization f && f.actionId = r.actionId && f.remoteReceiptDigest = r.remoteReceiptDigest
  | _, _ => false

/-- The checks of `DecodeRecoveryReply`. -/
def validRecoveryReply (r : RecoveryReply) : Bool :=
  identifier r.actionId (ascii "hla_") && hexValue r.remoteReceiptDigest 64 &&
  if r.outcome = .ok then validReplyBody r else r.body = .none

end

end ActionProtocol

end HomeLab
