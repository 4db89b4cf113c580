/-
  The messages between broker and worker.

  A message belongs to a conversation, named by its nonce, and has an ordinal
  there.  Only canonical messages are written or read (`Envelope.canonical`):
  each kind has its ordinals, and its payload passes the checks of its decoder.
-/
import HomeLab.ActionProtocol.Snapshot
import HomeLab.ActionProtocol.Recovery

namespace HomeLab

namespace ActionProtocol

/-- A claim with the time that claiming took. -/
structure ClaimedExecute where
  claim : Claim
  claimRttNanos : ℤ
  deriving DecidableEq, Repr

/-- The messages of the worker's protocol, with their payloads. -/
inductive Message where
  | begin
  | approvalSnapshot (s : ApprovalSnapshot)
  | snapshotQuery (q : SnapshotQuery)
  | snapshotReply (r : SnapshotReply)
  | noClaim
  | claimedExecute (e : ClaimedExecute)
  | authorityChallenge (q : CheckRequest)
  | authorityReply (d : ExecutionDecision)
  | result (r : Report)
  | recoveryQuery (q : RecoveryQuery)
  | recoveryReply (r : RecoveryReply)
  deriving DecidableEq, Repr

structure Envelope where
  conversationNonce : Bytes
  ordinal : ℕ
  message : Message
  deriving DecidableEq, Repr

/-- The nonce of `BEGIN`, before the broker has chosen one. -/
def zeroNonce : Bytes := List.replicate 32 48

section
variable [Sha256]

/-- The checks of `DecodeClaimedExecute`. -/
def validClaimedExecute (e : ClaimedExecute) : Bool :=
  validClaim e.claim && 0 ≤ e.claimRttNanos && e.claimRttNanos ≤ 30 * second

def canonicalPayload (e : Envelope) : Bool :=
  match e.message with
  | .begin => e.ordinal = 1 && e.conversationNonce = zeroNonce
  | .approvalSnapshot s => e.ordinal = 1 && validApprovalSnapshot s
  | .claimedExecute c => e.ordinal = 2 && validClaimedExecute c
  | .noClaim => e.ordinal = 2
  | .authorityChallenge q => (e.ordinal = 3 || e.ordinal = 4) && validCheckRequest q
  | .authorityReply d => (e.ordinal = 3 || e.ordinal = 4) && validExecutionDecision d
  | .result r => e.ordinal = 5 && validReport r
  | .recoveryQuery q => 1 ≤ e.ordinal && e.ordinal ≤ 5 && validRecoveryQuery q
  | .recoveryReply r => 1 ≤ e.ordinal && e.ordinal ≤ 5 && validRecoveryReply r
  | .snapshotQuery q =>
    e.ordinal = 1 && validateSnapshotQuery q && q.publicationId = e.conversationNonce
  | .snapshotReply r =>
    e.ordinal = 2 && validSnapshotReply r &&
    r.receipt.all fun receipt => receipt.publicationId = e.conversationNonce

/-- The envelope has an encoding; only such envelopes are written or read. -/
def Envelope.canonical (e : Envelope) : Bool :=
  (nonce e.conversationNonce || e.message = .begin && e.conversationNonce = zeroNonce) &&
  canonicalPayload e

end

/-! ## The messages that are read -/

/-- The kinds and ordinals that `ReadWorkerSelection` takes. -/
def selectionKind (e : Envelope) : Bool :=
  match e.message with
  | .approvalSnapshot _ | .snapshotQuery _ | .recoveryQuery _ => e.ordinal = 1
  | _ => false

/-- The kinds and ordinals that `ReadExecutionMessage` takes. -/
def executionKind (e : Envelope) : Bool :=
  match e.message with
  | .authorityChallenge _ => e.ordinal = 3 || e.ordinal = 4
  | .result _ => e.ordinal = 5
  | _ => false

/-- The kinds and ordinals that `ReadRecoveryContinuation` takes. -/
def continuationKind (e : Envelope) : Bool :=
  match e.message with
  | .recoveryQuery _ => 2 ≤ e.ordinal && e.ordinal ≤ 5
  | _ => false

end ActionProtocol

end HomeLab
