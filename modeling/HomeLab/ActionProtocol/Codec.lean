/-
  The payloads as JSON.

  A codec for each structure of the protocol, with the field names of its tags
  and the checks of its decoder.  Every decoder asks for exactly the fields of
  its structure, in the nested objects as well, so a field is never matched by
  a name of another case.  A text outside an enumeration is refused by every
  decoder that reads it; here the codec of the enumeration refuses it.
-/
import HomeLab.Lib.Codec
import HomeLab.ActionProtocol.Admin

namespace HomeLab

namespace ActionProtocol

open ActionCore (Operation Code)
open Fields (field nil)

/-! ## Enumerations -/

def operationCodec : Codec Operation :=
  .enumeration Operation.text [.start, .stop, .restart]

def codeText : Code → Bytes
  | .started => ascii "STARTED"
  | .stopped => ascii "STOPPED"
  | .restarted => ascii "RESTARTED"
  | .alreadyRunning => ascii "ALREADY_RUNNING"
  | .alreadyStopped => ascii "ALREADY_STOPPED"
  | .denied => ascii "DENIED"
  | .stateConflict => ascii "TARGET_STATE_CONFLICT"
  | .unavailable => ascii "UNAVAILABLE"
  | .budgetExceeded => ascii "BUDGET_EXCEEDED"
  | .outcomeUnknown => ascii "OUTCOME_UNKNOWN"
  | .identityConflict => ascii "IDEMPOTENCY_CONFLICT"

def codeCodec : Codec Code :=
  .enumeration codeText
    [.started, .stopped, .restarted, .alreadyRunning, .alreadyStopped, .denied, .stateConflict,
     .unavailable, .budgetExceeded, .outcomeUnknown, .identityConflict]

def Verdict.text : Verdict → Bytes
  | permitted => ascii "PERMITTED"
  | denied => ascii "DENIED"
  | other => []

def Verdict.codec : Codec Verdict :=
  .enumeration Verdict.text [.permitted, .denied]

def EvidenceKind.text : EvidenceKind → Bytes
  | retainedTerminal => ascii "RETAINED_TERMINAL"
  | quiescedIntent => ascii "QUIESCED_INTENT"

def EvidenceKind.codec : Codec EvidenceKind :=
  .enumeration EvidenceKind.text [.retainedTerminal, .quiescedIntent]

def RecoveryEvidence.codec : Codec RecoveryEvidence :=
  .enumeration RecoveryEvidence.text
    [.missingRecord, .admittedWithoutIntent, .intentWithoutTerminal, .retainedKnownTerminal]

def RecoveryState.text : RecoveryState → Bytes
  | none => ascii "NONE"
  | awaitingOwner => ascii "AWAITING_OWNER"
  | prepared => ascii "PREPARED"
  | finalized => ascii "FINALIZED"

def RecoveryState.codec : Codec RecoveryState :=
  .enumeration RecoveryState.text [.none, .awaitingOwner, .prepared, .finalized]

def RetainedState.text : RetainedState → Bytes
  | missing => ascii "MISSING"
  | requested => ascii "REQUESTED"
  | claimed => ascii "CLAIMED"
  | expiredUnconfirmed => ascii "EXPIRED_UNCONFIRMED"
  | expired => ascii "EXPIRED"
  | canceled => ascii "CANCELED"
  | succeeded => ascii "SUCCEEDED"
  | failed => ascii "FAILED"
  | outcomeUnknown => ascii "OUTCOME_UNKNOWN"

def RetainedState.codec : Codec RetainedState :=
  .enumeration RetainedState.text
    [.missing, .requested, .claimed, .expiredUnconfirmed, .expired, .canceled, .succeeded, .failed,
     .outcomeUnknown]

def LaneState.text : LaneState → Bytes
  | missing => ascii "MISSING"
  | held => ascii "HELD"
  | released => ascii "RELEASED"

def LaneState.codec : Codec LaneState :=
  .enumeration LaneState.text [.missing, .held, .released]

def SnapshotOutcome.text : SnapshotOutcome → Bytes
  | ok => ascii "OK"
  | denied => ascii "DENIED"
  | unavailable => ascii "UNAVAILABLE"
  | conflict => ascii "CONFLICT"
  | other => []

def SnapshotOutcome.codec : Codec SnapshotOutcome :=
  .enumeration SnapshotOutcome.text [.ok, .denied, .unavailable, .conflict]

def RecoveryOperation.text : RecoveryOperation → Bytes
  | retained => ascii "RETAINED"
  | propose => ascii "PROPOSE"
  | status => ascii "STATUS"
  | check => ascii "CHECK"
  | finalize => ascii "FINALIZE"

def RecoveryOperation.codec : Codec RecoveryOperation :=
  .enumeration RecoveryOperation.text [.retained, .propose, .status, .check, .finalize]

def ReplyOutcome.text : ReplyOutcome → Bytes
  | ok => ascii "OK"
  | denied => ascii "DENIED"
  | unavailable => ascii "UNAVAILABLE"
  | conflict => ascii "CONFLICT"
  | full => ascii "FULL"

def ReplyOutcome.codec : Codec ReplyOutcome :=
  .enumeration ReplyOutcome.text [.ok, .denied, .unavailable, .conflict, .full]

/-- The checkpoints `"1"` and `"2"`. -/
def checkpointCodec : Codec ℕ := .enumeration decimal [1, 2]

/-- A string or `null`. -/
def optionalString : Codec (Option Bytes) := .nullable .string

/-! ## Receipts -/

def Grace.codec : Codec Grace where
  toJson := Grace.json
  ofJson
    | .null => some ⟨0, true⟩
    | .num lit =>
      if decimal (numeral lit) = lit ∧ 1 ≤ numeral lit ∧ numeral lit ≤ 30 then
        some ⟨(numeral lit).toUInt8, false⟩
      else none
    | _ => none
  Good g := g = ⟨0, true⟩ ∨ (g.null = false ∧ 1 ≤ g.seconds ∧ g.seconds ≤ 30)
  wellFormed g := by
    unfold Grace.json
    split_ifs
    · trivial
    · exact Json.wellFormed_decimal _
  decoded {v g} h := by
    split at h
    · cases h
      exact .inl rfl
    · split_ifs at h with hlit
      cases h
      refine .inr ⟨rfl, ?_, ?_⟩ <;> rw [UInt8.le_iff_toNat_le] <;>
        simp only [Nat.toUInt8_eq, UInt8.toNat_ofNat', UInt8.reduceToNat] <;> omega
    · cases h
  encoded {g} h := by
    obtain ⟨seconds, null⟩ := g
    rcases h with h | ⟨h, hlow, hhigh⟩
    · cases h
      rfl
    · cases h
      have hlow' : 1 ≤ seconds.toNat := hlow
      have hhigh' : seconds.toNat ≤ 30 := hhigh
      simp [Grace.json, hlow', hhigh']

def Parameters.codec : Codec Parameters :=
  .record
    (field "format_version" .integer <| field "stop_grace_seconds" Grace.codec nil)
    (fun p => (p.formatVersion, p.stopGraceSeconds, ())) Parameters.mk

section
variable [Sha256]

def RequestReceipt.codec : Codec RequestReceipt :=
  .check validateRequest <| .record
    (field "action_id" .string <| field "server_id" .string <| field "owner_user_id" .string <|
      field "actor_user_id" .string <| field "connector_instance_id" .string <|
      field "operation" operationCodec <| field "target_id" .string <| field "target_key" .string <|
      field "idempotency_key_hash" .string <| field "policy_revision" .string <|
      field "capability_revision" .string <| field "parameters" Parameters.codec <|
      field "parameter_sha256" .string <| field "requested_at" .string <|
      field "expires_at" .string <| field "correlation_id" .string nil)
    (fun r => (r.actionId, r.serverId, r.ownerUserId, r.actorUserId, r.connectorInstanceId,
        r.operation, r.targetId, r.targetKey, r.idempotencyKeyHash, r.policyRevision,
        r.capabilityRevision, r.parameters, r.parameterSha256, r.requestedAt, r.expiresAt,
        r.correlationId, ())) RequestReceipt.mk

/-! ## Claims, decisions and reports -/

def Claim.codec : Codec Claim :=
  .check validClaim <| .record
    (field "request" RequestReceipt.codec <| field "execution_lease_id" .string <|
      field "claim_credential_id" .string <| field "claim_credential_revision" .string <|
      field "claimed_at" .string <| field "lease_expires_at" .string <|
      field "correlation_id" .string nil)
    (fun c => (c.request, c.executionLeaseId, c.claimCredentialId, c.claimCredentialRevision,
        c.claimedAt, c.leaseExpiresAt, c.correlationId, ())) Claim.mk

def ExecutionDecision.codec : Codec ExecutionDecision :=
  .check validExecutionDecision <| .record
    (field "request" RequestReceipt.codec <| field "execution_lease_id" .string <|
      field "checkpoint" checkpointCodec <| field "check_nonce" .string <|
      field "credential_id" .string <| field "credential_revision" .string <|
      field "checked_at" .string <| field "decision" Verdict.codec nil)
    (fun e => (e.request, e.executionLeaseId, e.checkpoint, e.checkNonce, e.credentialId,
        e.credentialRevision, e.checkedAt, e.decision, ())) ExecutionDecision.mk

def CheckRequest.codec : Codec CheckRequest :=
  .check validCheckRequest <| .record
    (field "request" RequestReceipt.codec <| field "execution_lease_id" .string <|
      field "checkpoint" checkpointCodec <| field "check_nonce" .string nil)
    (fun c => (c.request, c.executionLeaseId, c.checkpoint, c.checkNonce, ())) CheckRequest.mk

def Report.codec : Codec Report :=
  .check validReport <| .record
    (field "request" RequestReceipt.codec <| field "execution_lease_id" .string <|
      field "result_code" codeCodec <| field "evidence_kind" EvidenceKind.codec <|
      field "correlation_id" .string nil)
    (fun r => (r.request, r.executionLeaseId, r.resultCode, r.evidenceKind, r.correlationId, ()))
    Report.mk

def ResultReceipt.codec : Codec ResultReceipt :=
  .check validResultReceipt <| .record
    (field "request" RequestReceipt.codec <| field "execution_lease_id" .string <|
      field "reporting_credential_id" .string <| field "reporting_credential_revision" .string <|
      field "result_code" codeCodec <| field "recorded_at" .string <|
      field "correlation_id" .string nil)
    (fun r => (r.request, r.executionLeaseId, r.reportingCredentialId,
        r.reportingCredentialRevision, r.resultCode, r.recordedAt, r.correlationId, ()))
    ResultReceipt.mk

def ClaimedExecute.codec : Codec ClaimedExecute :=
  .check validClaimedExecute <| .record
    (field "claim" Claim.codec <| field "claimRttNanos" .decimalText nil)
    (fun c => (c.claim, c.claimRttNanos, ())) ClaimedExecute.mk

def RetainedStatus.codec : Codec RetainedStatus :=
  .check validRetainedStatus <| .record
    (field "action_id" .string <| field "state" RetainedState.codec <|
      field "request" (.nullable RequestReceipt.codec) <|
      field "claim" (.nullable Claim.codec) <|
      field "result" (.nullable ResultReceipt.codec) <|
      field "lane_state" LaneState.codec nil)
    (fun r => (r.actionId, r.state, r.request, r.claim, r.result, r.laneState, ()))
    RetainedStatus.mk

/-! ## Entries -/

def Entry.codec : Codec Entry :=
  .record
    (field "target_id" .string <| field "target_key" .string <|
      field "operation" operationCodec <| field "parameters" Parameters.codec <|
      field "parameter_sha256" .string <| field "policy_revision" .string <|
      field "capability_revision" .string nil)
    (fun e => (e.targetId, e.targetKey, e.operation, e.parameters, e.parameterSha256,
        e.policyRevision, e.capabilityRevision, ())) Entry.mk

/-- The names that broker and worker use for parameters and entries. -/
def localParameters : Codec Parameters :=
  .record
    (field "formatVersion" .integer <| field "stopGraceSeconds" Grace.codec nil)
    (fun p => (p.formatVersion, p.stopGraceSeconds, ())) Parameters.mk

def localEntry : Codec Entry :=
  .record
    (field "targetId" .string <| field "targetKey" .string <| field "operation" operationCodec <|
      field "parameters" localParameters <| field "parameterSha256" .string <|
      field "policyRevision" .string <| field "capabilityRevision" .string nil)
    (fun e => (e.targetId, e.targetKey, e.operation, e.parameters, e.parameterSha256,
        e.policyRevision, e.capabilityRevision, ())) Entry.mk

def ApprovalSnapshot.codec : Codec ApprovalSnapshot :=
  .check validApprovalSnapshot <| .record
    (field "serverId" .string <| field "ownerUserId" .string <|
      field "connectorInstanceId" .string <| field "entries" (.list localEntry) nil)
    (fun a => (a.serverId, a.ownerUserId, a.connectorInstanceId, a.entries, ())) ApprovalSnapshot.mk

def SnapshotQuery.codec : Codec SnapshotQuery :=
  .check validateSnapshotQuery <| .record
    (field "server_id" .string <| field "owner_user_id" .string <|
      field "connector_instance_id" .string <| field "publication_id" .string <|
      field "entries" (.list Entry.codec) nil)
    (fun s => (s.serverId, s.ownerUserId, s.connectorInstanceId, s.publicationId, s.entries, ()))
    SnapshotQuery.mk

def SnapshotReceipt.codec : Codec SnapshotReceipt :=
  .check validSnapshotReceipt <| .record
    (field "publication_id" .string <| field "snapshot_revision" .string <|
      field "snapshot_digest" .string <| field "advertised_at" .string <|
      field "expires_at" .string nil)
    (fun s => (s.publicationId, s.snapshotRevision, s.snapshotDigest, s.advertisedAt,
        s.expiresAt, ())) SnapshotReceipt.mk

def SnapshotReply.codec : Codec SnapshotReply :=
  .check validSnapshotReply <| .record
    (field "outcome" SnapshotOutcome.codec <|
      field "receipt" (.nullable SnapshotReceipt.codec) nil)
    (fun s => (s.outcome, s.receipt, ())) SnapshotReply.mk

/-! ## Recovery -/

def RecoveryProposal.codec : Codec RecoveryProposal :=
  .check validRecoveryProposal <| .record
    (field "proposal_id" .string <| field "remote_receipt_digest" .string <|
      field "evidence_kind" RecoveryEvidence.codec nil)
    (fun r => (r.proposalId, r.remoteReceiptDigest, r.evidenceKind, ())) RecoveryProposal.mk

def Approval.codec : Codec Approval :=
  .check validateApproval <| .record
    (field "recovery_id" .string <| field "prepare_id" .string <|
      field "owner_decision_id" .string <| field "approval_revision" .string <|
      field "previous_prepare_id" optionalString <| field "server_id" .string <|
      field "owner_user_id" .string <| field "connector_instance_id" .string <|
      field "action_id" .string <| field "remote_receipt_digest" .string <|
      field "evidence_kind" RecoveryEvidence.codec <| field "lane_revision" .string <|
      field "committed_ack_digest" optionalString <| field "prepared_at" .string <|
      field "expires_at" .string nil)
    (fun a => (a.recoveryId, a.prepareId, a.ownerDecisionId, a.approvalRevision,
        a.previousPrepareId, a.serverId, a.ownerUserId, a.connectorInstanceId, a.actionId,
        a.remoteReceiptDigest, a.evidenceKind, a.laneRevision, a.committedAckDigest,
        a.preparedAt, a.expiresAt, ())) Approval.mk

def RecoveryCheck.codec : Codec RecoveryCheck :=
  .check validRecoveryCheck <| .record
    (field "recovery_id" .string <| field "prepare_id" .string <|
      field "approval_revision" .string <| field "remote_receipt_digest" .string <|
      field "check_nonce" .string <| field "committed_ack_digest" optionalString nil)
    (fun r => (r.recoveryId, r.prepareId, r.approvalRevision, r.remoteReceiptDigest,
        r.checkNonce, r.committedAckDigest, ())) RecoveryCheck.mk

def RecoveryDecision.codec : Codec RecoveryDecision :=
  .check validRecoveryDecision <| .record
    (field "approval" Approval.codec <| field "check_nonce" .string <|
      field "credential_id" .string <| field "credential_revision" .string <|
      field "checked_at" .string <| field "decision" Verdict.codec nil)
    (fun r => (r.approval, r.checkNonce, r.credentialId, r.credentialRevision, r.checkedAt,
        r.decision, ())) RecoveryDecision.mk

def FinalizeRequest.codec : Codec FinalizeRequest :=
  .check validFinalizeRequest <| .record
    (field "recovery_id" .string <| field "prepare_id" .string <|
      field "approval_revision" .string <| field "remote_receipt_digest" .string <|
      field "ack_digest" .string nil)
    (fun f => (f.recoveryId, f.prepareId, f.approvalRevision, f.remoteReceiptDigest, f.ackDigest,
        ())) FinalizeRequest.mk

def Finalization.codec : Codec Finalization :=
  .check validFinalization <| .record
    (field "recovery_id" .string <| field "prepare_id" .string <|
      field "owner_decision_id" .string <| field "approval_revision" .string <|
      field "action_id" .string <| field "remote_receipt_digest" .string <|
      field "ack_digest" .string <| field "released_lane_revision" .string <|
      field "finalized_at" .string nil)
    (fun f => (f.recoveryId, f.prepareId, f.ownerDecisionId, f.approvalRevision, f.actionId,
        f.remoteReceiptDigest, f.ackDigest, f.releasedLaneRevision, f.finalizedAt, ()))
    Finalization.mk

def RecoveryView.codec : Codec RecoveryView :=
  .check validRecoveryView <| .record
    (field "action_id" .string <| field "recovery_id" optionalString <|
      field "remote_receipt_digest" optionalString <|
      field "evidence_kind" (.nullable RecoveryEvidence.codec) <|
      field "lane_revision" .string <| field "state" RecoveryState.codec <|
      field "current_approval" (.nullable Approval.codec) <|
      field "finalization" (.nullable Finalization.codec) <|
      field "remaining_approvals" (.present .integer) nil)
    (fun r => (r.actionId, r.recoveryId, r.remoteReceiptDigest, r.evidenceKind, r.laneRevision,
        r.state, r.currentApproval, r.finalization, r.remainingApprovals, ())) RecoveryView.mk

/-- The body of a query of each operation. -/
def QueryBody.codec : RecoveryOperation → Codec QueryBody
  | .retained | .status => .unit .none
  | .propose =>
    RecoveryProposal.codec.embed .proposal (fun | .proposal p => some p | _ => .none)
  | .check => RecoveryCheck.codec.embed .check (fun | .check c => some c | _ => .none)
  | .finalize =>
    FinalizeRequest.codec.embed .finalize (fun | .finalize f => some f | _ => .none)

def RecoveryQuery.codec : Codec RecoveryQuery :=
  .check validRecoveryQuery <| .record
    (.dependent "body"
      (field "operation" RecoveryOperation.codec <| field "action_id" .string <|
        field "remote_receipt_digest" .string nil)
      fun (operation, _) => QueryBody.codec operation)
    (fun q => ((q.operation, q.actionId, q.remoteReceiptDigest, ()), q.body)) RecoveryQuery.mk

/-- The body of a reply that reports success. -/
def ReplyBody.codec : RecoveryOperation → Codec ReplyBody
  | .retained =>
    RetainedStatus.codec.embed .retained (fun | .retained s => some s | _ => .none)
  | .propose | .status =>
    RecoveryView.codec.embed .view (fun | .view v => some v | _ => .none)
  | .check =>
    RecoveryDecision.codec.embed .decision (fun | .decision d => some d | _ => .none)
  | .finalize =>
    Finalization.codec.embed .finalization (fun | .finalization f => some f | _ => .none)

def RecoveryReply.codec : Codec RecoveryReply :=
  .check validRecoveryReply <| .record
    (.dependent "body"
      (field "operation" RecoveryOperation.codec <| field "action_id" .string <|
        field "remote_receipt_digest" .string <| field "outcome" ReplyOutcome.codec nil)
      fun (operation, _, _, outcome, _) =>
        if outcome = .ok then ReplyBody.codec operation else .unit .none)
    (fun r => ((r.operation, r.actionId, r.remoteReceiptDigest, r.outcome, ()), r.body))
    RecoveryReply.mk

def RetainedLookup.codec : Codec RetainedLookup :=
  .check validRetainedLookup <| .record
    (field "action_id" .string <| field "remote_receipt_digest" .string nil)
    (fun r => (r.actionId, r.remoteReceiptDigest, ())) RetainedLookup.mk

/-! ## Administration -/

namespace Admin

def LocalState.text : LocalState → Bytes
  | unprepared => ascii "UNPREPARED"
  | recoveryRequired => ascii "RECOVERY_REQUIRED"
  | quiesced => ascii "QUIESCED"
  | acked => ascii "ACKED"

def LocalState.codec : Codec LocalState :=
  .enumeration LocalState.text [.unprepared, .recoveryRequired, .quiesced, .acked]

def ObservedState.text : ObservedState → Bytes
  | created => ascii "CREATED"
  | running => ascii "RUNNING"
  | exited => ascii "EXITED"

def ObservedState.codec : Codec ObservedState :=
  .enumeration ObservedState.text [.created, .running, .exited]

def RefusalCode.text : RefusalCode → Bytes
  | invalid => ascii "INVALID"
  | busy => ascii "BUSY"
  | bindingMismatch => ascii "BINDING_MISMATCH"
  | mappingUnavailable => ascii "MAPPING_UNAVAILABLE"
  | notQuiesced => ascii "NOT_QUIESCED"
  | inspectionUnavailable => ascii "INSPECTION_UNAVAILABLE"
  | remoteUnavailable => ascii "REMOTE_UNAVAILABLE"
  | ownerRequired => ascii "OWNER_REQUIRED"
  | full => ascii "FULL"
  | recoveryRequired => ascii "RECOVERY_REQUIRED"

def RefusalCode.codec : Codec RefusalCode :=
  .enumeration RefusalCode.text
    [.invalid, .busy, .bindingMismatch, .mappingUnavailable, .notQuiesced, .inspectionUnavailable,
     .remoteUnavailable, .ownerRequired, .full, .recoveryRequired]

def RecoveryInit.codec : Codec RecoveryInit :=
  .check validRecoveryInit <| .record
    (field "request" RequestReceipt.codec <| field "remote_receipt_digest" .string <|
      field "mapping_revision" .string nil)
    (fun r => (r.request, r.remoteReceiptDigest, r.mappingRevision, ())) RecoveryInit.mk

def RecoveryStatus.codec : Codec RecoveryStatus :=
  .check validRecoveryStatus <| .record
    (field "request" RequestReceipt.codec <| field "remote_receipt_digest" .string nil)
    (fun r => (r.request, r.remoteReceiptDigest, ())) RecoveryStatus.mk

def RecoveryContinue.codec : Codec RecoveryContinue :=
  .check validRecoveryContinue <| .record
    (field "request" RequestReceipt.codec <| field "remote_receipt_digest" .string <|
      field "recovery_id" .string <| field "prepare_id" .string <|
      field "approval_revision" .string nil)
    (fun r => (r.request, r.remoteReceiptDigest, r.recoveryId, r.prepareId, r.approvalRevision,
        ())) RecoveryContinue.mk

def RecoveryState.codec : Codec RecoveryState :=
  .check validRecoveryState <| .record
    (field "action_id" .string <| field "remote_receipt_digest" .string <|
      field "local_state" LocalState.codec <|
      field "evidence_kind" (.nullable RecoveryEvidence.codec) <|
      field "mapping_revision" optionalString <|
      field "observed_state" (.nullable ObservedState.codec) <|
      field "observed_at" optionalString <| field "ack_digest" optionalString <|
      field "remote" (.nullable RecoveryView.codec) nil)
    (fun r => (r.actionId, r.remoteReceiptDigest, r.localState, r.evidenceKind,
        r.mappingRevision, r.observedState, r.observedAt, r.ackDigest, r.remote, ()))
    RecoveryState.mk

def Refused.codec : Codec Refused :=
  .record
    (field "code" RefusalCode.codec nil)
    (fun r => (r.code, ())) Refused.mk

end Admin

end

end ActionProtocol

end HomeLab
