/-
  Claims, decisions and reports.

  What the worker and the server exchange about one action, as decoded values
  with the checks that decoding makes.  A claim leases the action for two
  minutes; at two checkpoints the server decides anew; a report tells the
  outcome that the journal retains.
-/
import HomeLab.ActionProtocol.Receipt

namespace HomeLab

namespace ActionProtocol

open ActionCore (Operation Code)

structure Claim where
  request : RequestReceipt
  executionLeaseId : Bytes
  claimCredentialId : Bytes
  claimCredentialRevision : Bytes
  claimedAt : Bytes
  leaseExpiresAt : Bytes
  correlationId : Bytes
  deriving DecidableEq, Repr

inductive Verdict where
  | permitted
  | denied
  | other
  deriving DecidableEq, Repr

/-- The answer of the server at a checkpoint. -/
structure ExecutionDecision where
  request : RequestReceipt
  executionLeaseId : Bytes
  checkpoint : ℕ
  checkNonce : Bytes
  credentialId : Bytes
  credentialRevision : Bytes
  checkedAt : Bytes
  decision : Verdict
  deriving DecidableEq, Repr

structure CheckRequest where
  request : RequestReceipt
  executionLeaseId : Bytes
  checkpoint : ℕ
  checkNonce : Bytes
  deriving DecidableEq, Repr

inductive EvidenceKind where
  | retainedTerminal
  | quiescedIntent
  deriving DecidableEq, Repr

structure Report where
  request : RequestReceipt
  executionLeaseId : Bytes
  resultCode : Code
  evidenceKind : EvidenceKind
  correlationId : Bytes
  deriving DecidableEq, Repr

structure ResultReceipt where
  request : RequestReceipt
  executionLeaseId : Bytes
  reportingCredentialId : Bytes
  reportingCredentialRevision : Bytes
  resultCode : Code
  recordedAt : Bytes
  correlationId : Bytes
  deriving DecidableEq, Repr

section
variable [Sha256]

/-- The checks of `DecodeClaim`. -/
def validClaim (c : Claim) : Bool :=
  validateRequest c.request &&
  identifier c.executionLeaseId (ascii "hle_") && identifier c.claimCredentialId (ascii "hlac_") &&
  revision c.claimCredentialRevision && correlation c.correlationId &&
    match parseHTTPTime c.request.requestedAt, parseHTTPTime c.request.expiresAt,
      parseHTTPTime c.claimedAt, parseHTTPTime c.leaseExpiresAt with
    | some created, some expires, some claimed, some lease =>
      created ≤ claimed && lease ≤ expires && timeSub lease claimed = 120 * second
    | _, _, _, _ => false

/-- The checks of `DecodeExecutionDecision`. -/
def validExecutionDecision (d : ExecutionDecision) : Bool :=
  validateRequest d.request && (parseHTTPTime d.checkedAt).isSome &&
  identifier d.executionLeaseId (ascii "hle_") && (d.checkpoint = 1 || d.checkpoint = 2) &&
  nonce d.checkNonce && identifier d.credentialId (ascii "hlac_") &&
  revision d.credentialRevision && d.decision ≠ .other

/-- The checks of `DecodeCheckRequest`. -/
def validCheckRequest (q : CheckRequest) : Bool :=
  validateRequest q.request && identifier q.executionLeaseId (ascii "hle_") &&
  (q.checkpoint = 1 || q.checkpoint = 2) && nonce q.checkNonce

/-- The codes that may be reported for an operation. -/
def resultCode (operation : Operation) : Code → Bool
  | .stateConflict | .outcomeUnknown => true
  | .started | .alreadyRunning => operation = .start
  | .stopped | .alreadyStopped => operation = .stop
  | .restarted => operation = .restart
  | _ => false

/-- The checks of `DecodeReport`. -/
def validReport (r : Report) : Bool :=
  validateRequest r.request && identifier r.executionLeaseId (ascii "hle_") &&
  correlation r.correlationId && resultCode r.request.operation r.resultCode &&
  decide (r.resultCode = .outcomeUnknown) == decide (r.evidenceKind = .quiescedIntent)

/-- The checks of `DecodeResultReceipt`. -/
def validResultReceipt (r : ResultReceipt) : Bool :=
  validateRequest r.request && identifier r.executionLeaseId (ascii "hle_") &&
  identifier r.reportingCredentialId (ascii "hlac_") && revision r.reportingCredentialRevision &&
  resultCode r.request.operation r.resultCode && correlation r.correlationId &&
    match parseHTTPTime r.recordedAt, parseHTTPTime r.request.requestedAt,
      parseHTTPTime r.request.expiresAt with
    | some recorded, some created, some expires => created ≤ recorded && recorded < expires
    | _, _, _ => false

end

def matchResultReceipt (c : Claim) (r : ResultReceipt) : Bool :=
  match parseHTTPTime r.recordedAt, parseHTTPTime c.claimedAt, parseHTTPTime c.leaseExpiresAt with
  | some recorded, some claimed, some expires =>
    r.request = c.request && r.executionLeaseId = c.executionLeaseId && claimed ≤ recorded &&
    recorded < expires
  | _, _, _ => false

/-! ## An example -/

def sampleId (pre : String) : Bytes := ascii pre ++ List.replicate 32 97

/-- A receipt that is valid with the digest `plainDigest`. -/
def sampleReceipt : RequestReceipt where
  actionId := sampleId "hla_"
  serverId := sampleId "srv_"
  ownerUserId := sampleId "usr_"
  actorUserId := sampleId "usr_"
  connectorInstanceId := sampleId "agent_"
  operation := .start
  targetId := sampleId "hlt_"
  targetKey := ascii "ctr_0000000000000000"
  idempotencyKeyHash := List.replicate 64 48
  policyRevision := ascii "1"
  capabilityRevision := ascii "1"
  parameters := ⟨1, ⟨0, true⟩⟩
  parameterSha256 := List.replicate 64 48
  requestedAt := ascii "2024-01-01T00:00:00.000000Z"
  expiresAt := ascii "2024-01-01T00:05:00.000000Z"
  correlationId := ascii "c"

def sampleClaim : Claim where
  request := sampleReceipt
  executionLeaseId := sampleId "hle_"
  claimCredentialId := sampleId "hlac_"
  claimCredentialRevision := ascii "1"
  claimedAt := ascii "2024-01-01T00:00:01.000000Z"
  leaseExpiresAt := ascii "2024-01-01T00:02:01.000000Z"
  correlationId := ascii "c"

/-! ## The lease of a claim -/

theorem lease_of_validClaim [Sha256] {c : Claim} (h : validClaim c = true) :
    ∃ claimed lease, parseHTTPTime c.claimedAt = some claimed ∧
      parseHTTPTime c.leaseExpiresAt = some lease ∧ lease = claimed + 120 * second := by
  simp only [validClaim, Bool.and_eq_true] at h
  obtain ⟨-, h⟩ := h
  split at h
  · rename_i created expires claimed lease _ _ hc hl
    refine ⟨claimed, lease, hc, hl, ?_⟩
    simp only [Bool.and_eq_true, decide_eq_true_eq] at h
    exact eq_of_timeSub (by decide) (by decide) h.2
  · cases h

end ActionProtocol

end HomeLab
