/-
  What the worker accepts.

  The worker knows its server, owner and connector (`Binding`).  It converses only
  about a snapshot that carries them, and passes on a claim only if an entry of
  that snapshot agrees with it.
-/
import HomeLab.ActionProtocol.Snapshot
import HomeLab.ActionProtocol.Claims

namespace HomeLab

namespace ActionWorker

open ActionProtocol

/-- The ids with which a worker is installed. -/
structure Binding where
  serverId : Bytes
  ownerUserId : Bytes
  connectorInstanceId : Bytes
  deriving DecidableEq, Repr

def Binding.bound (w : Binding) (server owner connector : Bytes) : Bool :=
  w.serverId = server && w.ownerUserId = owner && w.connectorInstanceId = connector

/-- The entry permits the request of a receipt. -/
def permits (r : RequestReceipt) (e : Entry) : Bool :=
  r.targetId = e.targetId && r.targetKey = e.targetKey && r.operation = e.operation &&
  r.parameterSha256 = e.parameterSha256 && r.policyRevision = e.policyRevision &&
  r.capabilityRevision = e.capabilityRevision && r.parameters = e.parameters

section
variable [Sha256]

/-- The approval is one that the worker claims for. -/
def Binding.takesApproval (w : Binding) (approval : ApprovalSnapshot) : Bool :=
  validApprovalSnapshot approval &&
  w.bound approval.serverId approval.ownerUserId approval.connectorInstanceId &&
  !approval.entries.isEmpty

def Binding.claimApproved (w : Binding) (claim : Claim) (approval : ApprovalSnapshot) : Bool :=
  validClaim claim &&
  w.bound claim.request.serverId claim.request.ownerUserId claim.request.connectorInstanceId &&
  claim.request.actorUserId = w.ownerUserId && approval.entries.any (permits claim.request)

end

end ActionWorker

end HomeLab
