/-
  The administrator's messages.

  The owner recovers an action from the command line: it starts a recovery,
  asks for its state and continues it with an approval.  The broker answers
  with what it knows of the action, or refuses.
-/
import HomeLab.ActionProtocol.Envelope

namespace HomeLab

namespace ActionProtocol

/-- `2006-01-02T15:04:05.000000000Z` -/
def formatNanoTime (t : Instant) : Bytes :=
  formatSeconds (civil t) ++ (46 :: (fixed 9 (civil t).nano ++ [90]))

def validNanoTime (s : Bytes) : Bool := (parseRFC3339 s).any fun t => formatNanoTime t = s

structure RetainedLookup where
  actionId : Bytes
  remoteReceiptDigest : Bytes
  deriving DecidableEq, Repr

def validRetainedLookup (l : RetainedLookup) : Bool :=
  identifier l.actionId (ascii "hla_") && hexValue l.remoteReceiptDigest 64

namespace Admin

structure RecoveryInit where
  request : RequestReceipt
  remoteReceiptDigest : Bytes
  mappingRevision : Bytes
  deriving DecidableEq, Repr

structure RecoveryStatus where
  request : RequestReceipt
  remoteReceiptDigest : Bytes
  deriving DecidableEq, Repr

structure RecoveryContinue where
  request : RequestReceipt
  remoteReceiptDigest : Bytes
  recoveryId : Bytes
  prepareId : Bytes
  approvalRevision : Bytes
  deriving DecidableEq, Repr

/-- What the broker holds of the action. -/
inductive LocalState where
  | unprepared
  | recoveryRequired
  | quiesced
  | acked
  deriving DecidableEq, Repr

inductive ObservedState where
  | created
  | running
  | exited
  deriving DecidableEq, Repr

structure RecoveryState where
  actionId : Bytes
  remoteReceiptDigest : Bytes
  localState : LocalState
  evidenceKind : Option RecoveryEvidence
  mappingRevision : Option Bytes
  observedState : Option ObservedState
  observedAt : Option Bytes
  ackDigest : Option Bytes
  remote : Option RecoveryView
  deriving DecidableEq, Repr

inductive RefusalCode where
  | invalid
  | busy
  | bindingMismatch
  | mappingUnavailable
  | notQuiesced
  | inspectionUnavailable
  | remoteUnavailable
  | ownerRequired
  | full
  | recoveryRequired
  deriving DecidableEq, Repr

structure Refused where
  code : RefusalCode
  deriving DecidableEq, Repr

section
variable [Sha256]

/-- The checks that `decodeAdminCommand` makes for every command. -/
def validCommand (request : RequestReceipt) (digest : Bytes) : Bool :=
  validateRequest request && (receiptDigest request).any fun actual => hexText actual.toList = digest

def validRecoveryInit (c : RecoveryInit) : Bool :=
  validCommand c.request c.remoteReceiptDigest && revision c.mappingRevision

def validRecoveryStatus (c : RecoveryStatus) : Bool := validCommand c.request c.remoteReceiptDigest

def validRecoveryContinue (c : RecoveryContinue) : Bool :=
  validCommand c.request c.remoteReceiptDigest && nonce c.recoveryId && nonce c.prepareId &&
  approvalRevision c.approvalRevision

end

/-- The checks of `DecodeRecoveryState`. -/
def validRecoveryState (s : RecoveryState) : Bool :=
  identifier s.actionId (ascii "hla_") && hexValue s.remoteReceiptDigest 64 &&
  s.mappingRevision.all revision && optionalDigest s.ackDigest &&
  s.observedAt.isNone == s.observedState.isNone && s.observedAt.all validNanoTime &&
  s.remote.all (fun v => validRecoveryView v && v.actionId = s.actionId &&
    v.remoteReceiptDigest.all (· = s.remoteReceiptDigest)) &&
    match s.localState with
    | .unprepared | .recoveryRequired => true
    | .quiesced => evidenced s && s.ackDigest.isNone
    | .acked => evidenced s && s.ackDigest.isSome
where
  evidenced (s : RecoveryState) : Bool :=
    s.evidenceKind.isSome && s.mappingRevision.isSome && s.observedState.isSome

end Admin

end ActionProtocol

end HomeLab
