/-
  The owner policy of the broker.

  A policy document lists mappings: which container stands behind a target, for
  one operation with its parameters.  The current ones are advertised
  (`policyEntries`); a receipt is resolved to the one mapping that it names
  (`resolveReceipt`).  The checks of `validatePolicy` make both total and
  unambiguous.
-/
import HomeLab.ActionProtocol.Snapshot

namespace HomeLab

namespace ActionBroker

open ActionCore (Operation Key Binding Request newJournalKey)
open ActionProtocol

structure MappingDocument where
  serverId : Bytes
  ownerUserId : Bytes
  connectorInstanceId : Bytes
  targetId : Bytes
  engineGeneration : Bytes
  containerId : Bytes
  policyRevision : Bytes
  capabilityRevision : Bytes
  operation : Operation
  parameters : Parameters
  mappingRevision : Bytes
  deriving DecidableEq, Repr

/-- A decoded document; a missing list is refused and has no value here. -/
structure PolicyDocument where
  version : Bytes
  serverId : Bytes
  ownerUserId : Bytes
  connectorInstanceId : Bytes
  revision : Bytes
  current : List Bytes
  mappings : List MappingDocument
  deriving DecidableEq, Repr

/-! ## Fields -/

def localHex (s : Bytes) (n : ℕ) : Bool := s.length = n && s.all hexByte

def localID (s pre : Bytes) : Bool :=
  s.length = pre.length + 32 && s.take pre.length = pre && localHex (s.drop pre.length) 32

/-- The number of a revision, if it is one. -/
def localRevision (s : Bytes) : Option ℕ :=
  if 1 ≤ s.length && s.length ≤ 19 && s.head?.any (fun b => 49 ≤ b && b ≤ 57) && s.all isDigit &&
      numeral s < 2 ^ 63 && decimal (numeral s) = s then
    some (numeral s)
  else none

def MappingDocument.names : List Bytes :=
  [ascii "serverId", ascii "ownerUserId", ascii "connectorInstanceId", ascii "targetId",
   ascii "engineGeneration", ascii "containerId", ascii "policyRevision",
   ascii "capabilityRevision", ascii "operation", ascii "parameters"]

/-- The canonical text of a mapping; an empty mapping revision is left out. -/
def MappingDocument.marshal (m : MappingDocument) : Bytes :=
  (Json.obj (MappingDocument.names.zip
    [.str m.serverId, .str m.ownerUserId, .str m.connectorInstanceId, .str m.targetId,
     .str m.engineGeneration, .str m.containerId, .str m.policyRevision,
     .str m.capabilityRevision, .str m.operation.text, m.parameters.json] ++
    if m.mappingRevision = [] then [] else [(ascii "mappingRevision", .str m.mappingRevision)])).render

def semantic (m : MappingDocument) : Bytes := MappingDocument.marshal { m with mappingRevision := [] }

/-- The container behind a mapping. -/
def MappingDocument.physical (m : MappingDocument) : Bytes :=
  m.engineGeneration ++ 58 :: m.containerId

def MappingDocument.pair (m : MappingDocument) : Bytes := m.targetId ++ 58 :: m.operation.text

section
variable [Sha256]

def displayAlias (container : Bytes) : Bytes :=
  ascii "ctr_" ++ hexText ((Sha256.sum256 container).toList.take 8)

def validMapping (m : MappingDocument) (revisionRequired : Bool) : Bool :=
  localID m.serverId (ascii "srv_") && localID m.ownerUserId (ascii "usr_") &&
  localID m.connectorInstanceId (ascii "agent_") && localID m.targetId (ascii "hlt_") &&
  localHex m.engineGeneration 32 && localHex m.containerId 64 &&
  (localRevision m.policyRevision).isSome && (localRevision m.capabilityRevision).isSome &&
  (!revisionRequired || (localRevision m.mappingRevision).isSome) &&
  (parameterDigest m.operation m.parameters).isSome && m.marshal.length ≤ 1024

/-! ## Validation -/

/-- The mappings in order; the maps of the earlier mappings are read in `seen`. -/
def checkMappings (p : PolicyDocument) (head : ℕ) :
    List MappingDocument → ℕ → List MappingDocument → Bool
  | _, _, [] => true
  | seen, previous, m :: mappings =>
    (localRevision m.mappingRevision).any fun n =>
      previous < n && n ≤ head && validMapping m true && m.serverId = p.serverId &&
      m.ownerUserId = p.ownerUserId && m.connectorInstanceId = p.connectorInstanceId &&
      !seen.any (fun s => semantic s = semantic m) &&
      !seen.any (fun s => s.targetId = m.targetId && s.physical ≠ m.physical) &&
      checkMappings p head (seen ++ [m]) n mappings

def PolicyDocument.byRevision (p : PolicyDocument) (revision : Bytes) : Option MappingDocument :=
  p.mappings.find? fun m => m.mappingRevision = revision

/-- The current revisions in order; `seen` are the mappings of the earlier ones. -/
def checkCurrent (p : PolicyDocument) : List MappingDocument → ℕ → List Bytes → Bool
  | _, _, [] => true
  | seen, previous, revision :: revisions =>
    (localRevision revision).any fun n => (p.byRevision revision).any fun m =>
      previous < n && !seen.any (fun s => s.pair = m.pair) &&
      !seen.any (fun s => displayAlias s.containerId = displayAlias m.containerId &&
        s.targetId ≠ m.targetId) &&
      !seen.any (fun s => s.physical = m.physical && s.targetId ≠ m.targetId) &&
      checkCurrent p (seen ++ [m]) n revisions

def validatePolicy (p : PolicyDocument) : Bool :=
  (localRevision p.revision).any fun head =>
    p.version = ascii "observer-action-policy/v1" && localID p.serverId (ascii "srv_") &&
    localID p.ownerUserId (ascii "usr_") && localID p.connectorInstanceId (ascii "agent_") &&
    p.current.length ≤ 32 && p.mappings.length ≤ 1032 && checkMappings p head [] 0 p.mappings &&
    checkCurrent p [] 0 p.current && p.mappings.length - p.current.length ≤ 1000

/-! ## Advertised entries -/

def MappingDocument.entry (m : MappingDocument) (hash : Bytes) : Entry where
  targetId := m.targetId
  targetKey := displayAlias m.containerId
  operation := m.operation
  parameters := m.parameters
  parameterSha256 := hash
  policyRevision := m.policyRevision
  capabilityRevision := m.capabilityRevision

/-- The entries of the mappings, if all their parameters can be digested. -/
def entriesOf : List MappingDocument → Option (List Entry)
  | [] => some []
  | m :: mappings =>
    match parameterDigest m.operation m.parameters, entriesOf mappings with
    | some hash, some entries => some (m.entry hash :: entries)
    | _, _ => none

def PolicyDocument.currentMappings (p : PolicyDocument) : List MappingDocument :=
  p.mappings.filter fun m => m.mappingRevision ∈ p.current

def entriesDigest (entries : List Entry) : Digest :=
  Sha256.sum256 (Json.arr (entries.map Entry.json)).render

def policyEntries (p : PolicyDocument) : Option (List Entry × Digest) :=
  if !validatePolicy p then none
  else
    match entriesOf p.currentMappings with
    | none => none
    | some entries =>
      let entries := entries.insertionSort fun a b => a.key ≤ b.key
      if !validateEntries entries then none
      else some (entries, entriesDigest entries)

/-- Lookup in sorted targets: the first that is not below. -/
def containsTarget (targets : List Bytes) (target : Bytes) : Bool :=
  (targets.find? fun t => target ≤ t) = some target

/-- What is approved for some targets. -/
def approvalOf (p : PolicyDocument) (targets : List Bytes) : Option ApprovalSnapshot :=
  (policyEntries p).map fun entries =>
    { serverId := p.serverId, ownerUserId := p.ownerUserId,
      connectorInstanceId := p.connectorInstanceId,
      entries := entries.1.filter fun e => containsTarget targets e.targetId }

/-! ## Resolving a receipt -/

structure ResolvedBinding where
  key : Key
  binding : Binding
  mappingRevision : Bytes
  remoteDigest : Digest
  deriving DecidableEq

/-- The mapping is the one that a receipt names. -/
def MappingDocument.isNamedBy (p : PolicyDocument) (r : RequestReceipt) (current : Bool)
    (m : MappingDocument) : Bool :=
  m.targetId = r.targetId && m.operation = r.operation && m.policyRevision = r.policyRevision &&
  m.capabilityRevision = r.capabilityRevision && m.parameters = r.parameters &&
  (!current || m.mappingRevision ∈ p.current)

inductive Selection where
  | none
  | one (m : MappingDocument)
  | ambiguous
  deriving DecidableEq

/-- The loop over the mappings; a second match ends it. -/
def selectMapping (p : PolicyDocument) (r : RequestReceipt) (current : Bool) :
    Option MappingDocument → List MappingDocument → Selection
  | none, [] => .none
  | some m, [] => .one m
  | none, m :: mappings =>
    if m.isNamedBy p r current then selectMapping p r current (some m) mappings
    else selectMapping p r current none mappings
  | some s, m :: mappings =>
    if m.isNamedBy p r current then .ambiguous else selectMapping p r current (some s) mappings

/-- The request of the core that a receipt stands for. -/
def coreRequest (r : RequestReceipt) (created expires : Instant) : Request where
  actionId := r.actionId
  serverId := r.serverId
  installationId := r.connectorInstanceId
  ownerId := r.ownerUserId
  actorId := r.actorUserId
  targetId := r.targetId
  operation := r.operation
  graceSeconds := r.parameters.stopGraceSeconds.seconds
  policyRevision := (numeral r.policyRevision).toUInt64
  capabilityRevision := (numeral r.capabilityRevision).toUInt64
  createdAt := created
  expiresAt := expires

def coreBinding (r : RequestReceipt) (m : MappingDocument) : Binding where
  serverId := r.serverId
  installationId := r.connectorInstanceId
  ownerId := r.ownerUserId
  targetId := r.targetId
  engineGeneration := m.engineGeneration
  containerId := m.containerId
  policyRevision := (numeral r.policyRevision).toUInt64
  capabilityRevision := (numeral r.capabilityRevision).toUInt64
  graceSeconds := r.parameters.stopGraceSeconds.seconds
  operations := [r.operation]

/-- The binding of a receipt to a mapping. -/
def bindTo (r : RequestReceipt) (m : MappingDocument) : Option ResolvedBinding :=
  let created := (parseHTTPTime r.requestedAt).getD 0
  let expires := (parseHTTPTime r.expiresAt).getD 0
  (newJournalKey (coreRequest r created expires) (coreBinding r m)).bind fun key =>
    (receiptDigest r).map fun digest => ⟨key, coreBinding r m, m.mappingRevision, digest⟩

def resolveReceipt (p : PolicyDocument) (r : RequestReceipt) (current : Bool) :
    Option ResolvedBinding :=
  if !validatePolicy p || !validateRequest r || r.serverId ≠ p.serverId ||
      r.ownerUserId ≠ p.ownerUserId || r.connectorInstanceId ≠ p.connectorInstanceId then none
  else
    match selectMapping p r current none p.mappings with
    | .one m => if r.targetKey ≠ displayAlias m.containerId then none else bindTo r m
    | _ => none

end

end ActionBroker

end HomeLab
