/-
  Transition records.

  A transition takes an installation from one configuration to the next: it
  refreshes the addresses or selects another artifact.  Its record names both
  configurations, the resources before and after, the predecessor's receipt and
  the artifact to roll back to.  `validateStage` checks the files of a staged
  transition, among them the record of its predecessor.

  Records are read, written again and compared with what was read, so nothing
  depends on how JSON is read (`Unmarshal`).
-/
import HomeLab.Connected.Config

namespace HomeLab

namespace Connected

/-! ## Records -/

inductive PredecessorFormat where
  | none
  /-- `legacy-refresh-v1` -/
  | legacy
  /-- `transition-v1` -/
  | transition
  deriving DecidableEq, Repr

def PredecessorFormat.text : PredecessorFormat → Bytes
  | none => ascii "none"
  | legacy => ascii "legacy-refresh-v1"
  | transition => ascii "transition-v1"

inductive TransitionOperation where
  | refresh
  | codeSelect
  deriving DecidableEq, Repr

def TransitionOperation.text : TransitionOperation → Bytes
  | refresh => ascii "refresh"
  | codeSelect => ascii "code-select"

/-- The digests of what is installed. -/
structure Resources where
  ca : Bytes
  hosts : Bytes
  collectorUnit : Bytes
  uploaderUnit : Bytes
  installedConfig : Bytes
  deriving DecidableEq, Repr

structure Object where
  inode : UInt64
  generation : UInt32
  deriving DecidableEq, Repr

structure PhysicalLedger where
  filesystemUuid : Bytes
  directory : Object
  database : Object
  deriving DecidableEq, Repr

structure Ledger where
  logicalSha256 : Bytes
  physical : PhysicalLedger
  deriving DecidableEq, Repr

def transitionVersion : Bytes := ascii "observer-connected-transition/v1"

structure Record where
  version : Bytes
  operation : TransitionOperation
  previous : Config
  next : Config
  predecessorFormat : PredecessorFormat
  predecessorCompletionSha : Bytes
  previousCodeBefore : Bytes
  previousCodeAfter : Bytes
  contractSha256 : Bytes
  previousResources : Resources
  nextResources : Resources
  ledger : Ledger
  deriving DecidableEq, Repr

/-- A lower-case hexadecimal digest; an optional one may be empty. -/
def digest (value : Bytes) (optional : Bool) : Bool := optional && value = [] || hexValue value 64

def Resources.valid (r : Resources) : Bool :=
  digest r.ca false && digest r.hosts false && digest r.collectorUnit false &&
  digest r.uploaderUnit false && digest r.installedConfig false

/-- The checks of `ledgeridentity.Validate`. -/
def PhysicalLedger.valid (p : PhysicalLedger) : Bool :=
  hexValue p.filesystemUuid 32 && p.directory.inode ≠ 0 && p.database.inode ≠ 0 &&
  p.directory.generation ≠ 0 && p.database.generation ≠ 0 &&
  p.directory.inode ≠ p.database.inode && p.filesystemUuid ≠ List.replicate 32 48

def validPredecessor (format : PredecessorFormat) (receiptSha : Bytes) : Bool :=
  match format with
  | .none => receiptSha = []
  | .legacy | .transition => digest receiptSha false

/-! ## Canonical texts -/

def Resources.json (r : Resources) : Json :=
  .obj [(ascii "ca_sha256", .str r.ca), (ascii "hosts_sha256", .str r.hosts),
    (ascii "collector_unit_sha256", .str r.collectorUnit),
    (ascii "uploader_unit_sha256", .str r.uploaderUnit),
    (ascii "installed_config_sha256", .str r.installedConfig)]

def Object.json (o : Object) : Json :=
  .obj [(ascii "inode", .num (decimal o.inode.toNat)),
    (ascii "generation", .num (decimal o.generation.toNat))]

def Ledger.json (l : Ledger) : Json :=
  .obj [(ascii "logical_sha256", .str l.logicalSha256),
    (ascii "physical", .obj [(ascii "filesystem_uuid", .str l.physical.filesystemUuid),
      (ascii "directory", l.physical.directory.json), (ascii "database", l.physical.database.json)])]

def Record.json (r : Record) : Json :=
  .obj [(ascii "version", .str r.version), (ascii "operation", .str r.operation.text),
    (ascii "previous", r.previous.json), (ascii "next", r.next.json),
    (ascii "predecessor_format", .str r.predecessorFormat.text),
    (ascii "predecessor_completion_sha256", .str r.predecessorCompletionSha),
    (ascii "previous_code_before", .str r.previousCodeBefore),
    (ascii "previous_code_after", .str r.previousCodeAfter),
    (ascii "contract_sha256", .str r.contractSha256),
    (ascii "previous_resources", r.previousResources.json),
    (ascii "next_resources", r.nextResources.json), (ascii "ledger", r.ledger.json)]

/-- How JSON is read into a value of the type, if it can be. -/
class Unmarshal (α : Type) where
  unmarshal : Bytes → Option α

def maxRecordBytes : ℕ := 16384

def maxPreparationBytes : ℕ := 4096

def maxCaBytes : ℕ := 1048576

section
variable [Sha256] [Netip]

def hash (data : Bytes) : Bytes := hexText (Sha256.sum256 data).toList

def hostname : Bytes := ascii "app.braidenmiller.com"

/-- The digest of the hosts file. -/
def hosts (addresses : List Bytes) : Bytes :=
  hash (addresses.flatMap fun a => a ++ (32 :: (hostname ++ [10])))

/-- What the operation authorizes: the copy of the previous configuration in which only that is
    replaced. -/
def Record.wanted (r : Record) : Config :=
  match r.operation with
  | .refresh =>
    { r.previous with policyGeneration := r.next.policyGeneration, addresses := r.next.addresses }
  | .codeSelect =>
    { r.previous with
      policyGeneration := r.next.policyGeneration, artifactSha256 := r.next.artifactSha256 }

/-- The rollback artifact of a refresh is kept; that of a selection is the previous artifact. -/
def Record.selects (r : Record) : Bool :=
  match r.operation with
  | .refresh => r.previousCodeAfter = r.previousCodeBefore
  | .codeSelect =>
    r.next.artifactSha256 ≠ r.previous.artifactSha256 &&
    r.previousCodeAfter = r.previous.artifactSha256 &&
    r.previousResources.ca = r.nextResources.ca && r.previousResources.hosts = r.nextResources.hosts

/-- The digest of a configuration is that of its text; an invalid one has the empty text. -/
def configHash (c : Config) : Bytes := hash (c.encode.getD [])

def Record.validate (r : Record) : Bool :=
  r.version = transitionVersion && r.previous.validate && r.next.validate &&
  r.previous.policyGeneration ≠ 18446744073709551615 &&
  r.next.policyGeneration = r.previous.policyGeneration + 1 &&
  validPredecessor r.predecessorFormat r.predecessorCompletionSha &&
  !(r.predecessorFormat = .none && r.previous.policyGeneration ≠ 1) &&
  digest r.previousCodeBefore true && digest r.previousCodeAfter true &&
  digest r.contractSha256 false && r.previousResources.valid && r.nextResources.valid &&
  digest r.ledger.logicalSha256 false && r.ledger.physical.valid && r.selects &&
  r.wanted.encode.getD [] = r.next.encode.getD [] &&
  r.previousResources.installedConfig = configHash r.previous &&
  r.nextResources.installedConfig = configHash r.next &&
  r.previousResources.hosts = hosts r.previous.addresses &&
  r.nextResources.hosts = hosts r.next.addresses

def Record.encode (r : Record) : Option Bytes :=
  if !r.validate then none
  else if maxRecordBytes < r.json.render.length then none
  else some r.json.render

def Record.decode [Unmarshal Record] (data : Bytes) : Option Record :=
  if data = [] || maxRecordBytes < data.length then none
  else (Unmarshal.unmarshal data).filter fun r => r.encode = some data

/-- The receipt of a completed transition. -/
def completion [Unmarshal Record] (canonicalRecord : Bytes) : Option Bytes :=
  (Record.decode canonicalRecord).map fun _ =>
    ascii "observer-connected-transition-complete/v1\n" ++ (hash canonicalRecord ++ [10])

/-! ## Legacy predecessors -/

structure LegacyRefresh where
  version : Bytes
  previous : Config
  next : Config
  deriving DecidableEq, Repr

def LegacyRefresh.json (r : LegacyRefresh) : Json :=
  .obj [(ascii "version", .str r.version), (ascii "previous", r.previous.json),
    (ascii "next", r.next.json)]

/-- What a legacy refresh authorizes. -/
def LegacyRefresh.wanted (r : LegacyRefresh) : Config :=
  { r.previous with policyGeneration := r.next.policyGeneration, addresses := r.next.addresses }

def decodeLegacyRefresh [Unmarshal LegacyRefresh] (data : Bytes) : Option LegacyRefresh :=
  if data = [] || 8192 < data.length then none
  else (Unmarshal.unmarshal data).filter fun r =>
    r.version = ascii "observer-connected-refresh/v1" && r.previous.validate && r.next.validate &&
    r.previous.policyGeneration ≠ 18446744073709551615 &&
    r.next.policyGeneration = r.previous.policyGeneration + 1 &&
    r.wanted.encode.getD [] = r.next.encode.getD [] && r.json.render = data

def admitCompletedLegacy [Unmarshal LegacyRefresh] (journal receipt : Bytes) (current : Config) :
    Option Bytes :=
  (decodeLegacyRefresh journal).bind fun r =>
    if receipt = [] || 256 < receipt.length || !current.validate ||
        current.encode.getD [] ≠ r.next.encode.getD [] ||
        receipt ≠ ascii "observer-connected-refresh-complete/v1\n" ++ (hash journal ++ [10]) then none
    else some (hash receipt)

/-! ## Preparations -/

def preparationVersion : Bytes := ascii "observer-connected-transition-preparing/v1"

structure Preparation where
  version : Bytes
  transitionSha256 : Bytes
  previous : Config
  previousResources : Resources
  predecessorFormat : PredecessorFormat
  predecessorCompletionSha : Bytes
  ledger : Ledger
  deriving DecidableEq, Repr

def Preparation.json (p : Preparation) : Json :=
  .obj [(ascii "version", .str p.version), (ascii "transition_sha256", .str p.transitionSha256),
    (ascii "previous", p.previous.json), (ascii "previous_resources", p.previousResources.json),
    (ascii "predecessor_format", .str p.predecessorFormat.text),
    (ascii "predecessor_completion_sha256", .str p.predecessorCompletionSha),
    (ascii "ledger", p.ledger.json)]

def prepare (r : Record) : Option Preparation :=
  r.encode.map fun encoded =>
    ⟨preparationVersion, hash encoded, r.previous, r.previousResources, r.predecessorFormat,
      r.predecessorCompletionSha, r.ledger⟩

def Preparation.validate (p : Preparation) : Bool :=
  p.previous.validate && p.version = preparationVersion && digest p.transitionSha256 false &&
  validPredecessor p.predecessorFormat p.predecessorCompletionSha &&
  !(p.predecessorFormat = .none && p.previous.policyGeneration ≠ 1) && p.previousResources.valid &&
  p.previousResources.installedConfig = configHash p.previous &&
  p.previousResources.hosts = hosts p.previous.addresses && digest p.ledger.logicalSha256 false &&
  p.ledger.physical.valid

def Preparation.encode (p : Preparation) : Option Bytes :=
  if !p.validate then none
  else if maxPreparationBytes < p.json.render.length then none
  else some p.json.render

def Preparation.decode [Unmarshal Preparation] (data : Bytes) : Option Preparation :=
  if data = [] || maxPreparationBytes < data.length then none
  else (Unmarshal.unmarshal data).filter fun p => p.encode = some data

/-- The preparation is the one of this record. -/
def matchesProposal (p : Preparation) (r : Record) : Bool :=
  (prepare r).any fun expected => p.encode.isSome && p.encode = expected.encode

/-! ## Stages -/

/-- The files of a stage; a file of another name is refused at once. -/
inductive StageFile where
  | proposal
  | oldCa
  | newCa
  | predecessor
  | predecessorCompletion
  deriving DecidableEq

def StageFile.all : List StageFile := [proposal, oldCa, newCa, predecessor, predecessorCompletion]

/-- The current record continues the one before it. -/
def Record.continues (r previous : Record) : Bool :=
  previous.next.encode.getD [] = r.previous.encode.getD [] &&
  previous.nextResources = r.previousResources && previous.contractSha256 = r.contractSha256 &&
  previous.previousCodeAfter = r.previousCodeBefore

/-- The check of the predecessor's files. -/
def Record.validPredecessorFiles [Unmarshal Record] [Unmarshal LegacyRefresh] (r : Record)
    (predecessor receipt : Bytes) : Bool :=
  receipt ≠ [] && receipt.length ≤ 256 && hash receipt = r.predecessorCompletionSha &&
    match r.predecessorFormat with
    | .legacy => admitCompletedLegacy predecessor receipt r.previous = some r.predecessorCompletionSha
    | _ => (Record.decode predecessor).any fun previous =>
        completion predecessor = some receipt && r.continues previous

/-- A certificate of a size that is accepted, with this digest. -/
def certificate (file : Option Bytes) (sha : Bytes) : Bool :=
  file.any fun ca => ca ≠ [] && ca.length ≤ maxCaBytes && hash ca = sha

def validateStage [Unmarshal Record] [Unmarshal LegacyRefresh] [Unmarshal Preparation]
    (preparation : Bytes) (files : StageFile → Option Bytes) : Option Record :=
  let present := (StageFile.all.filter fun f => (files f).isSome).length
  if present ≠ 3 && present ≠ 5 then none
  else
    (files .proposal).bind fun proposal =>
    (Preparation.decode preparation).bind fun witness =>
    (Record.decode proposal).filter fun r =>
      matchesProposal witness r && certificate (files .oldCa) r.previousResources.ca &&
      certificate (files .newCa) r.nextResources.ca &&
        match files .predecessor, files .predecessorCompletion with
        | none, none => r.predecessorFormat = .none
        | some predecessor, some receipt =>
          r.predecessorFormat ≠ .none && r.validPredecessorFiles predecessor receipt
        | _, _ => false

end

end Connected

end HomeLab
