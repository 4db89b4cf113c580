/-
  Advertised permissions.

  An entry says that one operation with fixed parameters is allowed on one
  target.  Entries are advertised in the order of target and operation, each
  pair once, and targets and display keys determine each other
  (`validateEntries`).  The broker asks the worker to publish them
  (`SnapshotQuery`), and the server answers with the digest of what it
  published and for how long (`SnapshotReceipt`).
-/
import HomeLab.ActionProtocol.Receipt

namespace HomeLab

namespace ActionProtocol

open ActionCore (Operation)

structure Entry where
  targetId : Bytes
  targetKey : Bytes
  operation : Operation
  parameters : Parameters
  parameterSha256 : Bytes
  policyRevision : Bytes
  capabilityRevision : Bytes
  deriving DecidableEq, Repr

/-- The sort key of an entry. -/
def Entry.key (e : Entry) : Bytes := e.targetId ++ 0 :: e.operation.text

section
variable [Sha256]

def validEntry (e : Entry) : Bool :=
  parameterDigest e.operation e.parameters = some e.parameterSha256 &&
  identifier e.targetId (ascii "hlt_") && e.targetKey.length = 20 &&
  (ascii "ctr_").isPrefixOf e.targetKey && hexValue (e.targetKey.drop 4) 16 &&
  revision e.policyRevision && revision e.capabilityRevision

/-- The entries in order; the maps of the earlier entries are read in `seen`. -/
def checkEntries : List Entry → Bytes → List Entry → Bool
  | _, _, [] => true
  | seen, previous, e :: entries =>
    validEntry e && previous < e.key &&
    !seen.any (fun s => s.targetKey = e.targetKey && s.targetId ≠ e.targetId) &&
    !seen.any (fun s => s.targetId = e.targetId && s.targetKey ≠ e.targetKey) &&
    checkEntries (seen ++ [e]) e.key entries

def validateEntries (entries : List Entry) : Bool :=
  entries.length ≤ 32 && checkEntries [] [] entries

end

/-- What the broker lets the worker claim in one conversation. -/
structure ApprovalSnapshot where
  serverId : Bytes
  ownerUserId : Bytes
  connectorInstanceId : Bytes
  entries : List Entry
  deriving DecidableEq, Repr

/-- The checks of `DecodeApprovalSnapshot`. -/
def validApprovalSnapshot [Sha256] (s : ApprovalSnapshot) : Bool :=
  identifier s.serverId (ascii "srv_") && identifier s.ownerUserId (ascii "usr_") &&
  identifier s.connectorInstanceId (ascii "agent_") && s.entries.length ≤ 32 &&
  validateEntries s.entries

/-! ## The canonical text of entries -/

def Entry.names : List Bytes :=
  [ascii "target_id", ascii "target_key", ascii "operation", ascii "parameters",
   ascii "parameter_sha256", ascii "policy_revision", ascii "capability_revision"]

def Entry.json (e : Entry) : Json :=
  .obj (Entry.names.zip
    [.str e.targetId, .str e.targetKey, .str e.operation.text, e.parameters.json,
     .str e.parameterSha256, .str e.policyRevision, .str e.capabilityRevision])

/-! ## Publication -/

structure SnapshotReceipt where
  publicationId : Bytes
  snapshotRevision : Bytes
  snapshotDigest : Bytes
  advertisedAt : Bytes
  expiresAt : Bytes
  deriving DecidableEq, Repr

structure SnapshotQuery where
  serverId : Bytes
  ownerUserId : Bytes
  connectorInstanceId : Bytes
  publicationId : Bytes
  entries : List Entry
  deriving DecidableEq, Repr

inductive SnapshotOutcome where
  | ok
  | denied
  | unavailable
  | conflict
  | other
  deriving DecidableEq, Repr

structure SnapshotReply where
  outcome : SnapshotOutcome
  receipt : Option SnapshotReceipt
  deriving DecidableEq, Repr

def validSnapshotReceipt (r : SnapshotReceipt) : Bool :=
  hexValue r.publicationId 32 && revision r.snapshotRevision && hexValue r.snapshotDigest 64 &&
    match parseHTTPTime r.advertisedAt, parseHTTPTime r.expiresAt with
    | some start, some expiry => timeSub expiry start = 60 * second
    | _, _ => false

/-- The checks of `DecodeSnapshotReply`. -/
def validSnapshotReply (r : SnapshotReply) : Bool :=
  match r.outcome with
  | .ok => r.receipt.any validSnapshotReceipt
  | .denied | .unavailable | .conflict => r.receipt.isNone
  | .other => false

section
variable [Sha256]

def validateSnapshotQuery (q : SnapshotQuery) : Bool :=
  identifier q.serverId (ascii "srv_") && identifier q.ownerUserId (ascii "usr_") &&
  identifier q.connectorInstanceId (ascii "agent_") && nonce q.publicationId &&
  validateEntries q.entries

/-- The digest of the published entries, with the revision and the times of the receipt. -/
def snapshotDigest (server owner connector : Bytes) (r : SnapshotReceipt) (entries : List Entry) :
    Option Bytes :=
  if !(identifier server (ascii "srv_") && identifier owner (ascii "usr_") &&
      identifier connector (ascii "agent_") && validSnapshotReceipt r && validateEntries entries) then
    none
  else
    let raw := (preimage server owner connector r entries).render
    if maxEnvelopeBytes < raw.length then none
    else some (hexText (Sha256.sum256 (ascii "platform-container-snapshot/v1\n" ++ raw)).toList)
where
  preimage (server owner connector : Bytes) (r : SnapshotReceipt) (entries : List Entry) : Json :=
    .obj [(ascii "server_id", .str server), (ascii "owner_user_id", .str owner),
      (ascii "connector_instance_id", .str connector),
      (ascii "snapshot_revision", .str r.snapshotRevision),
      (ascii "advertised_at", .str r.advertisedAt), (ascii "expires_at", .str r.expiresAt),
      (ascii "entries", .arr (entries.map Entry.json))]

/-- The reply confirms that exactly the entries of the query were published. -/
def matchSnapshotReply (q : SnapshotQuery) (r : SnapshotReply) : Bool :=
  validateSnapshotQuery q && r.outcome = .ok && r.receipt.any fun receipt =>
    receipt.publicationId = q.publicationId &&
    snapshotDigest q.serverId q.ownerUserId q.connectorInstanceId receipt q.entries =
      some receipt.snapshotDigest

end

/-! ## What validation asks -/

/-- Entries that agree on the display key agree on the target, and conversely. -/
def Entry.Consistent (a b : Entry) : Prop :=
  (a.targetKey = b.targetKey → a.targetId = b.targetId) ∧
    (a.targetId = b.targetId → a.targetKey = b.targetKey)

theorem checkEntries_of [Sha256] {entries : List Entry} (hvalid : ∀ e ∈ entries, validEntry e = true)
    (hsorted : entries.Pairwise fun a b => a.key < b.key)
    (hall : ∀ a ∈ entries, ∀ b ∈ entries, a.Consistent b) :
    ∀ {seen : List Entry} {previous : Bytes}, (∀ e ∈ entries, previous < e.key) →
      (∀ s ∈ seen, ∀ e ∈ entries, s.Consistent e) → checkEntries seen previous entries = true := by
  induction entries with
  | nil => intros; rfl
  | cons e entries ih =>
    intro seen previous hprev hseen
    obtain ⟨hlt, hsorted⟩ := List.pairwise_cons.1 hsorted
    have hrest : (∀ s ∈ seen ++ [e], ∀ a ∈ entries, s.Consistent a) →
        checkEntries (seen ++ [e]) e.key entries = true :=
      ih (fun a ha => hvalid a (List.mem_cons_of_mem _ ha)) hsorted
        (fun a ha b hb => hall a (List.mem_cons_of_mem _ ha) b (List.mem_cons_of_mem _ hb)) hlt
    rw [checkEntries]
    simp only [Bool.and_eq_true, decide_eq_true_eq, Bool.not_eq_true', List.any_eq_false,
      not_and, not_not]
    refine ⟨⟨⟨⟨hvalid e (List.mem_cons_self ..), hprev e (List.mem_cons_self ..)⟩, ?_⟩, ?_⟩, ?_⟩
    · exact fun s hs => (hseen s hs e (List.mem_cons_self ..)).1
    · exact fun s hs => (hseen s hs e (List.mem_cons_self ..)).2
    · refine hrest fun s hs a ha => ?_
      rcases List.mem_append.1 hs with hs | hs
      · exact hseen s hs a (List.mem_cons_of_mem _ ha)
      · rw [List.mem_singleton.1 hs]
        exact hall e (List.mem_cons_self ..) a (List.mem_cons_of_mem _ ha)

theorem validateEntries_of [Sha256] {entries : List Entry} (hlen : entries.length ≤ 32)
    (hvalid : ∀ e ∈ entries, validEntry e = true)
    (hsorted : entries.Pairwise fun a b => a.key < b.key)
    (hall : ∀ a ∈ entries, ∀ b ∈ entries, a.Consistent b) : validateEntries entries = true := by
  rw [validateEntries, Bool.and_eq_true]
  refine ⟨decide_eq_true hlen, checkEntries_of hvalid hsorted hall (fun e _ => ?_) ?_⟩
  · rw [Entry.key]
    cases e.targetId <;> exact List.nil_lt_cons _ _
  · exact fun s hs => absurd hs List.not_mem_nil

end ActionProtocol

end HomeLab
