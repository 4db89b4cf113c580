/-
  Action requests and their journal identity.

  A request names a target container and an operation; the private policy binds
  the target to an engine generation and a container.  The journal identifies
  an action by the canonical JSON text of both (`canonicalJournalMetadata`) and
  its SHA-256 digest.

  `parse_canonicalJournalMetadata`: the text determines the key, so two keys
  with one text are one key.
-/
import HomeLab.Lib.Json
import HomeLab.Lib.Timestamp

namespace HomeLab

namespace ActionCore

inductive Operation where
  | start
  | stop
  | restart
  deriving DecidableEq, Repr

def Operation.text : Operation → Bytes
  | start => ascii "CONTAINER_START"
  | stop => ascii "CONTAINER_STOP"
  | restart => ascii "CONTAINER_RESTART"

def Operation.ofText (s : Bytes) : Option Operation :=
  if s = text start then some start
  else if s = text stop then some stop
  else if s = text restart then some restart
  else none

@[simp] theorem Operation.ofText_text (op : Operation) : ofText op.text = some op := by
  cases op <;> decide

/-- The outcome of an execution. -/
inductive Code where
  | started
  | stopped
  | restarted
  | alreadyRunning
  | alreadyStopped
  | denied
  | stateConflict
  | unavailable
  | budgetExceeded
  | outcomeUnknown
  | identityConflict
  deriving DecidableEq, Repr

/-- An authenticated receipt. -/
structure Request where
  actionId : Bytes
  serverId : Bytes
  installationId : Bytes
  ownerId : Bytes
  actorId : Bytes
  targetId : Bytes
  operation : Operation
  graceSeconds : UInt8
  policyRevision : UInt64
  capabilityRevision : UInt64
  createdAt : Instant
  expiresAt : Instant
  deriving DecidableEq, Repr

/-- What the local owner policy says about a target. -/
structure Binding where
  serverId : Bytes := []
  installationId : Bytes := []
  ownerId : Bytes := []
  targetId : Bytes := []
  engineGeneration : Bytes
  containerId : Bytes
  policyRevision : UInt64 := 0
  capabilityRevision : UInt64 := 0
  graceSeconds : UInt8 := 0
  operations : List Operation := []
  deriving DecidableEq, Repr

structure JournalMetadata where
  request : Request
  engineGeneration : Bytes
  containerId : Bytes
  deriving DecidableEq, Repr

/-- The private journal identity of an action. -/
structure Key where
  actionId : Bytes
  targetId : Bytes
  fingerprint : Digest
  metadata : JournalMetadata
  deriving DecidableEq

/-! ## Identifiers -/

def hex (value : Bytes) (length : ℕ) : Bool := value.length = length && value.all hexByte

def identifier (value pre : Bytes) : Bool :=
  value.length = pre.length + 32 && value.take pre.length = pre && hex (value.drop pre.length) 32

theorem length_of_hex {s : Bytes} {n : ℕ} (h : hex s n = true) : s.length = n := by
  simp only [hex, Bool.and_eq_true, decide_eq_true_eq] at h
  exact h.1

theorem length_of_identifier {s pre : Bytes} (h : identifier s pre = true) :
    s.length = pre.length + 32 := by
  simp only [identifier, Bool.and_eq_true, decide_eq_true_eq] at h
  exact h.1.1

/-! ## Admission of a request -/

def valid (r : Request) (b : Binding) (now : Instant) : Bool :=
  identifier r.actionId (ascii "hla_") && identifier r.serverId (ascii "srv_") &&
  identifier r.installationId (ascii "agent_") && identifier r.ownerId (ascii "usr_") &&
  identifier r.actorId (ascii "usr_") && identifier r.targetId (ascii "hlt_") &&
  hex b.containerId 64 && hex b.engineGeneration 32 &&
  r.policyRevision ≠ 0 && r.capabilityRevision ≠ 0 &&
  r.serverId = b.serverId && r.installationId = b.installationId && r.ownerId = b.ownerId &&
  r.targetId = b.targetId && r.policyRevision = b.policyRevision &&
  r.capabilityRevision = b.capabilityRevision && r.createdAt ≠ 0 && r.createdAt < r.expiresAt &&
  r.expiresAt - r.createdAt ≤ 5 * minute && r.createdAt ≤ now && now < r.expiresAt &&
  1 ≤ b.operations.length && b.operations.length ≤ 3 && b.operations.Nodup &&
  r.operation ∈ b.operations &&
  (!(.stop ∈ b.operations || .restart ∈ b.operations) ||
    1 ≤ b.graceSeconds && b.graceSeconds ≤ 30) &&
  if r.operation = .start then r.graceSeconds = 0
  else 1 ≤ r.graceSeconds && r.graceSeconds ≤ 30 && r.graceSeconds = b.graceSeconds

/-! ## The canonical text -/

/-- The fingerprint preimage; the field order is part of the identity. -/
structure JournalRecord where
  version : ℕ
  actionId : Bytes
  serverId : Bytes
  installationId : Bytes
  ownerId : Bytes
  actorId : Bytes
  targetId : Bytes
  engineGeneration : Bytes
  containerId : Bytes
  operation : Bytes
  grace : UInt8
  policy : UInt64
  capability : UInt64
  created : Bytes
  expires : Bytes
  deriving DecidableEq, Repr

def journalRecordFor (r : Request) (b : Binding) : JournalRecord where
  version := 1
  actionId := r.actionId
  serverId := r.serverId
  installationId := r.installationId
  ownerId := r.ownerId
  actorId := r.actorId
  targetId := r.targetId
  engineGeneration := b.engineGeneration
  containerId := b.containerId
  operation := r.operation.text
  grace := r.graceSeconds
  policy := r.policyRevision
  capability := r.capabilityRevision
  created := formatRFC3339Nano r.createdAt
  expires := formatRFC3339Nano r.expiresAt

namespace JournalRecord

def names : List Bytes :=
  [ascii "Version", ascii "ActionID", ascii "ServerID", ascii "InstallationID", ascii "OwnerID",
   ascii "ActorID", ascii "TargetID", ascii "EngineGeneration", ascii "ContainerID",
   ascii "Operation", ascii "Grace", ascii "Policy", ascii "Capability", ascii "Created",
   ascii "Expires"]

def fields (v : JournalRecord) : List (Bytes × Json) :=
  names.zip
    [.num (decimal v.version), .str v.actionId, .str v.serverId, .str v.installationId,
     .str v.ownerId, .str v.actorId, .str v.targetId, .str v.engineGeneration, .str v.containerId,
     .str v.operation, .num (decimal v.grace.toNat), .num (decimal v.policy.toNat),
     .num (decimal v.capability.toNat), .str v.created, .str v.expires]

def marshal (v : JournalRecord) : Bytes := (Json.obj v.fields).render

/-- Read the fields in any order; an absent field keeps its zero value. -/
def ofFields (fs : List (Bytes × Json)) : Option JournalRecord := do
  let version ← Json.natField (2 ^ 63) (ascii "Version") fs
  let actionId ← Json.stringField (ascii "ActionID") fs
  let serverId ← Json.stringField (ascii "ServerID") fs
  let installationId ← Json.stringField (ascii "InstallationID") fs
  let ownerId ← Json.stringField (ascii "OwnerID") fs
  let actorId ← Json.stringField (ascii "ActorID") fs
  let targetId ← Json.stringField (ascii "TargetID") fs
  let engineGeneration ← Json.stringField (ascii "EngineGeneration") fs
  let containerId ← Json.stringField (ascii "ContainerID") fs
  let operation ← Json.stringField (ascii "Operation") fs
  let grace ← Json.natField (2 ^ 8) (ascii "Grace") fs
  let policy ← Json.natField (2 ^ 64) (ascii "Policy") fs
  let capability ← Json.natField (2 ^ 64) (ascii "Capability") fs
  let created ← Json.stringField (ascii "Created") fs
  let expires ← Json.stringField (ascii "Expires") fs
  return { version, actionId, serverId, installationId, ownerId, actorId, targetId,
           engineGeneration, containerId, operation, grace := grace.toUInt8,
           policy := policy.toUInt64, capability := capability.toUInt64, created, expires }

/-- Decode one value and refuse unknown fields and trailing data. -/
def unmarshal (raw : Bytes) : Option JournalRecord :=
  match Json.parse raw with
  | some (.obj fs) => if Json.knownFields names fs then ofFields fs else none
  | _ => none

end JournalRecord

/-! ## Texts without escapes -/

theorem plain_of_hex {s : Bytes} {n : ℕ} (h : hex s n = true) : Json.PlainString s := by
  rw [hex, Bool.and_eq_true] at h
  exact Json.plain_of_hexByte h.2

theorem plain_of_identifier {s pre : Bytes} (hp : Json.PlainString pre)
    (h : identifier s pre = true) : Json.PlainString s := by
  simp only [identifier, Bool.and_eq_true, decide_eq_true_eq] at h
  obtain ⟨⟨-, htake⟩, hdrop⟩ := h
  intro b hb
  rw [← List.take_append_drop pre.length s, htake] at hb
  rcases List.mem_append.1 hb with hb | hb
  · exact hp b hb
  · exact plain_of_hex hdrop b hb

theorem plain_formatRFC3339Nano (t : Instant) : Json.PlainString (formatRFC3339Nano t) := by
  intro b hb
  rcases mem_formatRFC3339Nano hb with h | h
  · simp only [isDigit, Bool.and_eq_true, decide_eq_true_eq] at h
    have ne : ∀ c : UInt8, c.toNat < 48 ∨ 57 < c.toNat → b ≠ c := by
      rintro c hc rfl
      omega
    refine ⟨?_, ne 34 ?_, ne 92 ?_, ne 60 ?_, ne 62 ?_, ne 38 ?_⟩ <;> try decide
    rw [UInt8.le_iff_toNat_le]
    simp
    omega
  · have hall : ∀ b ∈ ascii "-:.TZ",
        32 ≤ b ∧ b ≠ 34 ∧ b ≠ 92 ∧ b ≠ 60 ∧ b ≠ 62 ∧ b ≠ 38 := by decide
    exact hall b h

namespace JournalRecord

theorem wellFormed_fields (v : JournalRecord) : (Json.obj v.fields).WellFormed :=
  ⟨Json.wellFormed_decimal _, trivial, trivial, trivial, trivial, trivial, trivial, trivial, trivial,
    trivial, Json.wellFormed_decimal _, Json.wellFormed_decimal _, Json.wellFormed_decimal _, trivial,
    trivial, trivial⟩

theorem ofFields_fields {v : JournalRecord} (hv : v.version < 2 ^ 63) :
    ofFields v.fields = some v := by
  have h1 : Json.natField (2 ^ 63) (ascii "Version") v.fields = some v.version :=
    Json.natField_of_assigned rfl hv
  have h11 : Json.natField (2 ^ 8) (ascii "Grace") v.fields = some v.grace.toNat :=
    Json.natField_of_assigned rfl v.grace.toNat_lt
  have h12 : Json.natField (2 ^ 64) (ascii "Policy") v.fields = some v.policy.toNat :=
    Json.natField_of_assigned rfl v.policy.toNat_lt
  have h13 : Json.natField (2 ^ 64) (ascii "Capability") v.fields = some v.capability.toNat :=
    Json.natField_of_assigned rfl v.capability.toNat_lt
  have h2 : Json.stringField (ascii "ActionID") v.fields = some v.actionId := rfl
  have h3 : Json.stringField (ascii "ServerID") v.fields = some v.serverId := rfl
  have h4 : Json.stringField (ascii "InstallationID") v.fields = some v.installationId := rfl
  have h5 : Json.stringField (ascii "OwnerID") v.fields = some v.ownerId := rfl
  have h6 : Json.stringField (ascii "ActorID") v.fields = some v.actorId := rfl
  have h7 : Json.stringField (ascii "TargetID") v.fields = some v.targetId := rfl
  have h8 : Json.stringField (ascii "EngineGeneration") v.fields = some v.engineGeneration := rfl
  have h9 : Json.stringField (ascii "ContainerID") v.fields = some v.containerId := rfl
  have h10 : Json.stringField (ascii "Operation") v.fields = some v.operation := rfl
  have h14 : Json.stringField (ascii "Created") v.fields = some v.created := rfl
  have h15 : Json.stringField (ascii "Expires") v.fields = some v.expires := rfl
  rw [ofFields, h1, h2, h3, h4, h5, h6, h7, h8, h9, h10, h11, h12, h13, h14, h15]
  simp

theorem unmarshal_marshal {v : JournalRecord} (h1 : v.version < 2 ^ 63) :
    unmarshal v.marshal = some v := by
  rw [unmarshal, marshal, Json.parse_render v.wellFormed_fields]
  have hk : Json.knownFields names v.fields = true := rfl
  simp only [hk, if_true, ofFields_fields h1]

theorem marshal_ne_nil (v : JournalRecord) : v.marshal ≠ [] := by
  simp [marshal, fields, names, Json.render]

end JournalRecord

/-- A time that is read back from its text. -/
def readable (s : Bytes) : Bool :=
  match parseRFC3339 s with
  | some t => s.length ≤ 30 && formatRFC3339Nano t = s
  | none => false

theorem parse_of_readable {t : Instant} (h : readable (formatRFC3339Nano t) = true) :
    parseRFC3339 (formatRFC3339Nano t) = some t := by
  rw [readable] at h
  split at h
  · rename_i hs
    obtain ⟨h0, h1⟩ := year_of_parse_formatRFC3339Nano hs
    exact parse_formatRFC3339Nano h0 h1
  · cases h

/-- The text of a request between the years 1 and 9999 fits the journal. -/
theorem length_marshal {r : Request} {b : Binding} (ha : identifier r.actionId (ascii "hla_") = true)
    (hs : identifier r.serverId (ascii "srv_") = true)
    (hi : identifier r.installationId (ascii "agent_") = true)
    (ho : identifier r.ownerId (ascii "usr_") = true)
    (hu : identifier r.actorId (ascii "usr_") = true)
    (ht : identifier r.targetId (ascii "hlt_") = true) (hg : hex b.engineGeneration 32 = true)
    (hc : hex b.containerId 64 = true) (h0 : 0 ≤ year r.createdAt) (h1 : year r.createdAt ≤ 9999)
    (h2 : 0 ≤ year r.expiresAt) (h3 : year r.expiresAt ≤ 9999) :
    (journalRecordFor r b).marshal.length ≤ 2048 := by
  have hop : ∀ op : Operation, Json.PlainString op.text ∧ op.text.length ≤ 17 := by
    intro op; cases op <;> exact ⟨by decide, by decide⟩
  have hstr : ∀ {s : Bytes}, Json.PlainString s → (Json.render (.str s)).length = s.length + 2 := by
    intro s h
    rw [Json.render, Json.length_renderString_plain h]
  have hnum : ∀ {n w : ℕ}, n < 10 ^ (w + 1) → (Json.render (.num (decimal n))).length ≤ w + 1 := by
    intro n w h
    rw [Json.render]
    exact length_decimal_le h
  have hnames : (JournalRecord.names.map fun k => (Json.renderString k).length).sum = 160 := by
    decide
  have l1 : _ = 36 := length_of_identifier ha
  have l2 : _ = 36 := length_of_identifier hs
  have l3 : _ = 38 := length_of_identifier hi
  have l4 : _ = 36 := length_of_identifier ho
  have l5 : _ = 36 := length_of_identifier hu
  have l6 : _ = 36 := length_of_identifier ht
  have l7 := length_of_hex hg
  have l8 := length_of_hex hc
  have l9 := (hop r.operation).2
  have l10 := (length_formatRFC3339Nano h0 h1).2
  have l11 := (length_formatRFC3339Nano h2 h3).2
  have p1 := hstr (plain_of_identifier (by decide) ha)
  have p2 := hstr (plain_of_identifier (by decide) hs)
  have p3 := hstr (plain_of_identifier (by decide) hi)
  have p4 := hstr (plain_of_identifier (by decide) ho)
  have p5 := hstr (plain_of_identifier (by decide) hu)
  have p6 := hstr (plain_of_identifier (by decide) ht)
  have p7 := hstr (plain_of_hex hg)
  have p8 := hstr (plain_of_hex hc)
  have p9 := hstr (hop r.operation).1
  have p10 := hstr (plain_formatRFC3339Nano r.createdAt)
  have p11 := hstr (plain_formatRFC3339Nano r.expiresAt)
  have n1 : (Json.render (.num (decimal 1))).length ≤ 0 + 1 := hnum (by decide)
  have n2 : (Json.render (.num (decimal r.graceSeconds.toNat))).length ≤ 2 + 1 :=
    hnum (r.graceSeconds.toNat_lt.trans (by decide))
  have n3 : (Json.render (.num (decimal r.policyRevision.toNat))).length ≤ 19 + 1 :=
    hnum (r.policyRevision.toNat_lt.trans (by decide))
  have n4 : (Json.render (.num (decimal r.capabilityRevision.toNat))).length ≤ 19 + 1 :=
    hnum (r.capabilityRevision.toNat_lt.trans (by decide))
  rw [JournalRecord.marshal, JournalRecord.fields,
    Json.length_render_obj (by simp [JournalRecord.names]) rfl, hnames]
  simp only [journalRecordFor, List.map_cons, List.map_nil, List.sum_cons, List.sum_nil, p1, p2, p3,
    p4, p5, p6, p7, p8, p9, p10, p11, JournalRecord.names, List.length_cons, List.length_nil]
  omega

section
variable [Sha256]

/-! ## Canonical metadata -/

def fingerprint (r : Request) (b : Binding) : Digest :=
  Sha256.sum256 (journalRecordFor r b).marshal

def canonicalJournalMetadata (k : Key) : Option Bytes :=
  let m := k.metadata
  let r := m.request
  if k.actionId ≠ r.actionId ∨ k.targetId ≠ r.targetId ∨ !identifier r.actionId (ascii "hla_") ∨
      !identifier r.targetId (ascii "hlt_") ∨ !identifier r.serverId (ascii "srv_") ∨
      !identifier r.installationId (ascii "agent_") ∨ !identifier r.ownerId (ascii "usr_") ∨
      !identifier r.actorId (ascii "usr_") ∨ !hex m.engineGeneration 32 ∨ !hex m.containerId 64 ∨
      r.policyRevision = 0 ∨ r.capabilityRevision = 0 ∨ r.createdAt = 0 ∨
      r.expiresAt ≤ r.createdAt ∨ 5 * minute < r.expiresAt - r.createdAt then
    none
  else if (r.operation = .start ∧ r.graceSeconds ≠ 0) ∨
      ((r.operation = .stop ∨ r.operation = .restart) ∧
        (r.graceSeconds < 1 ∨ 30 < r.graceSeconds)) then
    none
  else
    let record := journalRecordFor r
      { engineGeneration := m.engineGeneration, containerId := m.containerId }
    if !readable record.created ∨ !readable record.expires then none
    else
      let raw := record.marshal
      if 2048 < raw.length ∨ Sha256.sum256 raw ≠ k.fingerprint then none
      else some raw

/-- The key a decoded record stands for. -/
def JournalRecord.key (v : JournalRecord) (raw : Bytes) (operation : Operation)
    (created expires : Instant) : Key where
  actionId := v.actionId
  targetId := v.targetId
  fingerprint := Sha256.sum256 raw
  metadata :=
    { request :=
        { actionId := v.actionId, serverId := v.serverId, installationId := v.installationId,
          ownerId := v.ownerId, actorId := v.actorId, targetId := v.targetId, operation,
          graceSeconds := v.grace, policyRevision := v.policy, capabilityRevision := v.capability,
          createdAt := created, expiresAt := expires }
      engineGeneration := v.engineGeneration
      containerId := v.containerId }

def parseJournalMetadata (raw : Bytes) : Option Key :=
  if raw.length = 0 ∨ 2048 < raw.length then none
  else
    (JournalRecord.unmarshal raw).bind fun v =>
    if v.version ≠ 1 then none
    else
      (parseRFC3339 v.created).bind fun created =>
      (parseRFC3339 v.expires).bind fun expires =>
      -- an operation outside the enumeration is refused by the encoder below
      (Operation.ofText v.operation).bind fun operation =>
      let k := v.key raw operation created expires
      (canonicalJournalMetadata k).bind fun encoded =>
      if encoded = raw then some k else none

def newJournalKey (r : Request) (b : Binding) : Option Key :=
  if !valid r b r.createdAt then none
  else
    let k : Key :=
      { actionId := r.actionId, targetId := r.targetId, fingerprint := fingerprint r b,
        metadata := ⟨r, b.engineGeneration, b.containerId⟩ }
    match canonicalJournalMetadata k with
    | some _ => some k
    | none => none

/-! ## The text determines the key -/

/-- The record a key stands for. -/
def Key.record (k : Key) : JournalRecord :=
  journalRecordFor k.metadata.request
    { engineGeneration := k.metadata.engineGeneration, containerId := k.metadata.containerId }

/-- What `canonicalJournalMetadata` asks of a key. -/
structure Key.Canonical (k : Key) : Prop where
  action : k.actionId = k.metadata.request.actionId
  target : k.targetId = k.metadata.request.targetId
  actionId : identifier k.metadata.request.actionId (ascii "hla_") = true
  targetId : identifier k.metadata.request.targetId (ascii "hlt_") = true
  serverId : identifier k.metadata.request.serverId (ascii "srv_") = true
  installationId : identifier k.metadata.request.installationId (ascii "agent_") = true
  ownerId : identifier k.metadata.request.ownerId (ascii "usr_") = true
  actorId : identifier k.metadata.request.actorId (ascii "usr_") = true
  generation : hex k.metadata.engineGeneration 32 = true
  container : hex k.metadata.containerId 64 = true
  policy : k.metadata.request.policyRevision ≠ 0
  capability : k.metadata.request.capabilityRevision ≠ 0
  created : k.metadata.request.createdAt ≠ 0
  window : k.metadata.request.createdAt < k.metadata.request.expiresAt
  lifetime : k.metadata.request.expiresAt - k.metadata.request.createdAt ≤ 5 * minute
  grace : ¬ ((k.metadata.request.operation = .start ∧ k.metadata.request.graceSeconds ≠ 0) ∨
      ((k.metadata.request.operation = .stop ∨ k.metadata.request.operation = .restart) ∧
        (k.metadata.request.graceSeconds < 1 ∨ 30 < k.metadata.request.graceSeconds)))
  readCreated : readable k.record.created = true
  readExpires : readable k.record.expires = true
  length : k.record.marshal.length ≤ 2048
  digest : k.fingerprint = Sha256.sum256 k.record.marshal

theorem canonicalJournalMetadata_eq_some {k : Key} {raw : Bytes} :
    canonicalJournalMetadata k = some raw ↔ k.Canonical ∧ raw = k.record.marshal := by
  rw [canonicalJournalMetadata]
  dsimp only
  constructor
  · intro h
    split_ifs at h with h1 h2 h3 h4
    simp only [not_or, Bool.not_eq_true', Bool.not_eq_false, not_not, not_le, not_lt] at h1 h3 h4
    obtain ⟨a1, a2, a3, a4, a5, a6, a7, a8, a9, a10, a11, a12, a13, a14, a15⟩ := h1
    injection h with h
    exact ⟨⟨a1, a2, a3, a4, a5, a6, a7, a8, a9, a10, a11, a12, a13, a14, a15, h2, h3.1, h3.2, h4.1,
      h4.2.symm⟩, h.symm⟩
  · rintro ⟨hk, rfl⟩
    rw [if_neg, if_neg hk.grace, if_neg, if_neg]
    · rfl
    · simp only [not_or, not_not, not_lt]
      exact ⟨hk.length, hk.digest.symm⟩
    · simp only [not_or, Bool.not_eq_true', Bool.not_eq_false]
      exact ⟨hk.readCreated, hk.readExpires⟩
    · simp only [not_or, Bool.not_eq_true', Bool.not_eq_false, not_not, not_le, not_lt]
      exact ⟨hk.action, hk.target, hk.actionId, hk.targetId, hk.serverId, hk.installationId,
        hk.ownerId, hk.actorId, hk.generation, hk.container, hk.policy, hk.capability, hk.created,
        hk.window, hk.lifetime⟩

/-- **The canonical text determines the key.** -/
theorem parse_canonicalJournalMetadata {k : Key} {raw : Bytes}
    (h : canonicalJournalMetadata k = some raw) : parseJournalMetadata raw = some k := by
  obtain ⟨hk, rfl⟩ := canonicalJournalMetadata_eq_some.1 h
  have hlen : ¬ (k.record.marshal.length = 0 ∨ 2048 < k.record.marshal.length) := by
    have := hk.length
    have := List.length_pos_iff.2 k.record.marshal_ne_nil
    omega
  have hv := JournalRecord.unmarshal_marshal (v := k.record) (show 1 < 2 ^ 63 by decide)
  have hc : parseRFC3339 k.record.created = some k.metadata.request.createdAt :=
    parse_of_readable hk.readCreated
  have he : parseRFC3339 k.record.expires = some k.metadata.request.expiresAt :=
    parse_of_readable hk.readExpires
  have ho : Operation.ofText k.record.operation = some k.metadata.request.operation :=
    Operation.ofText_text _
  have hkey : k.record.key k.record.marshal k.metadata.request.operation
      k.metadata.request.createdAt k.metadata.request.expiresAt = k := by
    rw [JournalRecord.key, ← hk.digest]
    cases k
    simp only [Key.mk.injEq]
    exact ⟨hk.action.symm, hk.target.symm, trivial, rfl⟩
  have hver : ¬ k.record.version ≠ 1 := fun h => h rfl
  rw [parseJournalMetadata, if_neg hlen, hv, Option.bind_some, if_neg hver, hc, Option.bind_some,
    he, Option.bind_some, ho, Option.bind_some]
  simp only [hkey, h, Option.bind_some, if_true]

theorem newJournalKey_of_valid {r : Request} {b : Binding} (hv : valid r b r.createdAt = true)
    (h0 : 0 ≤ year r.createdAt) (h1 : year r.createdAt ≤ 9999) (h2 : 0 ≤ year r.expiresAt)
    (h3 : year r.expiresAt ≤ 9999) :
    newJournalKey r b = some
      { actionId := r.actionId, targetId := r.targetId, fingerprint := fingerprint r b,
        metadata := ⟨r, b.engineGeneration, b.containerId⟩ } := by
  have hread : ∀ {t : Instant}, 0 ≤ year t → year t ≤ 9999 →
      readable (formatRFC3339Nano t) = true := by
    intro t h0 h1
    rw [readable, parse_formatRFC3339Nano h0 h1]
    simpa using (length_formatRFC3339Nano h0 h1).2
  rw [newJournalKey, if_neg (by simp [hv])]
  dsimp only
  simp only [valid, Bool.and_eq_true, decide_eq_true_eq] at hv
  obtain ⟨⟨⟨⟨⟨⟨⟨⟨⟨⟨⟨⟨⟨⟨⟨⟨⟨⟨⟨⟨⟨⟨⟨⟨⟨⟨ha, hs⟩, hi⟩, ho⟩, hu⟩, ht⟩, hc⟩, hg⟩, hp⟩, hcap⟩, -⟩, -⟩, -⟩,
    -⟩, -⟩, -⟩, hcreated⟩, hwindow⟩, hlife⟩, -⟩, -⟩, -⟩, -⟩, -⟩, -⟩, -⟩, hgrace⟩ := hv
  have hcanonical : Key.Canonical
      { actionId := r.actionId, targetId := r.targetId, fingerprint := fingerprint r b,
        metadata := ⟨r, b.engineGeneration, b.containerId⟩ } := by
    refine ⟨rfl, rfl, ha, ht, hs, hi, ho, hu, hg, hc, hp, hcap, hcreated, hwindow, hlife, ?_,
      hread h0 h1, hread h2 h3, length_marshal ha hs hi ho hu ht hg hc h0 h1 h2 h3, rfl⟩
    rintro (⟨hop, hne⟩ | ⟨hop, hne⟩)
    · rw [if_pos hop] at hgrace
      exact hne (of_decide_eq_true hgrace)
    · have hstart : r.operation ≠ .start := by rcases hop with h | h <;> rw [h] <;> decide
      rw [if_neg hstart] at hgrace
      simp only [Bool.and_eq_true, decide_eq_true_eq] at hgrace
      rcases hne with hne | hne
      · exact absurd hgrace.1.1 (not_le.2 hne)
      · exact absurd hgrace.1.2 (not_le.2 hne)
  rw [canonicalJournalMetadata_eq_some.2 ⟨hcanonical, rfl⟩]

theorem canonicalJournalMetadata_injective {k k' : Key} {raw : Bytes}
    (h : canonicalJournalMetadata k = some raw) (h' : canonicalJournalMetadata k' = some raw) :
    k = k' := by
  have := (parse_canonicalJournalMetadata h).symm.trans (parse_canonicalJournalMetadata h')
  exact Option.some.inj this

end

end ActionCore

end HomeLab
