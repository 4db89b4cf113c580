/-
  Request receipts.

  A receipt is what the server and the owner agreed on: the action, its target
  and its parameters, with their digest, for five minutes.  Decoding checks the
  form of every field (`validateRequest`); the identity of a receipt is the
  digest of its canonical JSON text (`receiptDigest`).
-/
import HomeLab.ActionCore.Key

namespace HomeLab

namespace ActionProtocol

open ActionCore (Operation)

/-! ## Fields -/

def identifier (s pre : Bytes) : Bool := pre.isPrefixOf s && hexValue (s.drop pre.length) 32

/-- A decimal number of 63 bits without leading zeros, and not zero. -/
def revision (s : Bytes) : Bool :=
  1 ≤ s.length && s.length ≤ 19 && s.head?.any (fun b => 49 ≤ b && b ≤ 57) && s.all isDigit &&
    numeral s < 2 ^ 63

def correlation (s : Bytes) : Bool :=
  1 ≤ s.length && s.length ≤ 128 && s.all (fun b => alphanumeric b || b ∈ ascii "._:-") &&
    s.head?.any alphanumeric
where
  alphanumeric (b : UInt8) : Bool :=
    97 ≤ b && b ≤ 122 || 65 ≤ b && b ≤ 90 || 48 ≤ b && b ≤ 57

def targetKey (s : Bytes) : Bool :=
  1 ≤ s.length && s.length ≤ 48 && s.head?.any (fun b => 97 ≤ b && b ≤ 122) &&
    s.all fun b => 97 ≤ b && b ≤ 122 || 48 ≤ b && b ≤ 57 || b = 95 || b = 45

def nonce (s : Bytes) : Bool := hexValue s 32 && s ≠ List.replicate 32 48

/-! ## Times -/

/-- `2006-01-02T15:04:05.000000Z` -/
def formatHTTPTime (t : Instant) : Bytes :=
  formatSeconds (civil t) ++ (46 :: (fixed 6 ((civil t).nano / 1000) ++ [90]))

/-- Read a time of whole microseconds; only the text that it prints to is read. -/
def parseHTTPTime (s : Bytes) : Option Instant :=
  (parseRFC3339 s).filter fun t => s.length = 27 && t ≠ 0 && formatHTTPTime t = s

/-! ## Parameters -/

/-- Seconds of grace, or `null`. -/
structure Grace where
  seconds : UInt8 := 0
  null : Bool := false
  deriving DecidableEq, Repr

structure Parameters where
  formatVersion : ℤ
  stopGraceSeconds : Grace
  deriving DecidableEq, Repr

/-- The parameters of an operation as they are digested, if they fit it. -/
def parameterText (operation : Operation) (p : Parameters) : Option Bytes :=
  let g := p.stopGraceSeconds
  if p.formatVersion ≠ 1 then none
  else
    match operation with
    | .start => if !g.null || g.seconds ≠ 0 then none else some (ascii "\x7b\x7d\x7d")
    | .stop | .restart =>
      if g.null || g.seconds < 1 || 30 < g.seconds then none
      else some (ascii "\x7b\"stop_grace_seconds\":" ++ (decimal g.seconds.toNat ++
        ascii "\x7d\x7d"))

def parameterDigest [Sha256] (operation : Operation) (p : Parameters) : Option Bytes :=
  (parameterText operation p).map fun parameters =>
    hexText (Sha256.sum256 (ascii "\x7b\"version\":1,\"operation\":\"" ++ (operation.text ++
      (ascii "\",\"parameters\":" ++ parameters)))).toList

/-! ## Receipts -/

/-- The order of the fields is the order in which they are digested. -/
structure RequestReceipt where
  actionId : Bytes
  serverId : Bytes
  ownerUserId : Bytes
  actorUserId : Bytes
  connectorInstanceId : Bytes
  operation : Operation
  targetId : Bytes
  targetKey : Bytes
  idempotencyKeyHash : Bytes
  policyRevision : Bytes
  capabilityRevision : Bytes
  parameters : Parameters
  parameterSha256 : Bytes
  requestedAt : Bytes
  expiresAt : Bytes
  correlationId : Bytes
  deriving DecidableEq, Repr

def validFields (r : RequestReceipt) : Bool :=
  identifier r.actionId (ascii "hla_") && identifier r.serverId (ascii "srv_") &&
  identifier r.ownerUserId (ascii "usr_") && r.actorUserId = r.ownerUserId &&
  identifier r.connectorInstanceId (ascii "agent_") && identifier r.targetId (ascii "hlt_") &&
  targetKey r.targetKey && hexValue r.idempotencyKeyHash 64 && revision r.policyRevision &&
  revision r.capabilityRevision && hexValue r.parameterSha256 64 && correlation r.correlationId

section
variable [Sha256]

def validateRequest (r : RequestReceipt) : Bool :=
  validFields r &&
    match parseHTTPTime r.requestedAt, parseHTTPTime r.expiresAt,
      parameterDigest r.operation r.parameters with
    | some created, some expires, some expected =>
      timeSub expires created = 300 * second && expected = r.parameterSha256
    | _, _, _ => false

/-! ## The identity of a receipt -/

def Grace.json (g : Grace) : Json := if g.null then .null else .num (decimal g.seconds.toNat)

def Parameters.json (p : Parameters) : Json :=
  .obj [(ascii "format_version", .num (decimal p.formatVersion.toNat)),
    (ascii "stop_grace_seconds", p.stopGraceSeconds.json)]

def RequestReceipt.names : List Bytes :=
  [ascii "action_id", ascii "server_id", ascii "owner_user_id", ascii "actor_user_id",
   ascii "connector_instance_id", ascii "operation", ascii "target_id", ascii "target_key",
   ascii "idempotency_key_hash", ascii "policy_revision", ascii "capability_revision",
   ascii "parameters", ascii "parameter_sha256", ascii "requested_at", ascii "expires_at",
   ascii "correlation_id"]

def RequestReceipt.json (r : RequestReceipt) : Json :=
  .obj (RequestReceipt.names.zip
    [.str r.actionId, .str r.serverId, .str r.ownerUserId, .str r.actorUserId,
     .str r.connectorInstanceId, .str r.operation.text, .str r.targetId, .str r.targetKey,
     .str r.idempotencyKeyHash, .str r.policyRevision, .str r.capabilityRevision,
     r.parameters.json, .str r.parameterSha256, .str r.requestedAt, .str r.expiresAt,
     .str r.correlationId])

def maxEnvelopeBytes : ℕ := 16384

def canonicalRequest (r : RequestReceipt) : Option Bytes :=
  if !validateRequest r then none
  else
    let raw := r.json.render
    if maxEnvelopeBytes < raw.length then none else some raw

def receiptDigest (r : RequestReceipt) : Option Digest :=
  (canonicalRequest r).map fun raw =>
    Sha256.sum256 (ascii "platform-container-receipt/v1\n" ++ raw)

end

/-! ## What validation establishes -/

theorem identifier_eq (s pre : Bytes) : identifier s pre = ActionCore.identifier s pre := by
  rw [Bool.eq_iff_iff]
  simp only [identifier, hexValue, ActionCore.identifier, ActionCore.hex, Bool.and_eq_true,
    decide_eq_true_eq, List.isPrefixOf_iff_prefix, List.length_drop]
  constructor
  · rintro ⟨⟨t, rfl⟩, hlen, hall⟩
    rw [List.length_append] at hlen ⊢
    refine ⟨⟨by omega, List.take_left⟩, by omega, ?_⟩
    rw [List.drop_left] at hall ⊢
    exact hall
  · rintro ⟨⟨hlen, htake⟩, -, hall⟩
    refine ⟨⟨s.drop pre.length, ?_⟩, by omega, hall⟩
    conv_rhs => rw [← List.take_append_drop pre.length s, htake]

theorem parseHTTPTime_spec {s : Bytes} {t : Instant} (h : parseHTTPTime s = some t) :
    parseRFC3339 s = some t ∧ s.length = 27 ∧ t ≠ 0 ∧ formatHTTPTime t = s := by
  rw [parseHTTPTime, Option.filter_eq_some_iff] at h
  simpa [and_assoc] using h

/-- The times of a receipt are in the years that a text can hold. -/
def RequestReceipt.inYears (r : RequestReceipt) : Prop :=
  ∀ text ∈ [r.requestedAt, r.expiresAt], ∀ t ∈ parseHTTPTime text, 1 ≤ year t ∧ year t ≤ 9999

theorem length_of_identifier {s pre : Bytes} (h : identifier s pre = true) :
    s.length = pre.length + 32 := by
  rw [identifier_eq] at h
  exact ActionCore.length_of_identifier h

theorem length_parameters {p : Parameters} (h : p.formatVersion = 1) :
    p.json.render.length ≤ 200 := by
  have hname : (Json.renderString (ascii "format_version")).length = 16 := by decide
  have hname' : (Json.renderString (ascii "stop_grace_seconds")).length = 20 := by decide
  have hone : (decimal (p.formatVersion.toNat)).length ≤ 0 + 1 := by
    rw [h]
    exact length_decimal_le (by decide)
  have hgrace : p.stopGraceSeconds.json.render.length ≤ 4 := by
    rw [Grace.json]
    split_ifs
    · decide
    · rw [Json.render]
      have : (decimal p.stopGraceSeconds.seconds.toNat).length ≤ 2 + 1 :=
        length_decimal_le (p.stopGraceSeconds.seconds.toNat_lt.trans (by decide))
      omega
  simp only [Parameters.json, Json.render, Json.renderFields, List.length_cons, List.length_append,
    List.length_nil, hname, hname']
  omega

section
variable [Sha256]

/-- A valid receipt, with its times. -/
structure RequestReceipt.Valid (r : RequestReceipt) (created expires : Instant) : Prop where
  action : identifier r.actionId (ascii "hla_") = true
  server : identifier r.serverId (ascii "srv_") = true
  owner : identifier r.ownerUserId (ascii "usr_") = true
  actor : r.actorUserId = r.ownerUserId
  connector : identifier r.connectorInstanceId (ascii "agent_") = true
  target : identifier r.targetId (ascii "hlt_") = true
  key : ActionProtocol.targetKey r.targetKey = true
  idempotency : hexValue r.idempotencyKeyHash 64 = true
  policy : revision r.policyRevision = true
  capability : revision r.capabilityRevision = true
  sha : hexValue r.parameterSha256 64 = true
  correlation : ActionProtocol.correlation r.correlationId = true
  requested : parseHTTPTime r.requestedAt = some created
  expiry : parseHTTPTime r.expiresAt = some expires
  lifetime : expires = created + 300 * second
  digest : parameterDigest r.operation r.parameters = some r.parameterSha256

theorem validateRequest_spec {r : RequestReceipt} (h : validateRequest r = true) :
    ∃ created expires, r.Valid created expires := by
  simp only [validateRequest, Bool.and_eq_true] at h
  obtain ⟨hf, h⟩ := h
  simp only [validFields, Bool.and_eq_true, decide_eq_true_eq] at hf
  obtain ⟨⟨⟨⟨⟨⟨⟨⟨⟨⟨⟨f1, f2⟩, f3⟩, f4⟩, f5⟩, f6⟩, f7⟩, f8⟩, f9⟩, f10⟩, f11⟩, f12⟩ := hf
  split at h
  · rename_i created expires expected hc he hd
    simp only [Bool.and_eq_true, decide_eq_true_eq] at h
    exact ⟨created, expires, f1, f2, f3, f4, f5, f6, f7, f8, f9, f10, f11, f12, hc, he,
      eq_of_timeSub (by decide) (by decide) h.1, h.2 ▸ hd⟩
  · cases h

/-- Parameters that can be digested have the grace that their operation takes. -/
theorem grace_of_parameterDigest {operation : Operation} {p : Parameters} {hash : Bytes}
    (h : parameterDigest operation p = some hash) :
    p.formatVersion = 1 ∧ (operation = .start → p.stopGraceSeconds.seconds = 0) ∧
      (operation ≠ .start → p.stopGraceSeconds.null = false ∧ 1 ≤ p.stopGraceSeconds.seconds ∧
        p.stopGraceSeconds.seconds ≤ 30) := by
  rw [parameterDigest, Option.map_eq_some_iff] at h
  obtain ⟨text, htext, -⟩ := h
  unfold parameterText at htext
  by_cases hversion : p.formatVersion ≠ 1
  · rw [if_pos hversion] at htext
    cases htext
  rw [if_neg hversion] at htext
  refine ⟨not_not.1 hversion, ?_⟩
  cases operation with
  | start =>
    dsimp only at htext
    split_ifs at htext with hg
    simp only [Bool.or_eq_true, Bool.not_eq_true', decide_eq_true_eq, not_or, not_not] at hg
    exact ⟨fun _ => hg.2, fun hne => absurd rfl hne⟩
  | stop | restart =>
    dsimp only at htext
    split_ifs at htext with hg
    simp only [Bool.or_eq_true, decide_eq_true_eq, not_or, not_lt] at hg
    exact ⟨fun h => absurd h (by decide), fun _ => ⟨by simpa using hg.1.1, hg.1.2, hg.2⟩⟩

theorem RequestReceipt.Valid.length {r : RequestReceipt} {created expires : Instant}
    (h : r.Valid created expires) : r.json.render.length ≤ maxEnvelopeBytes := by
  have hstr : ∀ s : Bytes, (Json.render (.str s)).length ≤ 6 * s.length + 2 := by
    intro s
    rw [Json.render]
    exact Json.length_renderString_le s
  have hhex : ∀ {s : Bytes} {n : ℕ}, hexValue s n = true → s.length = n := by
    intro s n hs
    simp only [hexValue, Bool.and_eq_true, decide_eq_true_eq] at hs
    exact hs.1
  have hrev : ∀ {s : Bytes}, revision s = true → s.length ≤ 19 := by
    intro s hs
    simp only [revision, Bool.and_eq_true, decide_eq_true_eq] at hs
    exact hs.1.1.1.2
  have hop : r.operation.text.length ≤ 17 := by cases r.operation <;> decide
  have hnames : (RequestReceipt.names.map fun k => (Json.renderString k).length).sum = 241 := by
    decide
  have l1 : _ = 36 := length_of_identifier h.action
  have l2 : _ = 36 := length_of_identifier h.server
  have l3 : _ = 36 := length_of_identifier h.owner
  have l4 : r.actorUserId.length = 36 := by rw [h.actor]; exact l3
  have l5 : _ = 38 := length_of_identifier h.connector
  have l6 : _ = 36 := length_of_identifier h.target
  have l7 : r.targetKey.length ≤ 48 := by
    have hk := h.key
    simp only [ActionProtocol.targetKey, Bool.and_eq_true, decide_eq_true_eq] at hk
    exact hk.1.1.2
  have l8 := hhex h.idempotency
  have l9 := hrev h.policy
  have l10 := hrev h.capability
  have l11 := hhex h.sha
  have l12 : r.correlationId.length ≤ 128 := by
    have hc := h.correlation
    simp only [ActionProtocol.correlation, Bool.and_eq_true, decide_eq_true_eq] at hc
    exact hc.1.1.2
  have l13 := (parseHTTPTime_spec h.requested).2.1
  have l14 := (parseHTTPTime_spec h.expiry).2.1
  have l15 := length_parameters (grace_of_parameterDigest h.digest).1
  have s1 := hstr r.actionId
  have s2 := hstr r.serverId
  have s3 := hstr r.ownerUserId
  have s4 := hstr r.actorUserId
  have s5 := hstr r.connectorInstanceId
  have s6 := hstr r.operation.text
  have s7 := hstr r.targetId
  have s8 := hstr r.targetKey
  have s9 := hstr r.idempotencyKeyHash
  have s10 := hstr r.policyRevision
  have s11 := hstr r.capabilityRevision
  have s12 := hstr r.parameterSha256
  have s13 := hstr r.requestedAt
  have s14 := hstr r.expiresAt
  have s15 := hstr r.correlationId
  rw [RequestReceipt.json, Json.length_render_obj (by simp [RequestReceipt.names]) rfl, hnames,
    maxEnvelopeBytes]
  simp only [List.map_cons, List.map_nil, List.sum_cons, List.sum_nil, RequestReceipt.names,
    List.length_cons, List.length_nil]
  omega

theorem receiptDigest_isSome {r : RequestReceipt} (h : validateRequest r = true) :
    (receiptDigest r).isSome = true := by
  obtain ⟨created, expires, hr⟩ := validateRequest_spec h
  have hlen : ¬ maxEnvelopeBytes < r.json.render.length := not_lt.2 hr.length
  simp [receiptDigest, canonicalRequest, h, hlen]

end

end ActionProtocol

end HomeLab
