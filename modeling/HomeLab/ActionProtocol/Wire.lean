/-
  Envelopes on the wire.

  An envelope is a JSON object of five fields; its payload is kept as it stands
  in the text.  Encoding reads the payload with the decoder of its kind and
  prints it again (`canonicalPayload`), and decoding accepts only what encoding
  prints.  The text of every envelope, and of every payload, keeps the limits
  of `strictJSON`.

  `decode_encodeEnvelope`: what was encoded is decoded, with the canonical
  payload.
-/
import HomeLab.Lib.RawJson
import HomeLab.Lib.Utf8
import HomeLab.ActionProtocol.Codec

namespace HomeLab

namespace ActionProtocol

/-! ## Strict texts -/

mutual

/-- Objects and arrays are nested less than eight deep, no name occurs twice in
    an object, and numbers are digits without a leading zero. -/
def strictValue (depth : ℕ) : Json → Bool
  | .null => true
  | .bool _ => true
  | .num lit => lit ≠ [] && (lit.length ≤ 1 || lit.head? ≠ some 48) && lit.all isDigit
  | .str _ => true
  | .arr xs => depth < 8 && strictElems (depth + 1) xs
  | .obj fs => depth < 8 && (fs.map Prod.fst).Nodup && strictFields (depth + 1) fs

def strictElems (depth : ℕ) : List Json → Bool
  | [] => true
  | x :: xs => strictValue depth x && strictElems depth xs

def strictFields (depth : ℕ) : List (Bytes × Json) → Bool
  | [] => true
  | (_, v) :: fs => strictValue depth v && strictFields depth fs

end

/-- The check of `strictJSON`.  It holds of the text of a value in a text of
    which it holds, so the decoders of nested objects do not repeat it here. -/
def strictJSON (raw : Bytes) : Bool :=
  raw ≠ [] && raw.length ≤ maxEnvelopeBytes && Utf8.valid raw &&
    (Json.parse raw).any (strictValue 0)

mutual

theorem strictValue_mono {d d' : ℕ} (h : d ≤ d') :
    ∀ v, strictValue d' v = true → strictValue d v = true
  | .null, _ => rfl
  | .bool _, _ => rfl
  | .num _, hv => hv
  | .str _, _ => rfl
  | .arr xs, hv => by
    simp only [strictValue, Bool.and_eq_true, decide_eq_true_eq] at hv ⊢
    exact ⟨by omega, strictElems_mono (Nat.succ_le_succ h) xs hv.2⟩
  | .obj fs, hv => by
    simp only [strictValue, Bool.and_eq_true, decide_eq_true_eq] at hv ⊢
    exact ⟨⟨by omega, hv.1.2⟩, strictFields_mono (Nat.succ_le_succ h) fs hv.2⟩

theorem strictElems_mono {d d' : ℕ} (h : d ≤ d') :
    ∀ xs, strictElems d' xs = true → strictElems d xs = true
  | [], _ => rfl
  | x :: xs, hxs => by
    simp only [strictElems, Bool.and_eq_true] at hxs ⊢
    exact ⟨strictValue_mono h x hxs.1, strictElems_mono h xs hxs.2⟩

theorem strictFields_mono {d d' : ℕ} (h : d ≤ d') :
    ∀ fs, strictFields d' fs = true → strictFields d fs = true
  | [], _ => rfl
  | (_, v) :: fs, hfs => by
    simp only [strictFields, Bool.and_eq_true] at hfs ⊢
    exact ⟨strictValue_mono h v hfs.1, strictFields_mono h fs hfs.2⟩

end

theorem strictFields_iff {depth : ℕ} {fs : List (Bytes × Json)} :
    strictFields depth fs = true ↔ ∀ f ∈ fs, strictValue depth f.2 = true := by
  induction fs with
  | nil => simp [strictFields]
  | cons f fs ih => simp [strictFields, ih]

variable {v : Json} {raw : Bytes}

theorem strictJSON_render (hv : v.WellFormed) :
    strictJSON v.render = true ↔ v.render.length ≤ maxEnvelopeBytes ∧ Utf8.valid v.render = true ∧
      strictValue 0 v = true := by
  obtain ⟨b, t, ht, -⟩ := Json.render_head hv
  have hne : v.render ≠ [] := by simp [ht]
  simp [strictJSON, Json.parse_render hv, hne, and_assoc]

/-! ## Envelopes -/

namespace Wire

structure Envelope where
  version : Bytes
  kind : Bytes
  conversationNonce : Bytes
  ordinal : Bytes
  payload : Bytes
  deriving DecidableEq, Repr

def workerVersion : Bytes := ascii "observer-action-local/v1"

def adminVersion : Bytes := ascii "observer-action-admin/v1"

inductive Kind where
  | hello
  | recoveryInit
  | recoveryStatus
  | recoveryContinue
  | recoveryState
  | refused
  | begin
  | approvalSnapshot
  | claimedExecute
  | noClaim
  | authorityChallenge
  | authorityReply
  | result
  | retainedLookup
  | recoveryQuery
  | recoveryReply
  | snapshotQuery
  | snapshotReply
  deriving DecidableEq, Repr

namespace Kind

def version : Kind → Bytes
  | hello | recoveryInit | recoveryStatus | recoveryContinue | recoveryState | refused =>
    adminVersion
  | _ => workerVersion

def text : Kind → Bytes
  | hello => ascii "HELLO"
  | recoveryInit => ascii "RECOVERY_INIT"
  | recoveryStatus => ascii "RECOVERY_STATUS"
  | recoveryContinue => ascii "RECOVERY_CONTINUE"
  | recoveryState => ascii "RECOVERY_STATE"
  | refused => ascii "REFUSED"
  | begin => ascii "BEGIN"
  | approvalSnapshot => ascii "APPROVAL_SNAPSHOT"
  | claimedExecute => ascii "CLAIMED_EXECUTE"
  | noClaim => ascii "NO_CLAIM"
  | authorityChallenge => ascii "AUTHORITY_CHALLENGE"
  | authorityReply => ascii "AUTHORITY_REPLY"
  | result => ascii "RESULT"
  | retainedLookup => ascii "RETAINED_LOOKUP"
  | recoveryQuery => ascii "RECOVERY_QUERY"
  | recoveryReply => ascii "RECOVERY_REPLY"
  | snapshotQuery => ascii "SNAPSHOT_QUERY"
  | snapshotReply => ascii "SNAPSHOT_REPLY"

def all : List Kind :=
  [hello, recoveryInit, recoveryStatus, recoveryContinue, recoveryState, refused, begin,
   approvalSnapshot, claimedExecute, noClaim, authorityChallenge, authorityReply, result,
   retainedLookup, recoveryQuery, recoveryReply, snapshotQuery, snapshotReply]

def ofText (version kind : Bytes) : Option Kind :=
  all.find? fun k => k.version = version && k.text = kind

/-- The ordinals of a kind. -/
def ordinal (o : Bytes) : Kind → Bool
  | hello | begin | approvalSnapshot | retainedLookup | snapshotQuery => o = ascii "1"
  | recoveryInit | recoveryStatus | recoveryContinue | claimedExecute | noClaim | snapshotReply =>
    o = ascii "2"
  | recoveryState | refused => o = ascii "3"
  | authorityChallenge | authorityReply => o = ascii "3" || o = ascii "4"
  | result => o = ascii "5"
  | recoveryQuery | recoveryReply => o.length = 1 && o.head?.any fun b => 49 ≤ b && b ≤ 53

end Kind

/-- A payload that has to be the text of the empty object. -/
def emptyPayload (raw : Bytes) : Option Json :=
  if raw = ascii "\x7b\x7d" then some (.obj []) else none

/-- The canonical form of a payload that a codec reads. -/
def readPayload {α : Type} (c : Codec α) (raw : Bytes) : Option Json :=
  if !strictJSON raw then none else (Json.parse raw).bind c.canonical

section
variable [Sha256]

/-- The payload of each kind. -/
def Kind.payload (e : Envelope) : Kind → Option Json
  | hello | noClaim => emptyPayload e.payload
  | begin => if e.conversationNonce = zeroNonce then emptyPayload e.payload else none
  | recoveryInit => readPayload Admin.RecoveryInit.codec e.payload
  | recoveryStatus => readPayload Admin.RecoveryStatus.codec e.payload
  | recoveryContinue => readPayload Admin.RecoveryContinue.codec e.payload
  | recoveryState => readPayload Admin.RecoveryState.codec e.payload
  | refused => readPayload Admin.Refused.codec e.payload
  | approvalSnapshot => readPayload ApprovalSnapshot.codec e.payload
  | claimedExecute => readPayload ClaimedExecute.codec e.payload
  | authorityChallenge => readPayload CheckRequest.codec e.payload
  | authorityReply => readPayload ExecutionDecision.codec e.payload
  | result => readPayload Report.codec e.payload
  | retainedLookup => readPayload RetainedLookup.codec e.payload
  | recoveryQuery => readPayload RecoveryQuery.codec e.payload
  | recoveryReply => readPayload RecoveryReply.codec e.payload
  | snapshotQuery =>
    readPayload (SnapshotQuery.codec.check fun q => q.publicationId = e.conversationNonce) e.payload
  | snapshotReply =>
    readPayload (SnapshotReply.codec.check fun r =>
      r.receipt.all fun receipt => receipt.publicationId = e.conversationNonce) e.payload

def canonicalPayload (e : Envelope) : Option Json :=
  (Kind.ofText e.version e.kind).bind fun k => if k.ordinal e.ordinal then k.payload e else none

/-! ## Encoding and decoding -/

def Envelope.names : List Bytes :=
  [ascii "version", ascii "kind", ascii "conversationNonce", ascii "ordinal", ascii "payload"]

/-- The payload is printed as it stands; it is always one that was printed. -/
def Envelope.marshal (e : Envelope) : Bytes :=
  Json.renderRaw (Envelope.names.zip
    [Json.renderString e.version, Json.renderString e.kind, Json.renderString e.conversationNonce,
     Json.renderString e.ordinal, e.payload])

def Envelope.unmarshal (raw : Bytes) : Option Envelope :=
  ((Json.rawFields raw).bind (lookupFields Envelope.names)).bind fields
where
  text (raw : Bytes) : Option Bytes := (Json.parse raw).bind Codec.string.ofJson
  fields : List Bytes → Option Envelope
    | [version, kind, nonce, ordinal, payload] => do
      return ⟨← text version, ← text kind, ← text nonce, ← text ordinal, payload⟩
    | _ => none

/-- The nonce of an envelope; only `BEGIN` comes before one is chosen. -/
def validNonce (e : Envelope) : Bool :=
  nonce e.conversationNonce ||
    e.version = workerVersion && e.kind = Kind.begin.text && e.conversationNonce = zeroNonce

def encodeEnvelope (e : Envelope) : Option Bytes :=
  if !validNonce e then none
  else (canonicalPayload e).bind fun payload =>
    let raw := { e with payload := payload.render }.marshal
    if strictJSON raw then some raw else none

def decodeEnvelope (raw : Bytes) : Option Envelope :=
  if !strictJSON raw then none
  else (Envelope.unmarshal raw).filter fun e => encodeEnvelope e = some raw

end

/-! ## Canonical payloads -/

theorem emptyPayload_eq_some (h : emptyPayload raw = some v) :
    v = .obj [] := by
  unfold emptyPayload at h
  split_ifs at h
  exact (Option.some.inj h).symm

theorem emptyPayload_idem (h : emptyPayload raw = some v) :
    v.WellFormed ∧ emptyPayload v.render = some v := by
  rw [emptyPayload_eq_some h]
  exact ⟨trivial, if_pos (by decide)⟩

theorem readPayload_eq_some {α : Type} {c : Codec α} (h : readPayload c raw = some v) :
    ∃ a, c.Good a ∧ v = c.toJson a := by
  unfold readPayload at h
  split_ifs at h
  obtain ⟨w, -, hcanonical⟩ := Option.bind_eq_some_iff.1 h
  obtain ⟨a, hread, rfl⟩ := Codec.canonical_eq_some.1 hcanonical
  exact ⟨a, c.decoded hread, rfl⟩

theorem readPayload_idem {α : Type} {c : Codec α} (h : readPayload c raw = some v) :
    v.WellFormed ∧ (strictJSON v.render = true → readPayload c v.render = some v) := by
  obtain ⟨a, ha, rfl⟩ := readPayload_eq_some h
  refine ⟨c.wellFormed a, fun hstrict => ?_⟩
  rw [readPayload, if_neg (by simp [hstrict]), Json.parse_render (c.wellFormed a), Option.bind_some]
  exact Codec.canonical_eq_some.2 ⟨a, c.encoded ha, rfl⟩

variable {e : Envelope} {payload : Json}

section
variable [Sha256]

/-- **Canonical payloads are their own canonical form**, for every kind. -/
theorem Kind.payload_idem {k : Kind} (h : k.payload e = some v) :
    v.WellFormed ∧
      (strictJSON v.render = true → k.payload { e with payload := v.render } = some v) := by
  cases k with
  | hello | noClaim => exact ⟨(emptyPayload_idem h).1, fun _ => (emptyPayload_idem h).2⟩
  | begin =>
    simp only [Kind.payload] at h ⊢
    split_ifs at h ⊢
    exact ⟨(emptyPayload_idem h).1, fun _ => (emptyPayload_idem h).2⟩
  | _ => exact readPayload_idem h

theorem canonicalPayload_idem (h : canonicalPayload e = some v) :
    v.WellFormed ∧
      (strictJSON v.render = true → canonicalPayload { e with payload := v.render } = some v) := by
  obtain ⟨k, hk, h⟩ := Option.bind_eq_some_iff.1 h
  split_ifs at h with hordinal
  obtain ⟨hv, hread⟩ := Kind.payload_idem h
  refine ⟨hv, fun hstrict => ?_⟩
  rw [canonicalPayload, hk, Option.bind_some, if_pos hordinal]
  exact hread hstrict

end

/-! ## The round trip -/

/-- The envelope with a printed payload, as a value. -/
def Envelope.fields (e : Envelope) (payload : Json) : List (Bytes × Json) :=
  Envelope.names.zip
    [.str e.version, .str e.kind, .str e.conversationNonce, .str e.ordinal, payload]

theorem Envelope.printed_fields (e : Envelope) (payload : Json) :
    Json.printed (e.fields payload) = Envelope.names.zip
      [Json.renderString e.version, Json.renderString e.kind,
       Json.renderString e.conversationNonce, Json.renderString e.ordinal, payload.render] := by
  simp only [Json.printed, Envelope.fields, Envelope.names, List.zip_cons_cons,
    List.zip_nil_left, List.map_cons, List.map_nil, Json.render]

theorem Envelope.marshal_eq (e : Envelope) (payload : Json) :
    { e with payload := payload.render }.marshal =
      Json.renderRaw (Json.printed (e.fields payload)) := by
  rw [Envelope.printed_fields, Envelope.marshal]

theorem Envelope.wellFormed_fields (e : Envelope) (hv : payload.WellFormed) :
    (Json.obj (e.fields payload)).WellFormed :=
  ⟨trivial, trivial, trivial, trivial, hv, trivial⟩

theorem Envelope.unmarshal_marshal (e : Envelope) (hv : payload.WellFormed) :
    Envelope.unmarshal { e with payload := payload.render }.marshal =
      some { e with payload := payload.render } := by
  have htext : ∀ s : Bytes, unmarshal.text (Json.renderString s) = some s := by
    intro s
    have hparse := Json.parse_render (Json.wellFormed_str s)
    rw [Json.render] at hparse
    rw [unmarshal.text, hparse]
    rfl
  rw [unmarshal, Envelope.marshal_eq, Json.rawFields_renderRaw (e.wellFormed_fields hv),
    Option.bind_some, e.printed_fields, lookupFields_zip (by decide) (by rfl),
    Option.bind_some]
  simp [unmarshal.fields, htext]

/-- The text of the payload keeps the limits that the text of the envelope keeps. -/
theorem strictJSON_payload (e : Envelope) (hv : payload.WellFormed)
    (h : strictJSON { e with payload := payload.render }.marshal = true) :
    strictJSON payload.render = true := by
  have hfields := e.wellFormed_fields hv
  rw [Envelope.marshal_eq, Json.renderRaw_printed, strictJSON_render hfields] at h
  obtain ⟨hlen, hutf, hvalue⟩ := h
  obtain ⟨head, htext⟩ := Json.render_obj_concat
    [(ascii "version", .str e.version), (ascii "kind", .str e.kind),
     (ascii "conversationNonce", .str e.conversationNonce), (ascii "ordinal", .str e.ordinal)]
    (ascii "payload") payload
  rw [show (Json.obj (e.fields payload)).render = _ from htext] at hlen hutf
  have hinner := (Utf8.valid_append_cons (by decide) hutf).2
  refine (strictJSON_render hv).2 ⟨?_, (Utf8.valid_append_cons (by decide) hinner).1, ?_⟩
  · simp only [List.length_append, List.length_cons] at hlen
    omega
  · simp only [strictValue, Bool.and_eq_true] at hvalue
    exact strictValue_mono (Nat.zero_le 1) payload
      (strictFields_iff.1 hvalue.2 (ascii "payload", payload) (by simp [Envelope.fields, Envelope.names]))

section
variable [Sha256]

theorem encodeEnvelope_eq_some (h : encodeEnvelope e = some raw) :
    ∃ payload, canonicalPayload e = some payload ∧ validNonce e = true ∧
      raw = { e with payload := payload.render }.marshal ∧ strictJSON raw = true := by
  unfold encodeEnvelope at h
  split_ifs at h with hnonce
  obtain ⟨payload, hpayload, h⟩ := Option.bind_eq_some_iff.1 h
  dsimp only at h
  split_ifs at h with hstrict
  cases h
  exact ⟨payload, hpayload, by simpa using hnonce, rfl, hstrict⟩

theorem encode_canonical (h : encodeEnvelope e = some raw)
    (hpayload : canonicalPayload e = some payload) :
    encodeEnvelope { e with payload := payload.render } = some raw := by
  obtain ⟨payload', hpayload', hnonce, hraw, hstrict⟩ := encodeEnvelope_eq_some h
  cases hpayload.symm.trans hpayload'
  obtain ⟨hv, hread⟩ := canonicalPayload_idem hpayload
  have hinner := strictJSON_payload e hv (hraw ▸ hstrict)
  have hnonce' : validNonce { e with payload := payload.render } = true := hnonce
  rw [encodeEnvelope, if_neg (by simp [hnonce']), hread hinner, Option.bind_some]
  dsimp only
  rw [← hraw, if_pos hstrict]

/-- **What was encoded is decoded.** -/
theorem decode_encodeEnvelope (h : encodeEnvelope e = some raw) :
    ∃ payload, canonicalPayload e = some payload ∧
      decodeEnvelope raw = some { e with payload := payload.render } := by
  obtain ⟨payload, hpayload, -, hraw, hstrict⟩ := encodeEnvelope_eq_some h
  refine ⟨payload, hpayload, ?_⟩
  rw [decodeEnvelope, if_neg (by simp [hstrict]), Option.filter_eq_some_iff, decide_eq_true_eq]
  refine ⟨?_, encode_canonical h hpayload⟩
  rw [hraw]
  exact Envelope.unmarshal_marshal e (canonicalPayload_idem hpayload).1

theorem encode_decodeEnvelope (h : decodeEnvelope raw = some e) :
    encodeEnvelope e = some raw := by
  unfold decodeEnvelope at h
  split_ifs at h
  exact of_decide_eq_true (Option.filter_eq_some_iff.1 h).2

/-- **Envelopes have one byte form.**  The text of an envelope is decoded to the
    envelope with its canonical payload, which has the same text.  The texts
    that are decoded are the texts of envelopes, and no two of them are decoded
    to one envelope. -/
theorem envelope_byte_form :
    (∀ e raw, encodeEnvelope e = some raw → ∃ payload, canonicalPayload e = some payload ∧
      decodeEnvelope raw = some { e with payload := payload.render } ∧
      encodeEnvelope { e with payload := payload.render } = some raw) ∧
    (∀ raw, (decodeEnvelope raw).isSome = true ↔ ∃ e, encodeEnvelope e = some raw) ∧
    (∀ raw raw' e, decodeEnvelope raw = some e → decodeEnvelope raw' = some e → raw = raw') := by
  refine ⟨fun e raw h => ?_, fun raw => ⟨fun h => ?_, fun ⟨e, h⟩ => ?_⟩, fun raw raw' e h h' => ?_⟩
  · obtain ⟨payload, hpayload, hdecode⟩ := decode_encodeEnvelope h
    exact ⟨payload, hpayload, hdecode, encode_decodeEnvelope hdecode⟩
  · obtain ⟨e, he⟩ := Option.isSome_iff_exists.1 h
    exact ⟨e, encode_decodeEnvelope he⟩
  · obtain ⟨payload, -, hdecode⟩ := decode_encodeEnvelope h
    exact Option.isSome_of_eq_some hdecode
  · exact Option.some.inj ((encode_decodeEnvelope h).symm.trans (encode_decodeEnvelope h'))

end

theorem Kind.eq_begin {k : Kind} (h : k.text = Kind.begin.text) : k = .begin := by
  cases k with
  | begin => rfl
  | _ => exact absurd h (by decide)

theorem exists_decimal_of_digit {o : Bytes}
    (h : (o.length = 1 && o.head?.any fun b => 49 ≤ b && b ≤ 53) = true) :
    ∃ n, 1 ≤ n ∧ n ≤ 5 ∧ o = decimal n := by
  simp only [Bool.and_eq_true, decide_eq_true_eq] at h
  obtain ⟨b, rfl⟩ := List.length_eq_one_iff.1 h.1
  have hb : 49 ≤ b.toNat ∧ b.toNat ≤ 53 := by simpa [UInt8.le_iff_toNat_le] using h.2
  obtain ⟨n, hn⟩ : ∃ n, b.toNat = 48 + n := ⟨b.toNat - 48, by omega⟩
  have hn5 : 1 ≤ n ∧ n ≤ 5 := by omega
  obtain rfl : b = (48 + n).toUInt8 := by
    rw [← UInt8.toNat_inj, hn, Nat.toUInt8_eq, UInt8.toNat_ofNat', Nat.mod_eq_of_lt (by omega)]
  refine ⟨n, hn5.1, hn5.2, ?_⟩
  obtain ⟨h1, h5⟩ := hn5
  interval_cases n <;> decide

end Wire

/-! ## Messages -/

section
variable [Sha256]

def Message.kind : Message → Wire.Kind
  | .begin => .begin
  | .approvalSnapshot _ => .approvalSnapshot
  | .snapshotQuery _ => .snapshotQuery
  | .snapshotReply _ => .snapshotReply
  | .noClaim => .noClaim
  | .claimedExecute _ => .claimedExecute
  | .authorityChallenge _ => .authorityChallenge
  | .authorityReply _ => .authorityReply
  | .result _ => .result
  | .recoveryQuery _ => .recoveryQuery
  | .recoveryReply _ => .recoveryReply

/-- The payload of a message. -/
def Message.json : Message → Json
  | .begin | .noClaim => .obj []
  | .approvalSnapshot s => ApprovalSnapshot.codec.toJson s
  | .snapshotQuery q => SnapshotQuery.codec.toJson q
  | .snapshotReply r => SnapshotReply.codec.toJson r
  | .claimedExecute e => ClaimedExecute.codec.toJson e
  | .authorityChallenge q => CheckRequest.codec.toJson q
  | .authorityReply d => ExecutionDecision.codec.toJson d
  | .result r => Report.codec.toJson r
  | .recoveryQuery q => RecoveryQuery.codec.toJson q
  | .recoveryReply r => RecoveryReply.codec.toJson r

/-- The envelope of a message. -/
def Envelope.wire (e : Envelope) : Wire.Envelope where
  version := Wire.workerVersion
  kind := e.message.kind.text
  conversationNonce := e.conversationNonce
  ordinal := decimal e.ordinal
  payload := e.message.json.render

/-- The payload of a kind of the worker is that of a message that passes the
    checks of its decoder. -/
theorem exists_message {k : Wire.Kind} {w : Wire.Envelope} (hpayload : k.payload w = some v)
    (hordinal : k.ordinal w.ordinal = true) (hversion : k.version = Wire.workerVersion)
    (hlookup : k ≠ .retainedLookup) :
    ∃ n, ∃ m : Message, m.kind = k ∧ w.ordinal = decimal n ∧ v = m.json ∧
      canonicalPayload ⟨w.conversationNonce, n, m⟩ = true := by
  cases k with
  | hello | recoveryInit | recoveryStatus | recoveryContinue | recoveryState | refused =>
    exact absurd hversion (by decide)
  | retainedLookup => exact absurd rfl hlookup
  | begin =>
    simp only [Wire.Kind.payload] at hpayload
    split_ifs at hpayload with hnonce
    exact ⟨1, .begin, rfl, of_decide_eq_true hordinal, Wire.emptyPayload_eq_some hpayload,
      by simp [canonicalPayload, hnonce]⟩
  | noClaim =>
    exact ⟨2, .noClaim, rfl, of_decide_eq_true hordinal, Wire.emptyPayload_eq_some hpayload, rfl⟩
  | approvalSnapshot =>
    obtain ⟨s, hs, rfl⟩ := Wire.readPayload_eq_some hpayload
    exact ⟨1, .approvalSnapshot s, rfl, of_decide_eq_true hordinal, rfl, hs.2⟩
  | claimedExecute =>
    obtain ⟨e, he, rfl⟩ := Wire.readPayload_eq_some hpayload
    exact ⟨2, .claimedExecute e, rfl, of_decide_eq_true hordinal, rfl, he.2⟩
  | authorityChallenge =>
    obtain ⟨q, hq, rfl⟩ := Wire.readPayload_eq_some hpayload
    rcases (by simpa [Wire.Kind.ordinal] using hordinal : w.ordinal = _ ∨ w.ordinal = _) with ho | ho
    · exact ⟨3, .authorityChallenge q, rfl, ho, rfl, hq.2⟩
    · exact ⟨4, .authorityChallenge q, rfl, ho, rfl, hq.2⟩
  | authorityReply =>
    obtain ⟨d, hd, rfl⟩ := Wire.readPayload_eq_some hpayload
    rcases (by simpa [Wire.Kind.ordinal] using hordinal : w.ordinal = _ ∨ w.ordinal = _) with ho | ho
    · exact ⟨3, .authorityReply d, rfl, ho, rfl, hd.2⟩
    · exact ⟨4, .authorityReply d, rfl, ho, rfl, hd.2⟩
  | result =>
    obtain ⟨r, hr, rfl⟩ := Wire.readPayload_eq_some hpayload
    exact ⟨5, .result r, rfl, of_decide_eq_true hordinal, rfl, hr.2⟩
  | recoveryQuery =>
    obtain ⟨q, hq, rfl⟩ := Wire.readPayload_eq_some hpayload
    obtain ⟨n, h1, h5, ho⟩ := Wire.exists_decimal_of_digit hordinal
    exact ⟨n, .recoveryQuery q, rfl, ho, rfl, by
      simpa [canonicalPayload, h1, h5] using hq.2⟩
  | recoveryReply =>
    obtain ⟨r, hr, rfl⟩ := Wire.readPayload_eq_some hpayload
    obtain ⟨n, h1, h5, ho⟩ := Wire.exists_decimal_of_digit hordinal
    exact ⟨n, .recoveryReply r, rfl, ho, rfl, by
      simpa [canonicalPayload, h1, h5] using hr.2⟩
  | snapshotQuery =>
    obtain ⟨q, hq, rfl⟩ := Wire.readPayload_eq_some hpayload
    refine ⟨1, .snapshotQuery q, rfl, of_decide_eq_true hordinal, rfl, ?_⟩
    simpa [canonicalPayload, and_comm] using And.intro hq.1.2 hq.2
  | snapshotReply =>
    obtain ⟨r, hr, rfl⟩ := Wire.readPayload_eq_some hpayload
    refine ⟨2, .snapshotReply r, rfl, of_decide_eq_true hordinal, rfl, ?_⟩
    simp only [canonicalPayload, Bool.and_eq_true]
    exact ⟨⟨by decide, hr.1.2⟩, hr.2⟩

/-- **What the worker or the broker reads is the envelope of a canonical
    message.**  `RETAINED_LOOKUP` is not part of a conversation. -/
theorem message_of_decodeEnvelope {w : Wire.Envelope} (h : Wire.decodeEnvelope raw = some w)
    (hversion : w.version = Wire.workerVersion) (hlookup : w.kind ≠ Wire.Kind.retainedLookup.text) :
    ∃ e : Envelope, e.canonical = true ∧ e.wire = w := by
  have hencode := Wire.encode_decodeEnvelope h
  obtain ⟨v, hv, hdecode⟩ := Wire.decode_encodeEnvelope hencode
  obtain ⟨-, -, hnonce, -⟩ := Wire.encodeEnvelope_eq_some hencode
  have hpayload : w.payload = v.render :=
    congrArg Wire.Envelope.payload (Option.some.inj (h.symm.trans hdecode))
  obtain ⟨k, hk, hv⟩ := Option.bind_eq_some_iff.1 hv
  split_ifs at hv with hordinal
  have hfound := List.find?_some hk
  simp only [Bool.and_eq_true, decide_eq_true_eq] at hfound
  obtain ⟨n, m, rfl, ho, rfl, hcanonical⟩ := exists_message hv hordinal (hfound.1.trans hversion)
    (by rintro rfl; exact hlookup hfound.2.symm)
  refine ⟨⟨w.conversationNonce, n, m⟩, ?_, ?_⟩
  · rw [Envelope.canonical, Bool.and_eq_true]
    refine ⟨?_, hcanonical⟩
    simp only [Wire.validNonce, Bool.or_eq_true, Bool.and_eq_true, decide_eq_true_eq] at hnonce ⊢
    refine hnonce.imp_right fun hbegin => ⟨?_, hbegin.2⟩
    have hkind := Wire.Kind.eq_begin (hfound.2.trans hbegin.1.2)
    cases m with
    | begin => rfl
    | _ => cases hkind
  · rw [Envelope.wire, ← hversion, hfound.2, ← ho, ← hpayload]

end

/-- The envelope that hands a claim to the broker. -/
def claimedEnvelope : Envelope where
  conversationNonce := List.replicate 32 97
  ordinal := 2
  message := .claimedExecute ⟨sampleClaim, second⟩

theorem claimedEnvelope_read :
    ∃ raw w, @Wire.decodeEnvelope plainDigest raw = some w ∧
      w.kind = Wire.Kind.claimedExecute.text ∧
      ∃ e, @Envelope.canonical plainDigest e = true ∧ @Envelope.wire plainDigest e = w := by
  have hsome : (@Wire.encodeEnvelope plainDigest
      (@Envelope.wire plainDigest claimedEnvelope)).isSome = true := by decide +kernel
  obtain ⟨raw, hraw⟩ := Option.isSome_iff_exists.1 hsome
  obtain ⟨payload, -, hdecode⟩ := @Wire.decode_encodeEnvelope _ _ plainDigest hraw
  exact ⟨raw, _, hdecode, rfl, @message_of_decodeEnvelope _ plainDigest _ hdecode rfl
    (show Wire.Kind.claimedExecute.text ≠ Wire.Kind.retainedLookup.text by decide)⟩

end ActionProtocol

end HomeLab
