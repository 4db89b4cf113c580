/-
  The record of an installation's uploads.

  An installation numbers the bodies it uploads.  Its record holds the last
  number given out (the watermark), the body under that number while it is
  undelivered, the digest of the last body acknowledged and the reason why
  uploads have stopped for good.  `ValidateRecordForProfile` decides which
  records are in order.

  `Change` lists the ways in which a record goes on.  Every one of them leads
  to a valid record (`Change.valid`) and counts the watermark up without
  overflow (`Change.watermark`).
-/
import HomeLab.Lib.Bytes
import HomeLab.Lib.Calendar

namespace HomeLab

namespace UploadState

def maxAge : Duration := 2 * minute
def maxFuture : Duration := 30 * second

inductive Outcome where
  | idle
  | sourceUnavailable
  | retry
  | rateLimited
  | acknowledged
  | expired
  | clockSkew
  | credentialRejected
  | conflict
  | rejected
  | exhausted
  deriving DecidableEq, Repr

structure Binding where
  serverId : Bytes
  connectorId : Bytes
  deriving DecidableEq, Repr

structure Pending where
  sequence : Int64
  body : Bytes
  digest : Digest
  collectedAt : Instant
  deriving DecidableEq, Repr

inductive ProfileKind where
  | numeric
  | richProcesses
  | richProcessesDocker
  deriving DecidableEq, Repr

structure ProfileBinding where
  kind : ProfileKind
  policyDigest : Digest
  deriving DecidableEq, Repr

/-- `stopped` is `none` for the empty reason. -/
structure Record where
  binding : Binding
  profile : ProfileBinding
  watermark : Int64
  hasAck : Bool
  lastAck : Digest
  pending : Option Pending
  stopped : Option Outcome
  deriving DecidableEq, Repr

/-! ## Profiles -/

/-- The validators of upload bodies: the collection time of a body for a
    server, if it is in order, and the workload groups that a combined body
    claims.  Nothing below depends on which bodies they accept. -/
class Projection where
  uploadCollectionTime : Bytes → Bytes → Option Instant
  combinedCollectionTime : Bytes → Bytes → Option Instant
  /-- `processes_enabled` and `containers_enabled`. -/
  groups : Bytes → Option (Bool × Bool)

def zeroDigest : Digest := Vector.replicate 32 0

def validProfile (p : ProfileBinding) : Bool :=
  match p.kind with
  | .numeric => p.policyDigest = zeroDigest
  | .richProcesses | .richProcessesDocker => p.policyDigest ≠ zeroDigest

def maxBodyBytes (p : ProfileBinding) : ℕ :=
  match p.kind with
  | .richProcesses | .richProcessesDocker => 288 * 1024
  | .numeric => 16 * 1024

def collectionTime [Projection] (body server : Bytes) (p : ProfileBinding) : Option Instant :=
  if !validProfile p || body.length = 0 || maxBodyBytes p < body.length then none
  else if p.kind = .numeric then Projection.uploadCollectionTime body server
  else
    match Projection.combinedCollectionTime body server, Projection.groups body with
    | some taken, some (processes, containers) =>
      if !processes || containers ≠ (p.kind = .richProcessesDocker : Bool) then none
      else some taken
    | _, _ => none

/-! ## Valid records -/

/-- `^srv_[a-f0-9]{32}$` and `^agent_[a-f0-9]{32}$`. -/
def hexPattern (pre value : Bytes) : Bool :=
  pre.isPrefixOf value && (value.drop pre.length).length = 32 &&
    (value.drop pre.length).all hexByte

def serverPattern : Bytes → Bool := hexPattern (ascii "srv_")
def connectorPattern : Bytes → Bool := hexPattern (ascii "agent_")

def validBinding (b : Binding) : Bool := serverPattern b.serverId && connectorPattern b.connectorId

/-- The reasons a record may be stopped for. -/
def Outcome.final : Outcome → Bool
  | .credentialRejected | .conflict | .rejected | .exhausted => true
  | _ => false

theorem toInt_succ {w : Int64} (h : w ≠ Int64.maxValue) : (w + 1).toInt = w.toInt + 1 := by
  have hmax : w.toInt ≠ 2 ^ 63 - 1 := fun h' => h (Int64.toInt_inj.1 h')
  have hlt := w.toInt_lt
  have hle := w.le_toInt
  rw [Int64.toInt_add, Int64.toInt_one, Int.bmod_eq_of_le] <;> omega

section
variable [Sha256] [Projection]

def validPending (p : Pending) (r : Record) (b : Binding) (profile : ProfileBinding) : Bool :=
  match collectionTime p.body b.serverId profile with
  | none => false
  | some taken =>
    !(p.sequence ≤ 0 || p.sequence ≠ r.watermark || taken ≠ p.collectedAt ||
      Sha256.sum256 p.body ≠ p.digest)

def validRecord (r : Record) (b : Binding) (profile : ProfileBinding) : Bool :=
  if r.binding ≠ b || r.watermark < 0 || (!r.hasAck && r.lastAck ≠ zeroDigest) ||
      (r.hasAck && r.watermark = 0) then false
  else if r.stopped.any (!Outcome.final ·) then false
  else if r.stopped = some .exhausted &&
      (r.watermark ≠ Int64.maxValue || r.pending.isSome) then false
  else r.pending.all fun p => validPending p r b profile

def validateRecordForProfile (r : Record) (expected : Binding) (profile : ProfileBinding) : Bool :=
  validBinding expected && validProfile profile && r.profile = profile &&
    validRecord r expected profile

/-- What a valid record satisfies. -/
structure Record.Valid (b : Binding) (profile : ProfileBinding) (r : Record) : Prop where
  expected : validBinding b = true ∧ validProfile profile = true
  bound : r.binding = b ∧ r.profile = profile
  watermark : 0 ≤ r.watermark
  unacked : r.hasAck = false → r.lastAck = zeroDigest
  acked : r.hasAck = true → r.watermark ≠ 0
  final : ∀ reason, r.stopped = some reason → reason.final = true
  exhausted : r.stopped = some .exhausted → r.watermark = Int64.maxValue ∧ r.pending = none
  pending : ∀ p, r.pending = some p → 0 < p.sequence ∧ p.sequence = r.watermark ∧
    collectionTime p.body b.serverId profile = some p.collectedAt ∧
    Sha256.sum256 p.body = p.digest

theorem validPending_iff {p : Pending} {r : Record} {b : Binding} {profile : ProfileBinding} :
    validPending p r b profile = true ↔ 0 < p.sequence ∧ p.sequence = r.watermark ∧
      collectionTime p.body b.serverId profile = some p.collectedAt ∧
      Sha256.sum256 p.body = p.digest := by
  rw [validPending]
  cases collectionTime p.body b.serverId profile with
  | none => simp
  | some taken =>
    simp only [Bool.not_eq_true', Bool.or_eq_false_iff, decide_eq_false_iff_not, not_not,
      Option.some.injEq, Int64.not_le, and_assoc]

theorem validateRecordForProfile_iff {r : Record} {b : Binding} {profile : ProfileBinding} :
    validateRecordForProfile r b profile = true ↔ r.Valid b profile := by
  have hfinal : (r.stopped.any (!Outcome.final ·)) = false ↔
      ∀ reason, r.stopped = some reason → reason.final = true := by
    cases r.stopped <;> simp
  have hpending : (r.pending.all fun p => validPending p r b profile) = true ↔
      ∀ p, r.pending = some p → validPending p r b profile = true := by
    cases r.pending <;> simp
  constructor
  · intro h
    simp only [validateRecordForProfile, validRecord, Bool.and_eq_true, decide_eq_true_eq] at h
    obtain ⟨⟨hexpected, hprofile⟩, h⟩ := h
    split_ifs at h with h1 h2 h3
    simp only [Bool.or_eq_true, Bool.and_eq_true, decide_eq_true_eq, Bool.not_eq_true', not_or,
      not_and, not_not, Int64.not_lt] at h1
    simp only [Bool.or_eq_true, decide_eq_true_eq, not_and, not_or, not_not, Bool.not_eq_true,
      Option.isSome_eq_false_iff, Option.isNone_iff_eq_none] at h3
    obtain ⟨⟨⟨hb, hw⟩, hu⟩, ha⟩ := h1
    exact ⟨hexpected, ⟨hb, hprofile⟩, hw, hu, ha, hfinal.1 (by simpa using h2), h3,
      fun p hp => validPending_iff.1 (hpending.1 h p hp)⟩
  · intro h
    have h2 := hfinal.2 h.final
    have h4 := hpending.2 fun p hp => validPending_iff.2 (h.pending p hp)
    have h3 : ¬(r.stopped = some .exhausted &&
        (r.watermark ≠ Int64.maxValue || r.pending.isSome)) = true := by
      simp only [Bool.and_eq_true, decide_eq_true_eq, not_and]
      intro hs
      simp [h.exhausted hs]
    have h1 : ¬(r.binding ≠ b || r.watermark < 0 || (!r.hasAck && r.lastAck ≠ zeroDigest) ||
        (r.hasAck && r.watermark = 0)) = true := by
      simp only [Bool.or_eq_true, Bool.and_eq_true, decide_eq_true_eq, Bool.not_eq_true', not_or,
        not_and, not_not, Int64.not_lt]
      exact ⟨⟨⟨h.bound.1, h.watermark⟩, h.unacked⟩, h.acked⟩
    rw [validateRecordForProfile, validRecord, if_neg h1, h2, if_neg (by simp), if_neg h3, h4,
      h.expected.1, h.expected.2]
    simp [h.bound.2]

/-! ## Changes -/

namespace Record

/-- Give up the pending body. -/
def retire (r : Record) : Record := { r with pending := none }

/-- Give the next number to a body. -/
def adopt (r : Record) (body : Bytes) (taken : Instant) : Record :=
  { r with
    watermark := r.watermark + 1
    pending := some ⟨r.watermark + 1, body, Sha256.sum256 body, taken⟩ }

/-- The pending body has been acknowledged. -/
def acknowledge (r : Record) (p : Pending) : Record :=
  { r with hasAck := true, lastAck := p.digest, pending := none }

def stop (r : Record) (reason : Outcome) : Record := { r with stopped := some reason }

end Record

/-- The ways in which a record that has not stopped goes on. -/
inductive Change (r : Record) : Record → Prop where
  | retire : Change r r.retire
  | adopt (body : Bytes) (taken : Instant) (free : r.pending = none)
      (room : r.watermark ≠ Int64.maxValue)
      (fresh : r.hasAck = true → Sha256.sum256 body ≠ r.lastAck)
      (taken_eq : collectionTime body r.binding.serverId r.profile = some taken) :
      Change r (r.adopt body taken)
  | acknowledge (p : Pending) (pending : r.pending = some p) : Change r (r.acknowledge p)
  | refuse (reason : Outcome) (final : reason.final = true) (usable : reason ≠ .exhausted) :
      Change r (r.stop reason)
  | exhaust (free : r.pending = none) (full : r.watermark = Int64.maxValue) :
      Change r (r.stop .exhausted)

variable {b : Binding} {profile : ProfileBinding} {r r' : Record}

theorem Change.watermark (h : Change r r') :
    r'.watermark.toInt = r.watermark.toInt ∨ r'.watermark.toInt = r.watermark.toInt + 1 := by
  cases h with
  | adopt body taken free room => exact Or.inr (toInt_succ room)
  | _ => exact Or.inl rfl

theorem Change.watermark_le (h : Change r r') : r.watermark ≤ r'.watermark := by
  rw [Int64.le_iff_toInt_le]
  rcases h.watermark with h | h <;> omega

/-- A change of a valid record that has not stopped leads to a valid record. -/
theorem Change.valid (h : Change r r') (hr : r.Valid b profile) (hs : r.stopped = none) :
    r'.Valid b profile := by
  have hunstopped : ∀ reason, r.stopped ≠ some reason := fun reason h' => by simp [hs] at h'
  cases h with
  | retire =>
    exact ⟨hr.expected, hr.bound, hr.watermark, hr.unacked, hr.acked, hr.final,
      fun h' => absurd h' (hunstopped _), fun p hp => nomatch hp⟩
  | adopt body taken free room fresh taken_eq =>
    have hpos : 0 < r.watermark + 1 := by
      have := Int64.le_iff_toInt_le.1 hr.watermark
      rw [Int64.lt_iff_toInt_lt, toInt_succ room]
      simp only [Int64.toInt_zero] at this ⊢
      omega
    rw [hr.bound.1, hr.bound.2] at taken_eq
    refine ⟨hr.expected, hr.bound, Int64.le_of_lt hpos, hr.unacked, fun _ => ?_, hr.final,
      fun h' => absurd h' (hunstopped _), ?_⟩
    · exact (Int64.ne_of_lt hpos).symm
    · rintro p hp
      obtain rfl := Option.some.inj hp
      exact ⟨hpos, rfl, taken_eq, rfl⟩
  | acknowledge p pending =>
    obtain ⟨hpos, hseq, -, -⟩ := hr.pending p pending
    refine ⟨hr.expected, hr.bound, hr.watermark, nofun, fun _ => ?_, hr.final,
      fun h' => absurd h' (hunstopped _), fun p hp => nomatch hp⟩
    exact hseq ▸ (Int64.ne_of_lt hpos).symm
  | refuse reason final usable =>
    refine ⟨hr.expected, hr.bound, hr.watermark, hr.unacked, hr.acked, ?_, ?_, hr.pending⟩
    · intro reason' h'
      exact Option.some.inj h' ▸ final
    · exact fun h' => absurd (Option.some.inj h') usable
  | exhaust free full =>
    refine ⟨hr.expected, hr.bound, hr.watermark, hr.unacked, hr.acked, ?_, ?_, hr.pending⟩
    · intro reason' h'
      exact Option.some.inj h' ▸ rfl
    · exact fun _ => ⟨full, free⟩

end

end UploadState

end HomeLab
