/-
  One step of the upload machine.

  `Machine.step` is a program: it loads the record, reads the clock, fetches a
  body, sends the pending one and commits changes of the record.  What it is
  answered is left open.

  Its calls follow a protocol (`next`).  A body is read only while nothing is
  pending, only the pending body is sent, every commit is a `Change` of the
  record in memory, an acknowledgement is recorded only right after the send
  that earned it, and nothing at all is done once the record has stopped.  The
  machine requires recovery only after a failed load or commit
  (`step_follows`): its own checks never fail.
-/
import HomeLab.Lib.Interaction
import HomeLab.UploadState.Record

namespace HomeLab

namespace UploadState

open Prog

structure Request where
  binding : Binding
  sequence : Int64
  body : Bytes
  deriving DecidableEq, Repr

/-- `outcome` is `none` for a text that is no outcome. -/
structure Response where
  outcome : Option Outcome
  serverId : Bytes
  sequence : Int64
  deriving DecidableEq, Repr

/-- What comes back from a transport: its response, whether it reports an error
    and whether the context of the request is done. -/
structure Reply where
  response : Response
  error : Bool
  expired : Bool
  deriving DecidableEq, Repr

inductive StepError where
  | recovery
  | canceled
  | busy
  | snapshot
  deriving DecidableEq, Repr

abbrev Result := Except StepError Outcome

structure Machine where
  binding : Binding
  profile : ProfileBinding
  record : Option Record
  recovery : Bool
  deriving DecidableEq

/-- A new machine: it has not loaded its record. -/
def Machine.fresh (binding : Binding) (profile : ProfileBinding) : Machine :=
  ⟨binding, profile, none, false⟩

/-! ## Calls -/

/-- The calls of a step; `canceled` asks whether the context is done. -/
inductive Call where
  | canceled
  | now
  | load
  | read (server : Bytes)
  | send (request : Request)
  | commit (previous next : Record)

@[reducible] def Call.Answer : Call → Type
  | canceled => Bool
  | now => Instant
  | load => Option Record
  | read _ => Option Bytes
  | send _ => Reply
  | commit _ _ => Bool

abbrev calls : Interface := ⟨Call, Call.Answer⟩

/-- Make one call. -/
def query (c : Call) : Prog calls c.Answer := ask (I := calls) c

/-! ## Step -/

def invalidClock (now : Instant) : Bool := now = 0 || year now < 1 || 9999 < year now

def inFuture (now taken : Instant) : Bool := now + maxFuture < taken

def tooOld (now taken : Instant) : Bool := maxAge < timeSub now taken

/-- Require recovery from now on. -/
def Machine.latch (m : Machine) : Machine := { m with recovery := true }

section
variable [Sha256] [Projection]

/-- `r` is the record in memory. -/
def Machine.commit (m : Machine) (r next : Record) :
    Prog calls (Except StepError Unit × Machine) := do
  if ← query .canceled then return (.error .canceled, m)
  if !validateRecordForProfile r m.binding m.profile ||
      !validateRecordForProfile next m.binding m.profile then
    return (.error .recovery, m.latch)
  if !(← query (.commit r next)) then return (.error .recovery, m.latch)
  return (.ok (), { m with record := some next })

def Machine.stop (m : Machine) (r : Record) (reason : Outcome) :
    Prog calls (Result × Machine) := do
  match ← m.commit r (r.stop reason) with
  | (.error e, m) => return (.error e, m)
  | (.ok (), m) => return (.ok reason, m)

/-- The end of `Step`, on the reply to the send of the pending body `p` of `r`. -/
def Machine.settle (m : Machine) (r : Record) (p : Pending) (reply : Reply) :
    Prog calls (Result × Machine) := do
  match reply.response.outcome with
  | some .acknowledged =>
    if reply.response.serverId ≠ m.binding.serverId || reply.response.sequence ≠ p.sequence then
      return (.ok .retry, m)
    match ← m.commit r (r.acknowledge p) with
    | (.error e, m) => return (.error e, m)
    | (.ok (), m) => return (.ok .acknowledged, m)
  | some .credentialRejected => m.stop r .credentialRejected
  | some .conflict => m.stop r .conflict
  | some .rejected => m.stop r .rejected
  | some .rateLimited => return (.ok .rateLimited, m)
  | _ => return (.ok .retry, m)

/-- The part of `Step` that sends the pending body `p` of `r`. -/
def Machine.deliver (m : Machine) (r : Record) (p : Pending) : Prog calls (Result × Machine) := do
  if ← query .canceled then return (.error .canceled, m)
  if !validateRecordForProfile r m.binding m.profile then return (.error .recovery, m.latch)
  let now ← query .now
  if invalidClock now || inFuture now p.collectedAt then return (.ok .clockSkew, m)
  if tooOld now p.collectedAt then return (.ok .expired, m)
  let reply ← query (.send ⟨m.binding, p.sequence, p.body⟩)
  if ← query .canceled then return (.error .canceled, m)
  if reply.error || reply.expired then return (.ok .retry, m)
  m.settle r p reply

/-- The part of `Step` that numbers a body, collected at `taken`. -/
def Machine.number (m : Machine) (r : Record) (body : Bytes) (now taken : Instant) :
    Prog calls (Result × Machine) := do
  if inFuture now taken then return (.ok .clockSkew, m)
  if tooOld now taken then return (.ok .expired, m)
  if r.hasAck && Sha256.sum256 body = r.lastAck then return (.ok .idle, m)
  if r.watermark = Int64.maxValue then m.stop r .exhausted
  else
    match ← m.commit r (r.adopt body taken) with
    | (.error e, m) => return (.error e, m)
    | (.ok (), m) =>
      m.deliver (r.adopt body taken) ⟨r.watermark + 1, body, Sha256.sum256 body, taken⟩

/-- The part of `Step` that takes a body from the source. -/
def Machine.accept (m : Machine) (r : Record) (body : Bytes) : Prog calls (Result × Machine) := do
  if maxBodyBytes m.profile < body.length then return (.error .snapshot, m)
  let now ← query .now
  if invalidClock now then return (.ok .clockSkew, m)
  match collectionTime body m.binding.serverId m.profile with
  | none => return (.error .snapshot, m)
  | some taken => m.number r body now taken

/-- The part of `Step` on a record without a pending body. -/
def Machine.admission (m : Machine) (r : Record) (retired : Bool) :
    Prog calls (Result × Machine) := do
  if ← query .canceled then return (.error .canceled, m)
  let body ← query (.read m.binding.serverId)
  if ← query .canceled then return (.error .canceled, m)
  match body with
  | none => return (.ok (if retired then .expired else .sourceUnavailable), m)
  | some body => m.accept r body

/-- The part of `Step` on the record in memory. -/
def Machine.proceed (m : Machine) (r : Record) : Prog calls (Result × Machine) := do
  match r.stopped with
  | some reason => return (.ok reason, m)
  | none =>
    let now ← query .now
    if invalidClock now then return (.ok .clockSkew, m)
    match r.pending with
    | none => m.admission r false
    | some p =>
      if inFuture now p.collectedAt then return (.ok .clockSkew, m)
      if tooOld now p.collectedAt then
        match ← m.commit r r.retire with
        | (.error e, m) => return (.error e, m)
        | (.ok (), m) => m.admission r.retire true
      else m.deliver r p

/-- `Step` once it has the lock of the machine. -/
def Machine.step (m : Machine) : Prog calls (Result × Machine) := do
  if m.recovery then return (.error .recovery, m)
  if ← query .canceled then return (.error .canceled, m)
  match m.record with
  | none =>
    match ← query .load with
    | none => return (.error .recovery, m.latch)
    | some r =>
      if !validateRecordForProfile r m.binding m.profile then return (.error .recovery, m.latch)
      else ({ m with record := some r } : Machine).proceed r
  | some r =>
    if !validateRecordForProfile r m.binding m.profile then return (.error .recovery, m.latch)
    else m.proceed r

end

/-! ## The protocol -/

/-- The place of a step in the protocol: the record in memory, the send that
    came last, and whether a load or commit has failed. -/
structure Position where
  memory : Option Record
  sent : Option (Request × Reply)
  failed : Bool

/-- What a record says about acknowledgements. -/
def Record.ack (r : Record) : Bool × Digest := (r.hasAck, r.lastAck)

/-- The reply acknowledges the pending body to the server of the binding. -/
structure Reply.Acknowledges (reply : Reply) (b : Binding) (p : Pending) : Prop where
  arrived : reply.error = false ∧ reply.expired = false
  outcome : reply.response.outcome = some .acknowledged
  server : reply.response.serverId = b.serverId
  sequence : reply.response.sequence = p.sequence

/-- The acknowledged digest changes only to that of the pending body, after a
    send of that body which was acknowledged. -/
def Earned (b : Binding) (sent : Option (Request × Reply)) (r r' : Record) : Prop :=
  r'.ack ≠ r.ack → ∃ p reply, r.pending = some p ∧ r'.ack = (true, p.digest) ∧
    sent = some (⟨b, p.sequence, p.body⟩, reply) ∧ reply.Acknowledges b p

theorem earned_of_ack_eq {b : Binding} {sent : Option (Request × Reply)} {r r' : Record}
    (h : r'.ack = r.ack) : Earned b sent r r' := fun h' => absurd h h'

section
variable [Sha256] [Projection]

open Classical in
/-- The place reached by a call, if the call is allowed. -/
noncomputable def next (b : Binding) (profile : ProfileBinding) (q : Position) :
    (c : Call) → c.Answer → Option Position
  | .canceled, _ | .now, _ => some q
  | .load, x =>
    if q.failed = false ∧ q.memory = none then
      some (if x.any (validateRecordForProfile · b profile) then ⟨x, none, false⟩
        else ⟨none, none, true⟩)
    else none
  | .read _, _ =>
    if q.failed = false ∧ ∃ r, q.memory = some r ∧ r.stopped = none ∧ r.pending = none then
      some { q with sent := none }
    else none
  | .send request, x =>
    if q.failed = false ∧ ∃ r p, q.memory = some r ∧ r.stopped = none ∧ r.pending = some p ∧
        request = ⟨b, p.sequence, p.body⟩ then
      some { q with sent := some (request, x) }
    else none
  | .commit r r', x =>
    if q.failed = false ∧ q.memory = some r ∧ r.stopped = none ∧ Change r r' ∧
        Earned b q.sent r r' then
      some (if x then ⟨some r', none, false⟩ else ⟨some r, none, true⟩)
    else none

/-- The machine agrees with its place in the protocol. -/
structure Machine.At (m : Machine) (b : Binding) (profile : ProfileBinding) (q : Position) :
    Prop where
  bound : m.binding = b ∧ m.profile = profile
  recovery : m.recovery = q.failed
  memory : q.failed = false → m.record = q.memory

/-- What a step may return. -/
structure Returns (b : Binding) (profile : ProfileBinding) (q : Position) (x : Result × Machine) :
    Prop where
  machine : x.2.At b profile q
  recovery : x.1 = .error .recovery ↔ q.failed = true
  lock : x.1 ≠ .error .busy
  unloaded : q.failed = false → q.memory = none → x.1 = .error .canceled
  stopped : q.failed = false → ∀ r reason, q.memory = some r → r.stopped = some reason →
    x.1 = .ok reason ∨ x.1 = .error .canceled

/-- The program follows the protocol from the given place. -/
abbrev Conforms (b : Binding) (profile : ProfileBinding) (q : Position)
    (p : Prog calls (Result × Machine)) : Prop :=
  Follows (I := calls) (next b profile) (Returns b profile) q p

/-! ## Step follows the protocol -/

variable {b : Binding} {profile : ProfileBinding} {q : Position} {m : Machine} {r : Record}

theorem conforms_quiet {c : Call} (hc : ∀ x, next b profile q c x = some q)
    {k : c.Answer → Prog calls (Result × Machine)} (hk : ∀ x, Conforms b profile q (k x)) :
    Conforms b profile q (query c >>= k) := Follows.stay hc hk

theorem conforms_canceled {k : Bool → Prog calls (Result × Machine)}
    (hk : ∀ x, Conforms b profile q (k x)) :
    Conforms b profile q (query .canceled >>= k) := conforms_quiet (fun _ => rfl) hk

theorem conforms_now {k : Instant → Prog calls (Result × Machine)}
    (hk : ∀ x, Conforms b profile q (k x)) :
    Conforms b profile q (query .now >>= k) := conforms_quiet (fun _ => rfl) hk

theorem conforms_call {c : Call} {k : c.Answer → Prog calls (Result × Machine)}
    (h : ∀ x, ∃ q', next b profile q c x = some q' ∧ Conforms b profile q' (k x)) :
    Conforms b profile q (query c >>= k) := h

/-- The machine holds a valid record that has not stopped. -/
structure Machine.Active (m : Machine) (b : Binding) (profile : ProfileBinding) (r : Record) :
    Prop where
  bound : m.binding = b ∧ m.profile = profile
  recovery : m.recovery = false
  memory : m.record = some r
  valid : r.Valid b profile
  unstopped : r.stopped = none

section
variable {sent : Option (Request × Reply)} {r' : Record} {p : Pending}

theorem Machine.Active.at (h : m.Active b profile r) : m.At b profile ⟨some r, sent, false⟩ :=
  ⟨h.bound, h.recovery, fun _ => h.memory⟩

theorem Machine.Active.outcome (h : m.Active b profile r) (outcome : Outcome) :
    Conforms b profile ⟨some r, sent, false⟩ (pure (.ok outcome, m)) where
  machine := h.at
  recovery := by simp
  lock := nofun
  unloaded := nofun
  stopped := by
    rintro - _ reason ⟨⟩ hreason
    simp [h.unstopped] at hreason

theorem Machine.Active.error (h : m.Active b profile r) {e : StepError} (hr : e ≠ .recovery)
    (hb : e ≠ .busy) : Conforms b profile ⟨some r, sent, false⟩ (pure (.error e, m)) where
  machine := h.at
  recovery := by simp [hr]
  lock := by simpa using hb
  unloaded := nofun
  stopped := by
    rintro - _ reason ⟨⟩ hreason
    simp [h.unstopped] at hreason

theorem Machine.Active.canceled (h : m.Active b profile r) :
    Conforms b profile ⟨some r, sent, false⟩ (pure (.error .canceled, m)) :=
  h.error (by decide) (by decide)

/-- A change of the record in memory. -/
theorem Machine.Active.change (h : m.Active b profile r) (hc : Change r r')
    (hs : r'.stopped = none) :
    ({ m with record := some r' } : Machine).Active b profile r' :=
  ⟨h.bound, h.recovery, rfl, hc.valid h.valid h.unstopped, hs⟩

/-- After a failure the step ends and requires recovery. -/
theorem conforms_recovery (hm : m.binding = b ∧ m.profile = profile) {memory : Option Record} :
    Conforms b profile ⟨memory, none, true⟩ (pure (.error .recovery, m.latch)) where
  machine := ⟨hm, rfl, nofun⟩
  recovery := by simp
  lock := nofun
  unloaded := nofun
  stopped := nofun

/-- A commit of a change: its own checks succeed, so it is canceled, it fails or
    the step goes on with the new record. -/
theorem commit_conforms (h : m.Active b profile r) (hc : Change r r')
    (he : Earned b sent r r') {k : Except StepError Unit × Machine → Prog calls (Result × Machine)}
    (hcanceled : Conforms b profile ⟨some r, sent, false⟩ (k (.error .canceled, m)))
    (hfailed : Conforms b profile ⟨some r, none, true⟩ (k (.error .recovery, m.latch)))
    (hdone : Conforms b profile ⟨some r', none, false⟩ (k (.ok (), { m with record := some r' }))) :
    Conforms b profile ⟨some r, sent, false⟩ (m.commit r r' >>= k) := by
  have hvalid := validateRecordForProfile_iff.2 h.valid
  have hvalid' := validateRecordForProfile_iff.2 (hc.valid h.valid h.unstopped)
  rw [← h.bound.1, ← h.bound.2] at hvalid hvalid'
  refine conforms_canceled fun canceled => ?_
  cases canceled with
  | true => exact hcanceled
  | false =>
    rw [hvalid, hvalid']
    refine conforms_call fun ok => ⟨_, if_pos ⟨rfl, rfl, h.unstopped, hc, he⟩, ?_⟩
    cases ok with
    | true => exact hdone
    | false => exact hfailed

theorem stop_conforms (h : m.Active b profile r) {reason : Outcome} (hc : Change r (r.stop reason)) :
    Conforms b profile ⟨some r, sent, false⟩ (m.stop r reason) := by
  refine commit_conforms h hc (earned_of_ack_eq rfl) h.canceled (conforms_recovery h.bound) ?_
  exact
    { machine := ⟨h.bound, h.recovery, fun _ => rfl⟩
      recovery := by simp
      lock := nofun
      unloaded := nofun
      stopped := by
        rintro - _ reason' ⟨⟩ hreason
        exact Or.inl (congrArg _ (Option.some.inj hreason)) }

theorem settle_conforms (h : m.Active b profile r) (hp : r.pending = some p) {reply : Reply}
    (harrived : reply.error = false ∧ reply.expired = false) :
    Conforms b profile ⟨some r, some (⟨b, p.sequence, p.body⟩, reply), false⟩
      (m.settle r p reply) := by
  rw [Machine.settle]
  cases ho : reply.response.outcome with
  | none => exact h.outcome _
  | some outcome =>
    cases outcome
    case acknowledged =>
      dsimp only
      split_ifs with hother
      · exact h.outcome _
      simp only [Bool.or_eq_true, decide_eq_true_eq, not_or, not_not] at hother
      have hearned : Earned b (some (⟨b, p.sequence, p.body⟩, reply)) r (r.acknowledge p) :=
        fun _ => ⟨p, reply, hp, rfl, rfl, harrived, ho, by rw [hother.1, h.bound.1], hother.2⟩
      refine commit_conforms h (.acknowledge p hp) hearned h.canceled (conforms_recovery h.bound) ?_
      exact (h.change (.acknowledge p hp) h.unstopped).outcome _
    case credentialRejected => exact stop_conforms h (.refuse _ rfl (by decide))
    case conflict => exact stop_conforms h (.refuse _ rfl (by decide))
    case rejected => exact stop_conforms h (.refuse _ rfl (by decide))
    all_goals exact h.outcome _

theorem deliver_conforms (h : m.Active b profile r) (hp : r.pending = some p) :
    Conforms b profile ⟨some r, none, false⟩ (m.deliver r p) := by
  have hvalid := validateRecordForProfile_iff.2 h.valid
  rw [← h.bound.1, ← h.bound.2] at hvalid
  have hrequest : (⟨m.binding, p.sequence, p.body⟩ : Request) = ⟨b, p.sequence, p.body⟩ := by
    rw [h.bound.1]
  refine conforms_canceled fun canceled => ?_
  split_ifs with h1 h2
  · exact h.canceled
  · simp [hvalid] at h2
  refine conforms_now fun now => ?_
  split_ifs
  · exact h.outcome _
  · exact h.outcome _
  refine conforms_call fun reply =>
    ⟨_, if_pos ⟨rfl, r, p, rfl, h.unstopped, hp, hrequest⟩, ?_⟩
  refine conforms_canceled fun canceled => ?_
  split_ifs with h3 h4
  · exact h.canceled
  · exact h.outcome _
  simp only [Bool.or_eq_true, not_or, Bool.not_eq_true] at h4
  rw [hrequest]
  exact settle_conforms h hp h4

theorem number_conforms (h : m.Active b profile r) (hp : r.pending = none) {body : Bytes}
    {now taken : Instant} (htaken : collectionTime body b.serverId profile = some taken) :
    Conforms b profile ⟨some r, none, false⟩ (m.number r body now taken) := by
  rw [Machine.number]
  split_ifs with h1 h2 h3 h4
  · exact h.outcome _
  · exact h.outcome _
  · exact h.outcome _
  · exact stop_conforms h (.exhaust hp h4)
  have hchange : Change r (r.adopt body taken) := by
    refine .adopt body taken hp h4 (fun hack hdigest => h3 ?_) ?_
    · simp [hack, hdigest]
    · rw [h.valid.bound.1, h.valid.bound.2, htaken]
  refine commit_conforms h hchange (earned_of_ack_eq rfl) h.canceled (conforms_recovery h.bound) ?_
  exact deliver_conforms (h.change hchange h.unstopped) rfl

theorem accept_conforms (h : m.Active b profile r) (hp : r.pending = none) (body : Bytes) :
    Conforms b profile ⟨some r, none, false⟩ (m.accept r body) := by
  rw [Machine.accept]
  split_ifs
  · exact h.error (by decide) (by decide)
  refine conforms_now fun now => ?_
  split_ifs
  · exact h.outcome _
  cases htaken : collectionTime body m.binding.serverId m.profile with
  | none => exact h.error (by decide) (by decide)
  | some taken =>
    rw [h.bound.1, h.bound.2] at htaken
    exact number_conforms h hp htaken

theorem admission_conforms (h : m.Active b profile r) (hp : r.pending = none) (retired : Bool) :
    Conforms b profile ⟨some r, none, false⟩ (m.admission r retired) := by
  refine conforms_canceled fun canceled => ?_
  cases canceled with
  | true => exact h.canceled
  | false =>
    refine conforms_call fun body => ⟨_, if_pos ⟨rfl, r, rfl, h.unstopped, hp⟩, ?_⟩
    refine conforms_canceled fun canceled => ?_
    cases canceled with
    | true => exact h.canceled
    | false =>
      cases body with
      | none => exact h.outcome _
      | some body => exact accept_conforms h hp body

theorem proceed_conforms (hm : m.At b profile ⟨some r, none, false⟩) (hr : r.Valid b profile) :
    Conforms b profile ⟨some r, none, false⟩ (m.proceed r) := by
  rw [Machine.proceed]
  cases hs : r.stopped with
  | some reason =>
    exact
      { machine := hm
        recovery := by simp
        lock := nofun
        unloaded := nofun
        stopped := by
          rintro - _ reason' ⟨⟩ hreason
          exact Or.inl (congrArg _ (Option.some.inj (hs.symm.trans hreason))) }
  | none =>
    have h : m.Active b profile r := ⟨hm.bound, hm.recovery, hm.memory rfl, hr, hs⟩
    refine conforms_now fun now => ?_
    by_cases hclock : invalidClock now = true
    · rw [if_pos hclock]
      exact h.outcome _
    rw [if_neg hclock]
    cases hp : r.pending with
    | none => exact admission_conforms h hp false
    | some p =>
      dsimp only
      split_ifs
      · exact h.outcome _
      · refine commit_conforms h .retire (earned_of_ack_eq rfl) h.canceled (conforms_recovery h.bound) ?_
        exact admission_conforms (h.change .retire hs) rfl true
      · exact deliver_conforms h hp

end

/-- **`Step` follows the protocol.** -/
theorem step_follows (m : Machine)
    (hr : m.recovery = false → ∀ r, m.record = some r → r.Valid m.binding m.profile) :
    Conforms m.binding m.profile ⟨m.record, none, m.recovery⟩ m.step := by
  have hm : m.At m.binding m.profile ⟨m.record, none, m.recovery⟩ :=
    ⟨⟨rfl, rfl⟩, rfl, fun _ => rfl⟩
  rw [Machine.step]
  cases hrecovery : m.recovery with
  | true =>
    rw [hrecovery] at hm
    exact ⟨hm, by simp, nofun, nofun, nofun⟩
  | false =>
    rw [hrecovery] at hm
    refine conforms_canceled fun canceled => ?_
    split_ifs
    · exact ⟨hm, by simp, nofun, fun _ _ => rfl, fun _ _ _ _ _ => Or.inr rfl⟩
    cases hrecord : m.record with
    | none =>
      have hnext : ∀ x : Option Record, next m.binding m.profile ⟨none, none, false⟩ .load x =
          some (if x.any (validateRecordForProfile · m.binding m.profile) then ⟨x, none, false⟩
            else ⟨none, none, true⟩) := fun x => by simp [next]
      refine conforms_call fun x => ⟨_, hnext x, ?_⟩
      cases x with
      | none => exact conforms_recovery hm.bound
      | some r =>
        by_cases hvalid : validateRecordForProfile r m.binding m.profile = true
        · simp only [hvalid, Option.any_some]
          exact proceed_conforms ⟨⟨rfl, rfl⟩, rfl, fun _ => rfl⟩
            (validateRecordForProfile_iff.1 hvalid)
        · simp only [hvalid, Option.any_some]
          exact conforms_recovery hm.bound
    | some r =>
      have hvalid := hr hrecovery r hrecord
      rw [hrecord] at hm
      simp only [validateRecordForProfile_iff.2 hvalid]
      exact proceed_conforms hm hvalid

end

end UploadState

end HomeLab
