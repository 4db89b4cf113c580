/-
  What holds in every run of upload machines.

  A number stands for one body for ever, whatever fails and however often the
  machine is dropped (`sequences_identify_bodies`); an acknowledgement is
  recorded only when it was earned, and a stop is final
  (`acks_earned_stops_final`).
-/
import HomeLab.UploadState.Runs

namespace HomeLab

namespace UploadState

open Prog

/-! ## Sequences -/

def Event.request : Event → Option Request
  | .sent request _ => some request
  | _ => none

/-- The requests handed to the transport, in order. -/
def Disk.requests (d : Disk) : List Request := d.log.filterMap fun entry => entry.event.request

/-- The requests of a history and its durable record agree. -/
structure Disk.Sequenced (d : Disk) : Prop where
  sent : ∀ entry ∈ d.log, ∀ request reply, entry.event = .sent request reply →
    ∃ p, entry.before.pending = some p ∧ request.sequence = p.sequence ∧ request.body = p.body
  bounded : ∀ request ∈ d.requests, request.sequence ≤ d.durable.watermark
  current : ∀ request ∈ d.requests, ∀ p, d.durable.pending = some p →
    request.sequence = p.sequence → request.body = p.body
  ordered : d.requests.Pairwise fun x y => x.sequence ≤ y.sequence
  same : ∀ x ∈ d.requests, ∀ y ∈ d.requests, x.sequence = y.sequence → x.body = y.body

theorem requests_write (d : Disk) (event : Event) :
    (d.write event).requests = d.requests ++ event.request.toList := by
  cases hr : event.request <;> simp [Disk.requests, Disk.write, hr]

theorem Disk.Sequenced.start (r : Record) : (⟨r, []⟩ : Disk).Sequenced :=
  ⟨by simp, by simp [Disk.requests], by simp [Disk.requests], by simp [Disk.requests],
    by simp [Disk.requests]⟩

/-- An event that is no send, and a durable record on which the requests so far
    are still current. -/
theorem Disk.Sequenced.write {d : Disk} (h : d.Sequenced) {event : Event} (he : event.request = none)
    {r : Record} (hbounded : ∀ request ∈ d.requests, request.sequence ≤ r.watermark)
    (hcurrent : ∀ request ∈ d.requests, ∀ p, r.pending = some p →
      request.sequence = p.sequence → request.body = p.body) :
    ({ d.write event with durable := r } : Disk).Sequenced := by
  have hrequests : ({ d.write event with durable := r } : Disk).requests = d.requests := by
    have := requests_write d event
    rwa [he, Option.toList_none, List.append_nil] at this
  refine ⟨?_, ?_, ?_, ?_, ?_⟩
  · intro entry hentry request reply hevent
    rcases List.mem_append.1 hentry with hold | hnew
    · exact h.sent entry hold request reply hevent
    · obtain rfl := List.mem_singleton.1 hnew
      subst hevent
      cases he
  · rw [hrequests]; exact hbounded
  · rw [hrequests]; exact hcurrent
  · rw [hrequests]; exact h.ordered
  · rw [hrequests]; exact h.same

section
variable [Sha256] [Projection]
variable {b : Binding} {profile : ProfileBinding} {d d' : Disk} {h : Host}

/-- The send of the pending body. -/
theorem Disk.Sequenced.send (h : d.Sequenced) (hd : d.durable.Valid b profile) {p : Pending}
    (hp : d.durable.pending = some p) (reply : Reply) :
    (d.write (.sent ⟨b, p.sequence, p.body⟩ reply)).Sequenced := by
  obtain ⟨-, hseq, -, -⟩ := hd.pending p hp
  have hrequests : (d.write (.sent ⟨b, p.sequence, p.body⟩ reply)).requests =
      d.requests ++ [⟨b, p.sequence, p.body⟩] := requests_write d _
  refine ⟨?_, ?_, ?_, ?_, ?_⟩
  · intro entry hentry request reply' hevent
    rcases List.mem_append.1 hentry with hold | hnew
    · exact h.sent entry hold request reply' hevent
    · obtain rfl := List.mem_singleton.1 hnew
      cases hevent
      exact ⟨p, hp, rfl, rfl⟩
  · intro request hr
    rw [hrequests] at hr
    rcases List.mem_append.1 hr with hold | hnew
    · exact h.bounded request hold
    · rw [List.mem_singleton.1 hnew]
      exact hseq ▸ Int64.le_refl _
  · intro request hr p' hp' hsame
    obtain rfl : p = p' := Option.some.inj (hp.symm.trans hp')
    rw [hrequests] at hr
    rcases List.mem_append.1 hr with hold | hnew
    · exact h.current request hold p hp hsame
    · rw [List.mem_singleton.1 hnew]
  · rw [hrequests, List.pairwise_append]
    refine ⟨h.ordered, by simp, ?_⟩
    intro x hx y hy
    rw [List.mem_singleton.1 hy]
    exact hseq ▸ h.bounded x hx
  · intro x hx y hy hsame
    rw [hrequests] at hx hy
    rcases List.mem_append.1 hx with hx | hx <;> rcases List.mem_append.1 hy with hy | hy
    · exact h.same x hx y hy hsame
    · rw [List.mem_singleton.1 hy] at hsame ⊢
      exact h.current x hx p hp hsame
    · rw [List.mem_singleton.1 hx] at hsame ⊢
      exact (h.current y hy p hp hsame.symm).symm
    · rw [List.mem_singleton.1 hx, List.mem_singleton.1 hy]

theorem Effect.sequenced (he : Effect b d d') (hd : d.durable.Valid b profile)
    (h : d.Sequenced) : d'.Sequenced := by
  cases he with
  | quiet => exact h
  | read unstopped => exact h.write rfl h.bounded h.current
  | sent p reply unstopped pending => exact h.send hd pending reply
  | failed next unstopped change => exact h.write rfl h.bounded h.current
  | committed next unstopped change earned =>
    refine h.write rfl (fun request hr => ?_) (fun request hr p hp hsame => ?_)
    · exact Int64.le_trans (h.bounded request hr) change.watermark_le
    · cases change with
      | retire | acknowledge => cases hp
      | refuse | exhaust => exact h.current request hr p hp hsame
      | adopt body taken free room fresh taken_eq =>
        -- the new number is above every number used so far
        obtain rfl := Option.some.inj hp
        have hle := Int64.le_iff_toInt_le.1 (h.bounded request hr)
        rw [show request.sequence = d.durable.watermark + 1 from hsame, toInt_succ room] at hle
        omega

/-- The watermark stays or is counted up by one, without overflow. -/
theorem Effect.watermark (he : Effect b d d') :
    d'.durable.watermark.toInt = d.durable.watermark.toInt ∨
      d'.durable.watermark.toInt = d.durable.watermark.toInt + 1 := by
  cases he with
  | committed next unstopped change earned => exact change.watermark
  | _ => exact Or.inl rfl

theorem Host.Inv.watermark_le (hi : h.Inv b profile) (ms : List Move) :
    h.disk.durable.watermark ≤ (h.run ms).disk.durable.watermark := by
  induction ms generalizing h with
  | nil => exact Int64.le_refl _
  | cons m ms ih =>
    refine Int64.le_trans ?_ (ih (hi.next m).inv)
    rw [Int64.le_iff_toInt_le]
    rcases (hi.next m).effect.watermark with h | h <;> omega

theorem Host.Inv.sequenced (hi : h.Inv b profile) (hs : h.disk.Sequenced) (ms : List Move) :
    (h.run ms).disk.Sequenced := by
  induction ms generalizing h with
  | nil => exact hs
  | cons m ms ih => exact ih (hi.next m).inv ((hi.next m).effect.sequenced hi.valid hs)

/-- **A number stands for one body.**  In every run of machines over one
    record, started on any record in order: a request carries the number and the
    body that are durably pending when it is sent; two requests with one number
    carry one body; numbers never go down; and the durable watermark never goes
    down or overflows. -/
theorem sequences_identify_bodies (b : Binding) (profile : ProfileBinding) (r : Record)
    (hr : validateRecordForProfile r b profile = true) (ms : List Move) :
    (∀ entry ∈ ((Host.start b profile r).run ms).disk.log, ∀ request reply,
      entry.event = .sent request reply →
        ∃ p, entry.before.pending = some p ∧ request.sequence = p.sequence ∧
          request.body = p.body) ∧
    (∀ x ∈ ((Host.start b profile r).run ms).disk.requests,
      ∀ y ∈ ((Host.start b profile r).run ms).disk.requests,
        x.sequence = y.sequence → x.body = y.body) ∧
    (((Host.start b profile r).run ms).disk.requests.Pairwise fun x y =>
      x.sequence ≤ y.sequence) ∧
    (∀ later, ((Host.start b profile r).run ms).disk.durable.watermark ≤
      ((Host.start b profile r).run (ms ++ later)).disk.durable.watermark) ∧
    ∀ m, ((Host.start b profile r).run (ms ++ [m])).disk.durable.watermark.toInt =
        ((Host.start b profile r).run ms).disk.durable.watermark.toInt ∨
      ((Host.start b profile r).run (ms ++ [m])).disk.durable.watermark.toInt =
        ((Host.start b profile r).run ms).disk.durable.watermark.toInt + 1 := by
  have hstart := Host.inv_start (validateRecordForProfile_iff.1 hr)
  have hi := hstart.run ms
  have hs := hstart.sequenced (.start r) ms
  refine ⟨hs.sent, hs.same, hs.ordered, fun later => ?_, fun m => ?_⟩
  · rw [Host.run_append]
    exact hi.watermark_le later
  · rw [Host.run_concat]
    exact (hi.next m).effect.watermark

end

/-! ### A sample installation -/

/-- Validators that accept every body. -/
@[reducible] def plainProjection : Projection where
  uploadCollectionTime := fun _ _ => some (63000000000 * second)
  combinedCollectionTime := fun _ _ => none
  groups := fun _ => none

def sampleBinding : Binding :=
  ⟨ascii "srv_00000000000000000000000000000000", ascii "agent_00000000000000000000000000000000"⟩

def sampleProfile : ProfileBinding := ⟨.numeric, zeroDigest⟩

/-- The record of a provisioned installation. -/
def sampleRecord : Record := ⟨sampleBinding, sampleProfile, 0, false, zeroDigest, none, none⟩

theorem sampleRecord_valid :
    @validateRecordForProfile plainDigest plainProjection sampleRecord sampleBinding
      sampleProfile = true := by decide

def sampleReply : Reply := ⟨⟨some .acknowledged, sampleBinding.serverId, 1⟩, false, false⟩

/-- Every call succeeds. -/
def sampleAnswers : Answers :=
  { now := 63000000001 * second, body := some (ascii "body"), reply := sampleReply }

/-- A step whose send fails, and one of a new machine that is acknowledged. -/
def sampleMoves : List Move :=
  .step :: List.replicate 14 (.advance { sampleAnswers with
      reply := { sampleReply with error := true } }) ++
    .create :: .step :: List.replicate 10 (.advance sampleAnswers)

theorem sampleMoves_resend :
    (@Host.run plainDigest plainProjection (Host.start sampleBinding sampleProfile sampleRecord)
      sampleMoves).disk.requests =
        [⟨sampleBinding, 1, ascii "body"⟩, ⟨sampleBinding, 1, ascii "body"⟩] ∧
    (@Host.run plainDigest plainProjection (Host.start sampleBinding sampleProfile sampleRecord)
      sampleMoves).disk.requests.Pairwise fun x y => x.sequence ≤ y.sequence :=
  ⟨by decide, (@sequences_identify_bodies plainDigest plainProjection sampleBinding
    sampleProfile sampleRecord sampleRecord_valid sampleMoves).2.2.1⟩

section
variable [Sha256] [Projection]
variable {b : Binding} {profile : ProfileBinding} {d d' : Disk} {h : Host}

/-! ## Acknowledgements and stops -/

/-- A move that changes what is acknowledged is a commit, right after the send
    that earned it. -/
theorem Effect.ack (he : Effect b d d') (hd : d.durable.Valid b profile)
    (hack : d'.durable.ack ≠ d.durable.ack) :
    ∃ p reply, d.durable.pending = some p ∧
      d.lastSent = some (⟨b, p.sequence, p.body⟩, reply) ∧ reply.Acknowledges b p ∧
      d'.log = d.log ++ [⟨d.durable, .committed d'.durable true⟩] ∧
      d'.durable.ack = (true, Sha256.sum256 p.body) := by
  cases he with
  | committed next unstopped change earned =>
    obtain ⟨p, reply, hp, hdigest, hsent, hreply⟩ := earned hack
    obtain ⟨-, -, -, hsum⟩ := hd.pending p hp
    exact ⟨p, reply, hp, hsent, hreply, rfl, hsum ▸ hdigest⟩
  | _ => exact absurd rfl hack

/-- A body that becomes pending is not the one acknowledged last. -/
theorem Effect.pending (he : Effect b d d') {p : Pending} (hp : d'.durable.pending = some p)
    (hnew : d.durable.pending ≠ some p) :
    p.digest = Sha256.sum256 p.body ∧ (d.durable.hasAck = true → p.digest ≠ d.durable.lastAck) := by
  cases he with
  | committed next unstopped change earned =>
    cases change with
    | adopt body taken free room fresh taken_eq =>
      obtain rfl := Option.some.inj hp
      exact ⟨rfl, fresh⟩
    | retire | acknowledge => cases hp
    | refuse | exhaust => exact absurd hp hnew
  | _ => exact absurd hp hnew

theorem Effect.eq_of_stopped (he : Effect b d d') {reason : Outcome}
    (hs : d.durable.stopped = some reason) : d' = d := by
  have hne : d.durable.stopped ≠ none := by simp [hs]
  cases he with
  | quiet => rfl
  | read unstopped => exact absurd unstopped hne
  | sent p reply unstopped pending => exact absurd unstopped hne
  | failed next unstopped change => exact absurd unstopped hne
  | committed next unstopped change earned => exact absurd unstopped hne

theorem Host.Inv.stopped (hi : h.Inv b profile) {reason : Outcome}
    (hs : h.disk.durable.stopped = some reason) (ms : List Move) :
    (h.run ms).disk = h.disk ∧
      ∃ xs, (h.run ms).results = h.results ++ xs ∧ ∀ x ∈ xs, Final h.disk.durable x := by
  induction ms generalizing h with
  | nil => exact ⟨rfl, [], by simp [Host.run], by simp⟩
  | cons m ms ih =>
    have hdisk := (hi.next m).effect.eq_of_stopped hs
    obtain ⟨xs, hxs, hfinal⟩ := (hi.next m).results
    obtain ⟨hdisk', ys, hys, hfinal'⟩ := ih (hi.next m).inv (by rw [hdisk, hs])
    refine ⟨hdisk'.trans hdisk, xs ++ ys, ?_, ?_⟩
    · rw [← List.append_assoc, ← hxs]
      exact hys
    · intro x hx
      rcases List.mem_append.1 hx with hx | hx
      · exact hfinal x hx
      · exact hdisk ▸ hfinal' x hx

/-- **Acknowledgements are earned and stops are final.**  In every run of
    machines over one record: the acknowledged digest changes only in a commit
    whose last event before it was a send of the pending body that was
    acknowledged for the bound server and the pending number, and then it is the
    digest of the body sent; a body whose digest is the acknowledged one never
    becomes pending; after a stop nothing is read, sent or committed, and every
    step returns the reason or `ErrRecovery`, `ErrCanceled` or `ErrBusy`; and
    the sequence is exhausted only at the largest number with nothing pending. -/
theorem acks_earned_stops_final (b : Binding) (profile : ProfileBinding) (r : Record)
    (hr : validateRecordForProfile r b profile = true) (ms : List Move) :
    (∀ m, ((Host.start b profile r).run (ms ++ [m])).disk.durable.ack ≠
        ((Host.start b profile r).run ms).disk.durable.ack →
      ∃ before p reply,
        ((Host.start b profile r).run ms).disk.log.getLast? =
          some ⟨before, .sent ⟨b, p.sequence, p.body⟩ reply⟩ ∧
        ((Host.start b profile r).run ms).disk.durable.pending = some p ∧
        reply.response = ⟨some .acknowledged, b.serverId, p.sequence⟩ ∧
        ((Host.start b profile r).run (ms ++ [m])).disk.log =
          ((Host.start b profile r).run ms).disk.log ++
            [⟨((Host.start b profile r).run ms).disk.durable,
              .committed ((Host.start b profile r).run (ms ++ [m])).disk.durable true⟩] ∧
        ((Host.start b profile r).run (ms ++ [m])).disk.durable.ack =
          (true, Sha256.sum256 p.body)) ∧
    (∀ m p, ((Host.start b profile r).run (ms ++ [m])).disk.durable.pending = some p →
      ((Host.start b profile r).run ms).disk.durable.pending ≠ some p →
        p.digest = Sha256.sum256 p.body ∧
        (((Host.start b profile r).run ms).disk.durable.hasAck = true →
          p.digest ≠ ((Host.start b profile r).run ms).disk.durable.lastAck)) ∧
    (∀ reason, ((Host.start b profile r).run ms).disk.durable.stopped = some reason →
      ∀ later, ((Host.start b profile r).run (ms ++ later)).disk =
          ((Host.start b profile r).run ms).disk ∧
        ∃ xs, ((Host.start b profile r).run (ms ++ later)).results =
            ((Host.start b profile r).run ms).results ++ xs ∧
          ∀ x ∈ xs, x = .ok reason ∨ x = .error .recovery ∨ x = .error .canceled ∨
            x = .error .busy) ∧
    (((Host.start b profile r).run ms).disk.durable.stopped = some .exhausted →
      ((Host.start b profile r).run ms).disk.durable.watermark = Int64.maxValue ∧
      ((Host.start b profile r).run ms).disk.durable.pending = none) := by
  have hi := (Host.inv_start (validateRecordForProfile_iff.1 hr)).run ms
  refine ⟨fun m hack => ?_, fun m p hp hnew => ?_, fun reason hs later => ?_, hi.valid.exhausted⟩
  · rw [Host.run_concat] at hack ⊢
    -- only a commit right after an acknowledged send changes what is acknowledged
    obtain ⟨p, reply, hp, hsent, hreply, hlog, hdigest⟩ := (hi.next m).effect.ack hi.valid hack
    obtain ⟨before, hlast⟩ := lastSent_eq_some hsent
    refine ⟨before, p, reply, hlast, hp, ?_, hlog, hdigest⟩
    have hresponse : reply.response = ⟨reply.response.outcome, reply.response.serverId,
      reply.response.sequence⟩ := rfl
    rw [hresponse, hreply.outcome, hreply.server, hreply.sequence]
  · rw [Host.run_concat] at hp
    exact (hi.next m).effect.pending hp hnew
  · rw [Host.run_append]
    obtain ⟨hdisk, xs, hxs, hfinal⟩ := hi.stopped hs later
    exact ⟨hdisk, xs, hxs, fun x hx => hfinal x hx reason hs⟩

end

/-- A step on a server that rejects the credential. -/
def sampleStop : List Move :=
  .step :: List.replicate 16 (.advance { sampleAnswers with
    reply := ⟨⟨some .credentialRejected, [], 0⟩, false, false⟩ })

theorem sampleStop_stopped :
    (@Host.run plainDigest plainProjection (Host.start sampleBinding sampleProfile sampleRecord)
      sampleStop).disk.durable.stopped = some .credentialRejected := by decide

theorem sampleStop_final :
    (@Host.run plainDigest plainProjection (Host.start sampleBinding sampleProfile sampleRecord)
      sampleStop).disk.durable.stopped = some .credentialRejected ∧
    ∀ later, (@Host.run plainDigest plainProjection
        (Host.start sampleBinding sampleProfile sampleRecord) (sampleStop ++ later)).disk =
      (@Host.run plainDigest plainProjection
        (Host.start sampleBinding sampleProfile sampleRecord) sampleStop).disk := by
  refine ⟨sampleStop_stopped, fun later => ?_⟩
  have h := (@acks_earned_stops_final plainDigest plainProjection sampleBinding sampleProfile
    sampleRecord sampleRecord_valid sampleStop).2.2.1
  exact (h _ sampleStop_stopped later).1

end UploadState

end HomeLab
