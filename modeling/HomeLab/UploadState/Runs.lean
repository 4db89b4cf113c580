/-
  Upload machines over one durable record.

  Machines follow each other on one record: each is made after the one before
  it was dropped, at any point of a step.  Between two calls of a step the
  outside world decides everything: the clock, the body, the reply, whether the
  context is done, and what becomes of a commit, which may be durable although
  it reports a failure.  Reads, sends and commits are logged with the record
  that was durable at the time.

  `Effect` says all that one move can do to the record and the log; the
  guarantees are inductions over it.
-/
import HomeLab.UploadState.Machine

namespace HomeLab

namespace UploadState

open Prog

inductive Event where
  | read
  | sent (request : Request) (reply : Reply)
  | committed (next : Record) (applied : Bool)

/-- An event and the durable record before it. -/
structure Entry where
  before : Record
  event : Event

/-- The durable record and the history. -/
structure Disk where
  durable : Record
  log : List Entry

/-- What the outside world decides during one call. -/
structure Answers where
  canceled : Bool := false
  now : Instant
  loads : Bool := true
  body : Option Bytes
  reply : Reply
  commit : Commit := .done

def Disk.write (d : Disk) (event : Event) : Disk := { d with log := d.log ++ [⟨d.durable, event⟩] }

/-- A commit compares the record it expects with the durable one, and replaces
    it as a whole or not at all. -/
def Disk.commit (d : Disk) (outcome : Commit) (previous next : Record) : Disk × Bool :=
  if d.durable ≠ previous then (d.write (.committed next false), false)
  else
    match outcome with
    | .done => ({ d.write (.committed next true) with durable := next }, true)
    | .lost => (d.write (.committed next false), false)
    | .uncertain => ({ d.write (.committed next true) with durable := next }, false)

theorem commit_lost (d : Disk) (previous next : Record) :
    (d.commit .lost previous next).1.durable = d.durable ∧
      (d.commit .lost previous next).2 = false := by
  rw [Disk.commit]
  split_ifs <;> exact ⟨rfl, rfl⟩

/-- How a call of a step changes the disk, and its answer. -/
def answer : (c : Call) → Answers → Disk → Disk × c.Answer
  | .canceled, e, d => (d, e.canceled)
  | .now, e, d => (d, e.now)
  | .load, e, d => (d, if e.loads then some d.durable else none)
  | .read _, e, d => (d.write .read, e.body)
  | .send request, e, d => (d.write (.sent request e.reply), e.reply)
  | .commit previous next, e, d => d.commit e.commit previous next

/-- The record, the machine of the moment, its step if one is running and the
    results of all steps so far. -/
structure Host where
  disk : Disk
  machine : Machine
  running : Option (Prog calls (Result × Machine))
  results : List Result

inductive Move where
  /-- Drop the machine and make a new one. -/
  | create
  /-- Call `Step`. -/
  | step
  /-- The next call of the running step to the outside, or its end. -/
  | advance (e : Answers)

/-! ## The place of a step on the disk -/

/-- The last event, if it is a send. -/
def Disk.lastSent (d : Disk) : Option (Request × Reply) :=
  match d.log.getLast? with
  | some ⟨_, .sent request reply⟩ => some (request, reply)
  | _ => none

/-- The place of a step is true of the disk: its record is the durable one. -/
structure Placed (d : Disk) (q : Position) : Prop where
  memory : q.failed = false → ∀ r, q.memory = some r → r = d.durable
  sent : ∀ x, q.sent = some x → d.lastSent = some x

/-- The result of a step on a stopped record. -/
def Final (r : Record) (x : Result) : Prop :=
  ∀ reason, r.stopped = some reason →
    x = .ok reason ∨ x = .error .recovery ∨ x = .error .canceled ∨ x = .error .busy

section
variable {d : Disk}

theorem lastSent_write_sent (request : Request) (reply : Reply) :
    (d.write (.sent request reply)).lastSent = some (request, reply) := by
  simp [Disk.lastSent, Disk.write]

theorem lastSent_eq_some {request : Request} {reply : Reply}
    (h : d.lastSent = some (request, reply)) :
    ∃ before, d.log.getLast? = some ⟨before, .sent request reply⟩ := by
  rw [Disk.lastSent] at h
  split at h
  · rename_i before request' reply' hlast
    obtain ⟨rfl, rfl⟩ := Prod.mk.inj (Option.some.inj h)
    exact ⟨before, hlast⟩
  · cases h

/-- After a failure a place says nothing about the disk. -/
theorem Placed.failed (memory : Option Record) : Placed d ⟨memory, none, true⟩ :=
  ⟨nofun, nofun⟩

theorem Placed.holds : Placed d ⟨some d.durable, none, false⟩ :=
  ⟨fun _ _ hr => (Option.some.inj hr).symm, nofun⟩

/-- What a step returns is in keeping with a record that has stopped. -/
theorem Returns.final {b : Binding} {profile : ProfileBinding} {q : Position} {x : Result × Machine} (hx : Returns b profile q x)
    (hq : Placed d q) : Final d.durable x.1 := by
  intro reason hreason
  cases hf : q.failed with
  | true => exact Or.inr (Or.inl (hx.recovery.2 hf))
  | false =>
    cases hm : q.memory with
    | none => exact Or.inr (Or.inr (Or.inl (hx.unloaded hf hm)))
    | some r =>
      obtain rfl := hq.memory hf r hm
      rcases hx.stopped hf _ reason hm hreason with h | h
      · exact Or.inl h
      · exact Or.inr (Or.inr (Or.inl h))

end

theorem Earned.mono {b : Binding} {sent sent' : Option (Request × Reply)} {r r' : Record}
    (h : Earned b sent r r') (hs : ∀ x, sent = some x → sent' = some x) : Earned b sent' r r' := by
  intro hack
  obtain ⟨p, reply, hp, hr', hsent, hreply⟩ := h hack
  exact ⟨p, reply, hp, hr', hs _ hsent, hreply⟩

section
variable [Sha256] [Projection]

def Host.next (h : Host) : Move → Host
  | .create =>
    { h with machine := .fresh h.machine.binding h.machine.profile, running := none }
  | .step =>
    match h.running with
    | some _ => { h with results := h.results ++ [.error .busy] }
    | none => { h with running := some h.machine.step }
  | .advance e =>
    match h.running with
    | none => h
    | some p =>
      match p.result with
      | some (result, machine) =>
        { h with machine, running := none, results := h.results ++ [result] }
      | none =>
        { h with
          disk := (p.perform (I := calls) answer h.disk e).1
          running := some (p.perform (I := calls) answer h.disk e).2 }

/-- The first machine on a record. -/
def Host.start (b : Binding) (profile : ProfileBinding) (r : Record) : Host :=
  ⟨⟨r, []⟩, .fresh b profile, none, []⟩

def Host.run (h : Host) (ms : List Move) : Host := ms.foldl Host.next h

theorem Host.run_concat (h : Host) (ms : List Move) (m : Move) :
    h.run (ms ++ [m]) = (h.run ms).next m := by simp [run]

theorem Host.run_append (h : Host) (ms ms' : List Move) :
    h.run (ms ++ ms') = (h.run ms).run ms' := by simp [run]

/-! ## What a move can do -/

/-- What one move can do to the durable record and the log. -/
inductive Effect (b : Binding) (d : Disk) : Disk → Prop where
  | quiet : Effect b d d
  | read (unstopped : d.durable.stopped = none) : Effect b d (d.write .read)
  | sent (p : Pending) (reply : Reply) (unstopped : d.durable.stopped = none)
      (pending : d.durable.pending = some p) :
      Effect b d (d.write (.sent ⟨b, p.sequence, p.body⟩ reply))
  | failed (next : Record) (unstopped : d.durable.stopped = none) (change : Change d.durable next) :
      Effect b d (d.write (.committed next false))
  | committed (next : Record) (unstopped : d.durable.stopped = none)
      (change : Change d.durable next) (earned : Earned b d.lastSent d.durable next) :
      Effect b d { d.write (.committed next true) with durable := next }

structure Host.Inv (b : Binding) (profile : ProfileBinding) (h : Host) : Prop where
  bound : h.machine.binding = b ∧ h.machine.profile = profile
  valid : h.disk.durable.Valid b profile
  idle : h.running = none → h.machine.recovery = false → ∀ r, h.machine.record = some r →
    r = h.disk.durable
  running : ∀ p, h.running = some p → ∃ q, Placed h.disk q ∧ Conforms b profile q p

variable {b : Binding} {profile : ProfileBinding} {d d' : Disk} {h : Host}

theorem Effect.valid (he : Effect b d d') (hd : d.durable.Valid b profile) :
    d'.durable.Valid b profile := by
  cases he with
  | committed next unstopped change earned => exact change.valid hd unstopped
  | _ => exact hd

/-- One call of a step, from its place in the protocol. -/
theorem answer_effect {c : Call} {e : Answers} {q q' : Position} (hq : Placed d q)
    (hnext : next b profile q c (answer c e d).2 = some q') :
    Effect b d (answer c e d).1 ∧ Placed (answer c e d).1 q' := by
  cases c with
  | canceled | now =>
    obtain rfl := Option.some.inj hnext
    exact ⟨.quiet, hq⟩
  | load =>
    obtain ⟨-, hq'⟩ := Option.ite_none_right_eq_some.1 hnext
    obtain rfl := Option.some.inj hq'
    refine ⟨.quiet, ?_⟩
    rw [answer]
    split_ifs with hloads hvalid hvalid
    · exact Placed.holds
    · exact Placed.failed _
    · exact absurd hvalid (by simp)
    · exact Placed.failed _
  | read server =>
    obtain ⟨⟨hok, r, hr, hs, -⟩, hq'⟩ := Option.ite_none_right_eq_some.1 hnext
    obtain rfl := Option.some.inj hq'
    obtain rfl := hq.memory hok r hr
    exact ⟨.read hs, hq.memory, nofun⟩
  | send request =>
    obtain ⟨⟨hok, r, p, hr, hs, hp, rfl⟩, hq'⟩ := Option.ite_none_right_eq_some.1 hnext
    obtain rfl := Option.some.inj hq'
    obtain rfl := hq.memory hok r hr
    refine ⟨.sent p e.reply hs hp, hq.memory, ?_⟩
    rintro x ⟨⟩
    exact lastSent_write_sent _ _
  | commit r r' =>
    obtain ⟨⟨hok, hr, hs, hchange, hearned⟩, hq'⟩ := Option.ite_none_right_eq_some.1 hnext
    obtain rfl := hq.memory hok r hr
    have hearned' := hearned.mono hq.sent
    obtain rfl := Option.some.inj hq'
    clear hnext hq'
    simp only [answer, Disk.commit, ne_eq, not_true_eq_false, if_false]
    cases e.commit with
    | done => exact ⟨.committed r' hs hchange hearned', Placed.holds⟩
    | lost => exact ⟨.failed r' hs hchange, Placed.failed _⟩
    | uncertain => exact ⟨.committed r' hs hchange hearned', Placed.failed _⟩

/-- What one move does: it keeps the invariant, has one of the effects on the
    disk and adds results that are in keeping with the durable record. -/
structure Host.Moves (b : Binding) (profile : ProfileBinding) (h h' : Host) : Prop where
  inv : h'.Inv b profile
  effect : Effect b h.disk h'.disk
  results : ∃ xs, h'.results = h.results ++ xs ∧ ∀ x ∈ xs, Final h.disk.durable x

theorem Host.Inv.step (hi : h.Inv b profile) : Host.Moves b profile h (h.next .step) := by
  rw [Host.next]
  cases hrun : h.running with
  | some p =>
    refine ⟨⟨hi.bound, hi.valid, nofun, ?_⟩, .quiet, [.error .busy], rfl, ?_⟩
    · exact fun p' hp' => hi.running p' (hrun.trans hp')
    · intro x hx reason _
      rw [List.mem_singleton.1 hx]
      exact Or.inr (Or.inr (Or.inr rfl))
  | none =>
    refine ⟨⟨hi.bound, hi.valid, nofun, ?_⟩, .quiet, [], by simp, by simp⟩
    rintro p hp
    obtain rfl := Option.some.inj hp
    have hmemory := hi.idle hrun
    refine ⟨⟨h.machine.record, none, h.machine.recovery⟩, ⟨hmemory, fun x hx => (nomatch hx)⟩, ?_⟩
    have hconforms := step_follows h.machine fun hrec r hr => by
      rw [hi.bound.1, hi.bound.2, hmemory hrec r hr]
      exact hi.valid
    rwa [hi.bound.1, hi.bound.2] at hconforms

theorem Host.Inv.advance (hi : h.Inv b profile) (e : Answers) :
    Host.Moves b profile h (h.next (.advance e)) := by
  rw [Host.next]
  cases hrun : h.running with
  | none => exact ⟨hi, .quiet, [], by simp, by simp⟩
  | some p =>
    obtain ⟨q, hq, hp⟩ := hi.running p hrun
    cases p with
    | ret x =>
      have hx : Returns b profile q x := hp
      refine ⟨⟨hx.machine.bound, hi.valid, fun _ hrec r hr => ?_, fun p hp => (nomatch hp)⟩,
        .quiet, [x.1], rfl, ?_⟩
      · have hf : q.failed = false := hx.machine.recovery.symm.trans hrec
        exact hq.memory hf r ((hx.machine.memory hf).symm.trans hr)
      · intro y hy
        rw [List.mem_singleton.1 hy]
        exact hx.final hq
    | call c k =>
      obtain ⟨q', hnext, hk⟩ := hp (answer c e h.disk).2
      obtain ⟨heffect, hplaced⟩ := answer_effect hq hnext
      refine ⟨⟨hi.bound, heffect.valid hi.valid, nofun, ?_⟩, heffect, [],
        by simp [Prog.result], by simp⟩
      rintro p hp
      obtain rfl := Option.some.inj hp
      exact ⟨q', hplaced, hk⟩

theorem Host.Inv.next (hi : h.Inv b profile) (m : Move) :
    Host.Moves b profile h (h.next m) := by
  cases m with
  | create =>
    refine ⟨⟨hi.bound, hi.valid, fun _ _ r hr => (nomatch hr), fun p hp => (nomatch hp)⟩, .quiet,
      [], by simp [Host.next], by simp⟩
  | step => exact hi.step
  | advance e => exact hi.advance e

theorem Host.inv_start {r : Record} (hr : r.Valid b profile) : (Host.start b profile r).Inv b profile where
  bound := ⟨rfl, rfl⟩
  valid := hr
  idle := nofun
  running := nofun

theorem Host.Inv.run (hi : h.Inv b profile) (ms : List Move) : (h.run ms).Inv b profile := by
  induction ms generalizing h with
  | nil => exact hi
  | cons m ms ih => exact ih (hi.next m).inv

end

end UploadState

end HomeLab
