/-
  The durable upload ledger.

  The ledger keeps one record.  `Commit` checks that the change it is asked for
  is legal, compares the stored record with the expected one and replaces it in
  one transaction; after any failure it refuses all further work.

  It keeps the contract the upload machine relies on (`commit_refines`).  The
  two agree on what a legal change is (`step_commits_legal`): no commit of a
  step is refused for what it changes, and a step requires recovery only after
  its ledger has failed.
-/
import HomeLab.UploadState.Guarantees

namespace HomeLab

namespace UploadLedger

open Prog UploadState

/-! ## Legal changes -/

def samePending : Option Pending → Option Pending → Bool
  | none, none => true
  | some x, some y =>
    x.sequence = y.sequence && x.digest = y.digest && x.collectedAt = y.collectedAt &&
      x.body = y.body
  | _, _ => false

def sameRecord (x y : Record) : Bool :=
  x.binding = y.binding && x.profile = y.profile && x.watermark = y.watermark &&
    x.hasAck = y.hasAck && x.lastAck = y.lastAck && x.stopped = y.stopped &&
    samePending x.pending y.pending

theorem samePending_iff {x y : Option Pending} : samePending x y = true ↔ x = y := by
  cases x with
  | none => cases y <;> simp [samePending]
  | some x =>
    cases y with
    | none => simp [samePending]
    | some y =>
      obtain ⟨xs, xb, xd, xt⟩ := x
      obtain ⟨ys, yb, yd, yt⟩ := y
      simp only [samePending, Bool.and_eq_true, decide_eq_true_eq, Option.some.injEq,
        Pending.mk.injEq]
      tauto

theorem sameRecord_iff {x y : Record} : sameRecord x y = true ↔ x = y := by
  obtain ⟨xb, xp, xw, xh, xl, xq, xs⟩ := x
  obtain ⟨yb, yp, yw, yh, yl, yq, ys⟩ := y
  simp only [sameRecord, Bool.and_eq_true, decide_eq_true_eq, samePending_iff, Record.mk.injEq]
  tauto

section
variable [Sha256] [Projection]

def validChangeForProfile (expected next : Record) (binding : Binding) (profile : ProfileBinding) :
    Bool :=
  validateRecordForProfile expected binding profile &&
  validateRecordForProfile next binding profile &&
  expected.watermark ≤ next.watermark &&
  (match next.pending with
    | none => true
    | some p => expected.watermark < p.sequence || samePending expected.pending next.pending)

/-- Every change of the machine is one the ledger accepts. -/
theorem Change.legal {b : Binding} {profile : ProfileBinding} {r r' : Record} (hc : Change r r')
    (hr : r.Valid b profile) (hs : r.stopped = none) :
    validChangeForProfile r r' b profile = true := by
  have hpending : (match r'.pending with
      | none => true
      | some p => decide (r.watermark < p.sequence) || samePending r.pending r'.pending) = true := by
    cases hc with
    | retire | acknowledge => rfl
    | adopt body taken free room fresh taken_eq =>
      have hlt : r.watermark < r.watermark + 1 := by
        rw [Int64.lt_iff_toInt_lt, toInt_succ room]
        omega
      simp [Record.adopt, hlt]
    | refuse reason final usable =>
      cases hp : r.pending <;> simp [Record.stop, hp, samePending_iff]
    | exhaust free full => simp [Record.stop, free]
  rw [validChangeForProfile, validateRecordForProfile_iff.2 hr,
    validateRecordForProfile_iff.2 (hc.valid hr hs), hpending]
  simpa using hc.watermark_le

/-! ## The ledger -/

/-- `conn` is false once the ledger is closed. -/
structure Ledger where
  binding : Binding
  profile : ProfileBinding
  stored : Record
  failed : Bool := false
  conn : Bool := true

/-- What the driver answers during a call. -/
structure Storage where
  /-- The mutex is held by another call. -/
  locked : Bool := false
  begin : Bool := true
  query : Bool := true
  update : Bool := true
  commit : Commit := .done

def readRecord (l : Ledger) (s : Storage) : Option Record :=
  if s.query && validateRecordForProfile l.stored l.binding l.profile then some l.stored else none

def Ledger.load (l : Ledger) (s : Storage) : Ledger × Option Record :=
  if s.locked || l.failed || !l.conn then (l, none)
  else
    match readRecord l s with
    | none => ({ l with failed := true }, none)
    | some r => (l, some r)

/-- The transaction of a commit: the stored record after it, and whether it
    succeeds. -/
def transaction (l : Ledger) (s : Storage) (expected next : Record) : Record × Bool :=
  if !s.begin then (l.stored, false)
  else
    match readRecord l s with
    | none => (l.stored, false)
    | some actual =>
      if !sameRecord actual expected || !s.update then (l.stored, false)
      else
        match s.commit with
        | .done => (next, true)
        | .lost => (l.stored, false)
        | .uncertain => (next, false)

def Ledger.commit (l : Ledger) (s : Storage) (expected next : Record) : Ledger × Bool :=
  if s.locked || l.failed || !l.conn then (l, false)
  else if !validChangeForProfile expected next l.binding l.profile then
    ({ l with failed := true }, false)
  else
    let x := transaction l s expected next
    ({ l with stored := x.1, failed := !x.2 }, x.2)

theorem load_refines (l : Ledger) (s : Storage) :
    (l.load s).1.stored = l.stored ∧
      ((l.load s).2 = none ∨ (l.load s).2 = some l.stored) := by
  rw [Ledger.load, readRecord]
  split_ifs <;> simp

theorem transaction_refines (l : Ledger) (s : Storage) (expected next : Record) (log : List Entry) :
    ∃ outcome, ((⟨l.stored, log⟩ : Disk).commit outcome expected next).1.durable =
        (transaction l s expected next).1 ∧
      ((⟨l.stored, log⟩ : Disk).commit outcome expected next).2 =
        (transaction l s expected next).2 := by
  have hlost := commit_lost ⟨l.stored, log⟩ expected next
  rw [transaction]
  split_ifs with hbegin
  · exact ⟨.lost, hlost⟩
  cases hread : readRecord l s with
  | none => exact ⟨.lost, hlost⟩
  | some actual =>
    dsimp only
    split_ifs with hrefused
    · exact ⟨.lost, hlost⟩
    have hactual : l.stored = actual := by
      rw [readRecord] at hread
      split_ifs at hread
      exact Option.some.inj hread
    have hsame : l.stored = expected := by
      rw [hactual, ← sameRecord_iff]
      simp only [Bool.or_eq_true, not_or, Bool.not_eq_true', Bool.not_eq_false] at hrefused
      exact hrefused.1
    refine ⟨s.commit, ?_⟩
    simp only [Disk.commit, hsame, ne_eq, not_true_eq_false, if_false]
    cases s.commit <;> exact ⟨rfl, rfl⟩

/-- **The ledger keeps its contract.**  A commit replaces the stored record as a
    whole or leaves it, and it succeeds only if it replaced the expected one. -/
theorem commit_refines (l : Ledger) (s : Storage) (expected next : Record) (log : List Entry) :
    ∃ outcome, ((⟨l.stored, log⟩ : Disk).commit outcome expected next).1.durable =
        (l.commit s expected next).1.stored ∧
      ((⟨l.stored, log⟩ : Disk).commit outcome expected next).2 = (l.commit s expected next).2 := by
  have hlost := commit_lost ⟨l.stored, log⟩ expected next
  rw [Ledger.commit]
  split_ifs
  · exact ⟨.lost, hlost⟩
  · exact ⟨.lost, hlost⟩
  · exact transaction_refines l s expected next log

/-! ## The machine and the ledger -/

/-- Every call and its answer, in order. -/
abbrev Trace := List (Σ c : UploadState.Call, c.Answer)

/-- Answer each call as given, and keep a trace. -/
def recorded (c : UploadState.Call) (answers : (c : UploadState.Call) → c.Answer) (t : Trace) :
    Trace × c.Answer :=
  (t ++ [⟨c, answers c⟩], answers c)

/-- Every commit of the trace is one the ledger accepts. -/
def Trace.Legal (b : Binding) (profile : ProfileBinding) (t : Trace) : Prop :=
  ∀ previous next ok, ⟨.commit previous next, ok⟩ ∈ t →
    validChangeForProfile previous next b profile = true

/-- The ledger failed: a load did not return a valid record, or a commit reported
    a failure. -/
def Trace.LedgerFailed (b : Binding) (profile : ProfileBinding) (t : Trace) : Prop :=
  (∃ x, ⟨.load, x⟩ ∈ t ∧ x.any (validateRecordForProfile · b profile) = false) ∨
    ∃ previous next, ⟨.commit previous next, false⟩ ∈ t

/-- What the calls so far say about the place of a step. -/
structure Traced (b : Binding) (profile : ProfileBinding) (t : Trace) (q : Position) : Prop where
  memory : ∀ r, q.memory = some r → r.Valid b profile
  legal : t.Legal b profile
  failed : q.failed = true → t.LedgerFailed b profile

variable {b : Binding} {profile : ProfileBinding} {t : Trace} {q q' : Position}

theorem Trace.LedgerFailed.concat (h : t.LedgerFailed b profile)
    (x : Σ c : UploadState.Call, c.Answer) : Trace.LedgerFailed b profile (t ++ [x]) := by
  rcases h with ⟨y, hy, hv⟩ | ⟨previous, next, hm⟩
  · exact Or.inl ⟨y, List.mem_append_left _ hy, hv⟩
  · exact Or.inr ⟨previous, next, List.mem_append_left _ hm⟩

theorem Trace.Legal.concat (h : t.Legal b profile) {x : Σ c : UploadState.Call, c.Answer}
    (hx : ∀ previous next ok, x = ⟨.commit previous next, ok⟩ →
      validChangeForProfile previous next b profile = true) : Trace.Legal b profile (t ++ [x]) := by
  intro previous next ok hm
  rcases List.mem_append.1 hm with hm | hm
  · exact h previous next ok hm
  · exact hx previous next ok (List.mem_singleton.1 hm).symm

/-- One call keeps what the trace says. -/
theorem Traced.call (h : Traced b profile t q) {c : UploadState.Call} {x : c.Answer}
    (hnext : next b profile q c x = some q') : Traced b profile (t ++ [⟨c, x⟩]) q' := by
  have hkeep : ∀ {c : UploadState.Call} {x : c.Answer},
      (∀ previous next ok, (⟨c, x⟩ : Σ c : UploadState.Call, c.Answer) ≠
        ⟨.commit previous next, ok⟩) → Trace.Legal b profile (t ++ [⟨c, x⟩]) :=
    fun hne => h.legal.concat fun previous next ok heq => absurd heq (hne previous next ok)
  cases c with
  | canceled | now =>
    obtain rfl := Option.some.inj hnext
    exact ⟨h.memory, hkeep (by simp), fun hf => (h.failed hf).concat _⟩
  | load =>
    obtain ⟨-, hq'⟩ := Option.ite_none_right_eq_some.1 hnext
    obtain rfl := Option.some.inj hq'
    split_ifs with hvalid
    · refine ⟨fun r hr => ?_, hkeep (by simp), nofun⟩
      obtain rfl : x = some r := hr
      exact validateRecordForProfile_iff.1 hvalid
    · refine ⟨fun r hr => (nomatch hr), hkeep (by simp), fun _ => Or.inl ⟨x, by simp, ?_⟩⟩
      exact Bool.eq_false_iff.2 hvalid
  | read | send =>
    obtain ⟨-, hq'⟩ := Option.ite_none_right_eq_some.1 hnext
    obtain rfl := Option.some.inj hq'
    exact ⟨h.memory, hkeep (by simp), fun hf => (h.failed hf).concat _⟩
  | commit r r' =>
    obtain ⟨⟨-, hr, hs, hchange, -⟩, hq'⟩ := Option.ite_none_right_eq_some.1 hnext
    obtain rfl := Option.some.inj hq'
    have hvalid := h.memory r hr
    have hlegal : Trace.Legal b profile (t ++ [⟨.commit r r', x⟩]) := by
      refine h.legal.concat ?_
      rintro _ _ _ ⟨⟩
      exact Change.legal hchange hvalid hs
    cases x with
    | true =>
      refine ⟨fun s hs' => ?_, hlegal, nofun⟩
      obtain rfl := Option.some.inj hs'
      exact hchange.valid hvalid hs
    | false =>
      refine ⟨fun s hs' => ?_, hlegal, fun _ => Or.inr ⟨r, r', by simp⟩⟩
      obtain rfl := Option.some.inj hs'
      exact hvalid

/-- What the outside world decides while a step runs over a ledger. -/
structure Environment where
  canceled : Bool := false
  now : Instant
  body : Option Bytes
  reply : Reply
  storage : Storage := {}

/-- How the calls of a step are answered over a ledger. -/
def served : (c : UploadState.Call) → Environment → Ledger → Ledger × c.Answer
  | .canceled, e, l => (l, e.canceled)
  | .now, e, l => (l, e.now)
  | .load, e, l => l.load e.storage
  | .read _, e, l => (l, e.body)
  | .send _, e, l => (l, e.reply)
  | .commit previous next, e, l => l.commit e.storage previous next

/-- The storage of the ledger does not fail. -/
structure Storage.Sound (s : Storage) : Prop where
  locked : s.locked = false
  begin : s.begin = true
  query : s.query = true
  update : s.update = true
  commit : s.commit = .done

/-- The ledger works and holds the record of the step. -/
structure Serves (b : Binding) (profile : ProfileBinding) (l : Ledger) (q : Position) : Prop where
  bound : l.binding = b ∧ l.profile = profile
  usable : l.failed = false ∧ l.conn = true
  stored : l.stored.Valid b profile
  ok : q.failed = false
  memory : ∀ r, q.memory = some r → r = l.stored

theorem Serves.call {l : Ledger} (h : Serves b profile l q) {c : UploadState.Call}
    {e : Environment} (hs : e.storage.Sound)
    (hnext : next b profile q c (served c e l).2 = some q') :
    Serves b profile (served c e l).1 q' := by
  have hread : readRecord l e.storage = some l.stored := by
    rw [readRecord, hs.query, h.bound.1, h.bound.2, validateRecordForProfile_iff.2 h.stored]
    rfl
  cases c with
  | canceled | now =>
    obtain rfl := Option.some.inj hnext
    exact h
  | load =>
    have hload : l.load e.storage = (l, some l.stored) := by
      simp [Ledger.load, hs.locked, h.usable.1, h.usable.2, hread]
    simp only [served, hload] at hnext ⊢
    obtain ⟨-, hq'⟩ := Option.ite_none_right_eq_some.1 hnext
    obtain rfl := Option.some.inj hq'
    simp only [Option.any_some, validateRecordForProfile_iff.2 h.stored, if_true]
    exact ⟨h.bound, h.usable, h.stored, rfl, fun r hr => (Option.some.inj hr).symm⟩
  | read | send =>
    obtain ⟨-, hq'⟩ := Option.ite_none_right_eq_some.1 hnext
    obtain rfl := Option.some.inj hq'
    exact { h with }
  | commit r r' =>
    obtain ⟨⟨-, hr, hunstopped, hchange, -⟩, hq'⟩ := Option.ite_none_right_eq_some.1 hnext
    obtain rfl := h.memory r hr
    have hcommit : l.commit e.storage l.stored r' = ({ l with stored := r' }, true) := by
      have hlegal := Change.legal hchange h.stored hunstopped
      have hsame : sameRecord l.stored l.stored = true := sameRecord_iff.2 rfl
      rw [← h.bound.1, ← h.bound.2] at hlegal
      simp [Ledger.commit, transaction, hs.locked, h.usable.1, h.usable.2, hlegal, hs.begin, hread,
        hsame, hs.update, hs.commit]
    simp only [served, hcommit] at hq' ⊢
    obtain rfl := Option.some.inj hq'
    exact ⟨h.bound, h.usable, hchange.valid h.stored hunstopped, rfl,
      fun s hs' => (Option.some.inj hs').symm⟩

/-- **The machine and the ledger agree on what a legal change is.**  On every
    path through `Step`, whatever it is answered, from a machine that holds no
    record or a valid one: every change it commits is one the ledger accepts for
    the binding and profile, and it requires recovery only after a load that
    returned no valid record or a commit that failed.  So over the ledger, as
    long as the storage does not fail, it never requires recovery. -/
theorem step_commits_legal (m : Machine) (hm : m.recovery = false)
    (hrecord : ∀ r, m.record = some r → validateRecordForProfile r m.binding m.profile = true) :
    (∀ answers : List ((c : UploadState.Call) → c.Answer),
      (exec (I := calls) recorded [] m.step answers).1.Legal m.binding m.profile ∧
      ∀ result m', (exec (I := calls) recorded [] m.step answers).2.result = some (result, m') →
        result = .error .recovery ∨ m'.recovery = true →
          (exec (I := calls) recorded [] m.step answers).1.LedgerFailed m.binding m.profile) ∧
    ∀ l : Ledger, l.binding = m.binding → l.profile = m.profile → l.failed = false →
      l.conn = true → validateRecordForProfile l.stored m.binding m.profile = true →
      (∀ r, m.record = some r → r = l.stored) →
      ∀ es : List Environment, (∀ e ∈ es, e.storage.Sound) →
        ∀ result m', (exec (I := calls) served l m.step es).2.result = some (result, m') →
          result ≠ .error .recovery ∧ m'.recovery = false := by
  have hfollows := step_follows m fun _ r hr => validateRecordForProfile_iff.1 (hrecord r hr)
  rw [hm] at hfollows
  constructor
  · intro answers
    have hstart : Traced m.binding m.profile [] ⟨m.record, none, false⟩ :=
      ⟨fun r hr => validateRecordForProfile_iff.1 (hrecord r hr), (fun _ _ _ hm => by simp at hm),
        nofun⟩
    obtain ⟨q, hq, hf⟩ := hfollows.exec (h := recorded) (T := Traced m.binding m.profile) hstart
      answers fun _ _ _ _ _ _ hT hnext => hT.call hnext
    refine ⟨hq.legal, fun result m' hresult hrecovery => hq.failed ?_⟩
    rw [eq_ret_of_result hresult] at hf
    have hreturns : Returns m.binding m.profile q (result, m') := hf
    rcases hrecovery with h | h
    · exact hreturns.recovery.1 h
    · exact hreturns.machine.recovery.symm.trans h
  · intro l hb hprofile hfailed hconn hstored hmemory es hsound result m' hresult
    -- a ledger with sound storage does not fail, so that neither does the machine
    have hstart : Serves m.binding m.profile l ⟨m.record, none, false⟩ :=
      ⟨⟨hb, hprofile⟩, ⟨hfailed, hconn⟩, validateRecordForProfile_iff.1 hstored, rfl, hmemory⟩
    obtain ⟨q, hq, hf⟩ := hfollows.exec (h := served) (T := Serves m.binding m.profile) hstart es
      fun e he _ _ _ _ hT hnext => hT.call (hsound e he) hnext
    rw [eq_ret_of_result hresult] at hf
    have hreturns : Returns m.binding m.profile q (result, m') := hf
    refine ⟨fun h => ?_, hreturns.machine.recovery.trans hq.ok⟩
    exact absurd (hreturns.recovery.1 h) (by simp [hq.ok])

/-! ## Runs of the ledger -/

/-- What a commit can store: what was stored, or a legal successor of it. -/
theorem commit_stored (l : Ledger) (s : Storage) (expected next : Record) :
    (l.commit s expected next).1.stored = l.stored ∨
      (l.commit s expected next).1.stored = next ∧
        validChangeForProfile l.stored next l.binding l.profile = true := by
  by_cases hlegal : validChangeForProfile expected next l.binding l.profile = true
  · obtain ⟨outcome, hdurable, -⟩ := commit_refines l s expected next []
    rw [← hdurable]
    by_cases hsame : l.stored = expected
    · subst hsame
      simp only [Disk.commit, ne_eq, not_true_eq_false, if_false]
      cases outcome with
      | lost => exact Or.inl rfl
      | done | uncertain => exact Or.inr ⟨rfl, hlegal⟩
    · simp only [Disk.commit, ne_eq, hsame, not_false_eq_true, if_true]
      exact Or.inl rfl
  · rw [Bool.not_eq_true] at hlegal
    simp only [Ledger.commit, hlegal, Bool.not_false, if_true]
    split_ifs <;> exact Or.inl rfl

/-- How a ledger goes on: the watermark does not go back, a body keeps its
    number, a valid record is followed by a valid one, and a failed ledger stays
    as it is. -/
structure Ledger.Advances (l l' : Ledger) : Prop where
  identity : l'.binding = l.binding ∧ l'.profile = l.profile
  watermark : l.stored.watermark ≤ l'.stored.watermark
  pending : ∀ p, l'.stored.pending = some p →
    l.stored.watermark < p.sequence ∨ l.stored.pending = some p
  valid : validateRecordForProfile l.stored l.binding l.profile = true →
    validateRecordForProfile l'.stored l.binding l.profile = true
  failed : l.failed = true → l' = l

theorem Ledger.Advances.of_stored {l l' : Ledger}
    (hidentity : l'.binding = l.binding ∧ l'.profile = l.profile)
    (hfailed : l.failed = true → l' = l) (hstored : l'.stored = l.stored) : l.Advances l' where
  identity := hidentity
  watermark := by rw [hstored]; exact Int64.le_refl _
  pending p hp := Or.inr (hstored ▸ hp)
  valid hv := by rwa [hstored]
  failed := hfailed

theorem Ledger.Advances.trans {l₁ l₂ l₃ : Ledger} (h : l₁.Advances l₂) (h' : l₂.Advances l₃) :
    l₁.Advances l₃ where
  identity := ⟨h'.identity.1.trans h.identity.1, h'.identity.2.trans h.identity.2⟩
  watermark := Int64.le_trans h.watermark h'.watermark
  pending p hp := by
    rcases h'.pending p hp with hlt | hp
    · exact Or.inl (Int64.lt_of_le_of_lt h.watermark hlt)
    · exact h.pending p hp
  valid hv := by
    have hv' := h'.valid
    rw [h.identity.1, h.identity.2] at hv'
    exact hv' (h.valid hv)
  failed hf := by
    obtain rfl := h.failed hf
    exact h'.failed hf

theorem commit_advances (l : Ledger) (s : Storage) (expected next : Record) :
    l.Advances (l.commit s expected next).1 := by
  have hidentity : (l.commit s expected next).1.binding = l.binding ∧
      (l.commit s expected next).1.profile = l.profile := by
    rw [Ledger.commit]
    split_ifs <;> exact ⟨rfl, rfl⟩
  have hfailed : l.failed = true → (l.commit s expected next).1 = l := by
    intro hf
    simp [Ledger.commit, hf]
  rcases commit_stored l s expected next with hsame | ⟨hnext, hlegal⟩
  · exact .of_stored hidentity hfailed hsame
  simp only [validChangeForProfile, Bool.and_eq_true, decide_eq_true_eq] at hlegal
  obtain ⟨⟨⟨-, hvalid⟩, hmark⟩, hpending⟩ := hlegal
  refine ⟨hidentity, by rwa [hnext], fun p hp => ?_, fun _ => by rwa [hnext], hfailed⟩
  rw [hnext] at hp
  rw [hp] at hpending
  rcases Bool.or_eq_true _ _ ▸ hpending with hlt | hsame
  · exact Or.inl (of_decide_eq_true hlt)
  · exact Or.inr (samePending_iff.1 hsame)

/-- **No number is given to two bodies.**  Over any calls, in any order and
    whatever the storage does, a body that is stored in the end has a number
    above the watermark of the start or was stored there already. -/
theorem ledger_advances (l : Ledger) (cs : List (UploadState.Call × Environment)) :
    l.Advances (cs.foldl (fun l x => (served x.1 x.2 l).1) l) := by
  induction cs generalizing l with
  | nil => exact .of_stored ⟨rfl, rfl⟩ (fun _ => rfl) rfl
  | cons x cs ih =>
    refine Ledger.Advances.trans ?_ (ih _)
    obtain ⟨c, e⟩ := x
    cases c with
    | commit expected next => exact commit_advances l e.storage expected next
    | load =>
      refine .of_stored ?_ (fun hf => ?_) (load_refines l e.storage).1
      · simp only [served, Ledger.load]
        split_ifs <;> [exact ⟨rfl, rfl⟩; (split <;> exact ⟨rfl, rfl⟩)]
      · simp [served, Ledger.load, hf]
    | _ => exact .of_stored ⟨rfl, rfl⟩ (fun _ => rfl) rfl

end

def sampleLedger : Ledger :=
  { binding := sampleBinding, profile := sampleProfile, stored := sampleRecord }

def sampleEnvironment : Environment :=
  { now := 63000000001 * second, body := some (ascii "body"), reply := sampleReply }

/-- A step that numbers, sends and acknowledges a body. -/
def sampleStep : Ledger × Prog calls (Result × Machine) :=
  exec (I := calls) (@served plainDigest plainProjection) sampleLedger
    (@Machine.step plainDigest plainProjection (.fresh sampleBinding sampleProfile))
    (List.replicate 15 sampleEnvironment)

theorem sampleStep_acknowledged :
    sampleStep.2.result.map Prod.fst = some (.ok .acknowledged) ∧
    ∀ result m, sampleStep.2.result = some (result, m) →
      result ≠ .error .recovery ∧ m.recovery = false := by
  refine ⟨by decide, ?_⟩
  refine (@step_commits_legal plainDigest plainProjection (.fresh sampleBinding sampleProfile) rfl
    (fun r hr => (nomatch hr))).2 sampleLedger rfl rfl rfl rfl sampleRecord_valid
    (fun r hr => (nomatch hr)) _ fun e he => ?_
  rw [List.eq_of_mem_replicate he]
  exact ⟨rfl, rfl, rfl, rfl, rfl⟩

end UploadLedger

end HomeLab
