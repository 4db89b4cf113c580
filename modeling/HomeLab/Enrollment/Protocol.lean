/-
  The order of an enrollment.

  The phases of a process: it has not created the lock file; it has, and knows
  how far its enrollment has come (`own`); or one of its steps failed and it
  changes nothing any more (`spent`).  A process that opens the directory finds
  it complete, reads the credential and loads the ledger.

  Whatever they are answered, enrollments and openings make their calls in this
  order (`enroll_follows`, `openReady_follows`).
-/
import HomeLab.Enrollment.World

namespace HomeLab

namespace Enrollment

open Prog UploadState

/-! ## Phases -/

/-- The stage file, as the process that owns the directory knows it. -/
inductive Stage where
  | none
  | empty
  | written (r : EnrollmentRecord)
  | synced (r : EnrollmentRecord)

inductive LedgerStage where
  | absent
  | made (locked : Bool)
  | provisioned (profile : ProfileBinding)

/-- How far an enrollment has come. -/
inductive Progress where
  | locked
  /-- The `ATTEMPTED` record is in place, and perhaps durable under its name. -/
  | begun (b : Binding) (named : Bool)
  /-- The exchange was accepted and gave the secret. -/
  | exchanged (b : Binding) (secret : Bytes)
  /-- The credential is in place. -/
  | stored (b : Binding) (secret : Bytes) (l : LedgerStage)
  | done (b : Binding) (secret : Bytes) (profile : ProfileBinding)

inductive Phase where
  | outside
  | own (p : Progress) (stage : Stage)
  | spent
  | found
  | saw (r : EnrollmentRecord)
  | loaded (r : EnrollmentRecord) (l : Record)

/-- The process created the lock file. -/
def Phase.Mine : Phase → Prop
  | own _ _ | spent => True
  | _ => False

/-- The directory has been synced. -/
def Progress.sync : Progress → Progress
  | begun b _ => begun b true
  | p => p

/-- The record has been renamed into place. -/
def Progress.publish : Progress → Name → EnrollmentRecord → Option Progress
  | locked, .attempt, ⟨.attempted, b, []⟩ => some (begun b false)
  | exchanged b secret, .credential, ⟨.credential, b', secret'⟩ =>
    if b' = b ∧ secret' = secret then some (stored b secret .absent) else none
  | stored b secret (.provisioned profile), .ready, ⟨.ready, b', []⟩ =>
    if b' = b then some (done b secret profile) else none
  | _, _, _ => none

theorem publish_attempt (b : Binding) :
    Progress.locked.publish .attempt ⟨.attempted, b, []⟩ = some (.begun b false) := rfl

theorem publish_credential (b : Binding) (secret : Bytes) :
    (Progress.exchanged b secret).publish .credential ⟨.credential, b, secret⟩ =
      some (.stored b secret .absent) := by
  simp [Progress.publish]

theorem publish_ready (b : Binding) (secret : Bytes) (profile : ProfileBinding) :
    (Progress.stored b secret (.provisioned profile)).publish .ready ⟨.ready, b, []⟩ =
      some (.done b secret profile) := by
  simp [Progress.publish]

/-- The names of a directory that is ready. -/
def complete : List Name := [.lock, .attempt, .credential, .ready, .ledger]

/-- The calls that change no record, no ledger and no exchange. -/
def harmless : Call → Bool
  | .create _ | .write _ | .rename _ | .exchange _ | .mkdirLedger | .ledgerLock true
  | .createDatabase | .insert _ | .syncFile .stage => false
  | _ => true

/-- What a harmless call teaches. -/
def observe : Phase → (c : Call) → c.Answer → Phase
  | .outside, .entries, some names => if names = complete then .found else .outside
  | .found, .read .credential, some r => .saw r
  | .saw r, .readRecord, some l => .loaded r l
  | .loaded r _, .readRecord, some l => .loaded r l
  | .own p stage, .syncDirectory, true => .own p.sync stage
  | q, _, _ => q

/-- The process goes on if the call succeeded. -/
def Phase.onward (q : Phase) (ok : Bool) : Phase := if ok then q else .spent

/-- How the other calls go on; `none` if the phase does not allow them. -/
def act : Phase → (c : Call) → c.Answer → Option Phase
  | .outside, .create .lock, ok => some (if ok then .own .locked .none else .outside)
  | .own p .none, .create .stage, ok => some ((Phase.own p .empty).onward ok)
  | .own p .empty, .write r, ok => some ((Phase.own p (.written r)).onward ok)
  | .own p (.written r), .syncFile .stage, ok => some ((Phase.own p (.synced r)).onward ok)
  | .own p (.synced r), .rename n, ok =>
    (p.publish n r).map fun p' => (Phase.own p' .none).onward ok
  | .own (.begun b true) .none, .exchange q, x =>
    if q.binding = b then
      match accepted b x with
      | .ok secret => some (.own (.exchanged b secret) .none)
      | .error _ => some .spent
    else none
  | .own (.stored b secret .absent) .none, .mkdirLedger, ok =>
    some ((Phase.own (.stored b secret (.made false)) .none).onward ok)
  | .own (.stored b secret (.made false)) .none, .ledgerLock true, ok =>
    some ((Phase.own (.stored b secret (.made true)) .none).onward ok)
  | .own (.stored b secret (.made true)) .none, .createDatabase, ok =>
    some ((Phase.own (.stored b secret (.made true)) .none).onward ok)
  | .own (.stored b secret (.made true)) .none, .insert r, ok =>
    if r = freshRecord b r.profile ∧ validBinding b = true ∧ validProfile r.profile = true then
      some ((Phase.own (.stored b secret (.provisioned r.profile)) .none).onward ok)
    else none
  | _, _, _ => none

def next (q : Phase) (c : Call) (x : c.Answer) : Option Phase :=
  if harmless c then some (observe q c x) else act q c x

/-- The calls of an owner that change something, and how they go on. -/
inductive Acts : Phase → (c : Call) → c.Answer → Phase → Prop
  | lock (ok : Bool) :
      Acts .outside (.create .lock) ok (if ok then .own .locked .none else .outside)
  | create (p : Progress) (ok : Bool) :
      Acts (.own p .none) (.create .stage) ok ((Phase.own p .empty).onward ok)
  | write (p : Progress) (r : EnrollmentRecord) (ok : Bool) :
      Acts (.own p .empty) (.write r) ok ((Phase.own p (.written r)).onward ok)
  | sync (p : Progress) (r : EnrollmentRecord) (ok : Bool) :
      Acts (.own p (.written r)) (.syncFile .stage) ok ((Phase.own p (.synced r)).onward ok)
  | rename (p p' : Progress) (n : Name) (r : EnrollmentRecord) (ok : Bool)
      (publish : p.publish n r = some p') :
      Acts (.own p (.synced r)) (.rename n) ok ((Phase.own p' .none).onward ok)
  | accept (b : Binding) (grant secret : Bytes) (x : Option ExchangeResponse)
      (accept : accepted b x = .ok secret) :
      Acts (.own (.begun b true) .none) (.exchange ⟨b, grant⟩) x (.own (.exchanged b secret) .none)
  | reject (b : Binding) (grant : Bytes) (x : Option ExchangeResponse) :
      Acts (.own (.begun b true) .none) (.exchange ⟨b, grant⟩) x .spent
  | mkdir (b : Binding) (secret : Bytes) (ok : Bool) :
      Acts (.own (.stored b secret .absent) .none) .mkdirLedger ok
        ((Phase.own (.stored b secret (.made false)) .none).onward ok)
  | ledgerLock (b : Binding) (secret : Bytes) (ok : Bool) :
      Acts (.own (.stored b secret (.made false)) .none) (.ledgerLock true) ok
        ((Phase.own (.stored b secret (.made true)) .none).onward ok)
  | database (b : Binding) (secret : Bytes) (ok : Bool) :
      Acts (.own (.stored b secret (.made true)) .none) .createDatabase ok
        ((Phase.own (.stored b secret (.made true)) .none).onward ok)
  | insert (b : Binding) (secret : Bytes) (profile : ProfileBinding) (ok : Bool)
      (valid : validBinding b = true ∧ validProfile profile = true) :
      Acts (.own (.stored b secret (.made true)) .none) (.insert (freshRecord b profile)) ok
        ((Phase.own (.stored b secret (.provisioned profile)) .none).onward ok)

variable {c : Call} {q t : Phase} {p p' : Progress} {b : Binding} {r : EnrollmentRecord} {n : Name}
  {state : RecordState} {s : Setup}

theorem acts_of_act {q' : Phase} {x : c.Answer} (h : act q c x = some q') :
    Acts q c x q' := by
  unfold act at h
  split at h
  · obtain rfl := Option.some.inj h
    exact .lock _
  · obtain rfl := Option.some.inj h
    exact .create _ _
  · obtain rfl := Option.some.inj h
    exact .write _ _ _
  · obtain rfl := Option.some.inj h
    exact .sync _ _ _
  · obtain ⟨p', hp, rfl⟩ := Option.map_eq_some_iff.1 h
    exact .rename _ _ _ _ _ hp
  · rename_i b request x
    obtain ⟨hb, h⟩ := Option.ite_none_right_eq_some.1 h
    obtain ⟨b', grant⟩ := request
    obtain rfl : b' = b := hb
    cases haccepted : accepted b' x with
    | ok secret =>
      rw [haccepted] at h
      obtain rfl := Option.some.inj h
      exact .accept _ _ _ _ haccepted
    | error o =>
      rw [haccepted] at h
      obtain rfl := Option.some.inj h
      exact .reject _ _ _
  · obtain rfl := Option.some.inj h
    exact .mkdir _ _ _
  · obtain rfl := Option.some.inj h
    exact .ledgerLock _ _ _
  · obtain rfl := Option.some.inj h
    exact .database _ _ _
  · rename_i r ok
    obtain ⟨⟨hr, hvalid⟩, h⟩ := Option.ite_none_right_eq_some.1 h
    obtain rfl := Option.some.inj h
    rw [hr]
    exact .insert _ _ _ _ hvalid
  · cases h

/-- What a process returns says about its phase. -/
def Returns [Sha256] (q : Phase) : Finish → Prop
  | .refused => True
  | .failed _ | .ended _ => q.Mine
  | .enrolled s => s.principals.profile s.binding = some s.profile ∧
    ∃ secret, q = .own (.done s.binding secret s.profile) .none
  | .opened b profile secret l =>
    q = .loaded ⟨.credential, b, secret⟩ l ∧ l.binding = b ∧ l.profile = profile

/-! ## Programs that stay within phases -/

theorem next_harmless {x : c.Answer} (h : harmless c = true) :
    next q c x = some (observe q c x) := if_pos h

/-- The program makes harmless calls only, and they do not lead out of the phases. -/
def Within {α : Type} (P : Phase → Prop) (p : Prog calls α) : Prop :=
  ∀ q, P q → Follows next (fun q' _ => P q') q p

/-- The harmless calls but a sync of the directory. -/
def quiet : Call → Bool
  | .syncDirectory => false
  | c => harmless c

theorem harmless_of_quiet (h : quiet c = true) : harmless c = true := by
  cases c <;> first | exact h | rfl

/-- These calls do not lead out of the phases. -/
def Calm (P : Phase → Prop) : Prop :=
  ∀ (q : Phase) (c : Call) (x : c.Answer), quiet c = true → P q → P (observe q c x)

section
variable {α β : Type} {P : Phase → Prop}

theorem within_return (a : α) : Within P (pure a : Prog calls α) := fun _ hq => hq

theorem within_query (hP : Calm P) (h : quiet c = true) : Within P (query c) :=
  fun q hq x => ⟨observe q c x, next_harmless (harmless_of_quiet h), hP q c x h hq⟩

theorem Within.bind {p : Prog calls α} {f : α → Prog calls β} (hp : Within P p)
    (hf : ∀ a, Within P (f a)) : Within P (p >>= f) :=
  fun q hq => (hp q hq).bind fun q' a hq' => hf a q' hq'

theorem within_steps {ps : List (Prog calls Bool)} (h : ∀ p ∈ ps, Within P p) :
    Within P (steps ps) := by
  induction ps with
  | nil => exact within_return true
  | cons p ps ih =>
    refine Within.bind (h p (List.mem_cons_self ..)) fun ok => ?_
    cases ok with
    | true => exact ih fun p' hp' => h p' (List.mem_cons_of_mem _ hp')
    | false => exact within_return false

theorem listed_within (hP : Calm P) (names : List Name) : Within P (listed names) := by
  refine Within.bind (within_query hP rfl) fun found => ?_
  cases found <;> exact within_return _

theorem check_within (hP : Calm P) (s : Setup) (b : Binding) (step : ℕ) :
    Within P (check s b step) := by
  refine Within.bind (within_query hP rfl) fun ok => ?_
  split
  · exact within_return false
  · exact listed_within hP _

theorem readAs_within (hP : Calm P) (b : Binding) (n : Name) (state : RecordState) :
    Within P (readAs b n state) := by
  refine Within.bind (within_query hP rfl) fun r => ?_
  cases r <;> exact within_return _

theorem readable_within (hP : Calm P) (b : Binding) (n : Name) (state : RecordState) :
    Within P (readable b n state) :=
  Within.bind (readAs_within hP b n state) fun _ => within_return _

section
variable [Sha256] [Projection]

theorem loadLedger_within (hP : Calm P) (b : Binding) (profile : ProfileBinding) :
    Within P (loadLedger b profile) := by
  refine Within.bind (within_query hP rfl) fun r => ?_
  cases r <;> exact within_return _

theorem loadable_within (hP : Calm P) (b : Binding) (profile : ProfileBinding) :
    Within P (loadable b profile) :=
  Within.bind (loadLedger_within hP b profile) fun _ => within_return _

theorem loadsFresh_within (hP : Calm P) (b : Binding) (profile : ProfileBinding) :
    Within P (loadsFresh b profile) :=
  Within.bind (loadLedger_within hP b profile) fun _ =>
    Within.bind (within_query hP rfl) fun _ => within_return _

theorem openLedger_within (hP : Calm P) (b : Binding) (profile : ProfileBinding) :
    Within P (openLedger b profile false) := by
  refine Within.bind (within_query hP rfl) fun ok => ?_
  split
  · exact within_return false
  refine Within.bind (within_query hP rfl) fun locked => ?_
  split
  · exact within_return false
  refine Within.bind (within_steps ?_) fun opened => ?_
  · simp only [Bool.false_eq_true, if_false, List.cons_append, List.nil_append, List.mem_cons,
      List.not_mem_nil, or_false, forall_eq_or_imp, forall_eq]
    exact ⟨within_query hP rfl, within_query hP rfl, within_query hP rfl,
      within_query hP rfl, within_query hP rfl, loadable_within hP b profile⟩
  · split
    · exact Within.bind (within_query hP rfl) fun _ => within_return false
    · exact within_return true

end

end

/-! ## The steps of the owner -/

/-- The steps succeed in phase `t`, or the process is still the owner. -/
def Reaches (t : Phase) (q : Phase) (ok : Bool) : Prop := if ok then q = t else q.Mine

/-- The phase of an owner with no stage file. -/
def At (p : Progress) (q : Phase) : Prop := q = .own p .none

theorem calm_at (p : Progress) : Calm (At p) := by
  rintro _ c x hc rfl
  cases c <;> first | rfl | cases hc

theorem reaches_true (h : q = t) : Reaches t q true := h

theorem reaches_false (h : q.Mine) : Reaches t q false := h

theorem reaches_onward (p : Progress) (stage : Stage) (ok : Bool) :
    Reaches (.own p stage) ((Phase.own p stage).onward ok) ok := by
  cases ok
  · exact reaches_false trivial
  · exact reaches_true rfl

theorem Within.reaches {m : Prog calls Bool} (h : Within (At p) m) :
    Follows next (Reaches (.own p .none)) (.own p .none) m := by
  refine (h _ rfl).mono fun q ok hq => ?_
  rw [At] at hq
  subst hq
  cases ok
  · exact reaches_false trivial
  · exact reaches_true rfl

theorem reaches_steps_nil (t : Phase) : Follows next (Reaches t) t (steps []) := reaches_true rfl

theorem reaches_steps_cons {m : Phase} {p : Prog calls Bool} {ps : List (Prog calls Bool)}
    (hp : Follows next (Reaches m) q p) (hps : Follows next (Reaches t) m (steps ps)) :
    Follows next (Reaches t) q (steps (p :: ps)) := by
  refine hp.bind fun q' ok hq' => ?_
  cases ok with
  | true =>
    have hm : q' = m := hq'
    subst hm
    exact hps
  | false => exact reaches_false hq'

theorem next_rename (p : Progress) (n : Name) (r : EnrollmentRecord) (ok : Bool) :
    next (.own p (.synced r)) (.rename n) ok =
      (p.publish n r).map fun p' => (Phase.own p' .none).onward ok := rfl

theorem next_insert (secret : Bytes) {profile : ProfileBinding}
    (h : validBinding b = true ∧ validProfile profile = true) (ok : Bool) :
    next (.own (.stored b secret (.made true)) .none) (.insert (freshRecord b profile)) ok =
      some ((Phase.own (.stored b secret (.provisioned profile)) .none).onward ok) := by
  simp [next, harmless, act, freshRecord, h]

/-- A record that may be published is published. -/
theorem publish_follows (h : p.publish n r = some p') :
    Follows next (Reaches (.own p'.sync .none)) (.own p .none) (publish n r) := by
  refine reaches_steps_cons (Within.reaches (within_query (calm_at p) rfl)) ?_
  refine reaches_steps_cons (m := .own p .empty)
    (fun ok => ⟨_, rfl, reaches_onward p .empty ok⟩) ?_
  refine reaches_steps_cons (m := .own p (.written r))
    (fun ok => ⟨_, rfl, reaches_onward p (.written r) ok⟩) ?_
  refine reaches_steps_cons (m := .own p (.synced r))
    (fun ok => ⟨_, rfl, reaches_onward p (.synced r) ok⟩) ?_
  refine reaches_steps_cons (m := .own p (.synced r))
    (fun ok => ⟨_, rfl, by cases ok <;> first | exact reaches_false trivial | exact reaches_true rfl⟩) ?_
  refine reaches_steps_cons (m := .own p' .none) (fun ok => ⟨_, ?_, reaches_onward p' .none ok⟩) ?_
  · rw [next_rename, h]
    rfl
  refine reaches_steps_cons (fun ok => ⟨_, rfl, ?_⟩) (reaches_steps_nil _)
  cases ok
  · exact reaches_false trivial
  · exact reaches_true rfl

/-- A step of the enrollment succeeds with its setup at `p`, or the process is still the owner. -/
def Gives (p : Progress) (result : Setup) (q : Phase) : Option Setup → Prop
  | some s => At p q ∧ s = result
  | none => q.Mine

theorem mine_of_at (h : At p q) : q.Mine := by
  rw [At] at h
  subst h
  trivial

theorem write_follows {secret : Bytes} (h : p.publish n ⟨state, s.binding, secret⟩ = some p') :
    Follows next (Gives p'.sync { s with step := s.step + 1 }) (.own p .none)
      (s.write n state secret) := by
  have hsteps : Follows next (Reaches (.own p'.sync .none)) (.own p .none)
      (steps [publish n ⟨state, s.binding, secret⟩, query .alive]) :=
    reaches_steps_cons (publish_follows h)
      (reaches_steps_cons (Within.reaches (within_query (calm_at _) rfl)) (reaches_steps_nil _))
  refine hsteps.bind fun q ok hq => ?_
  cases ok with
  | true => exact ⟨hq, rfl⟩
  | false => exact hq

/-- What a step of the enrollment does to the setup. -/
def Setup.advanced (s : Setup) : Setup := { s with step := s.step + 1 }

theorem begin_follows [Sha256] (s : Setup) (b : Binding) :
    Follows next (fun q o => match o with
      | some s' => At (.begun b true) q ∧ s'.binding = b ∧ s'.principals.profile b = some s'.profile
      | none => q.Mine) (.own .locked .none) (s.begin b) := by
  refine (check_within (calm_at _) s b 0 _ rfl).bind fun q ok hq => ?_
  split
  · exact mine_of_at hq
  rw [At] at hq
  subst hq
  split
  · exact trivial
  · rename_i profile hprofile
    refine (write_follows (publish_attempt b)).mono fun q o hq => ?_
    cases o with
    | none => exact hq
    | some s' =>
      obtain ⟨hq, rfl⟩ := hq
      exact ⟨hq, rfl, hprofile⟩

theorem create_follows (s : Setup) (secret : Bytes) :
    Follows next (Gives (.stored s.binding secret .absent) s.advanced)
      (.own (.exchanged s.binding secret) .none) (s.create s.binding secret) := by
  refine (check_within (calm_at _) s s.binding 1 _ rfl).bind fun q ok hq => ?_
  split
  · exact mine_of_at hq
  split
  · exact mine_of_at hq
  refine (readable_within (calm_at _) s.binding .attempt .attempted q hq).bind fun q' ok hq' => ?_
  split
  · exact mine_of_at hq'
  rw [At] at hq'
  subst hq'
  exact write_follows (publish_credential s.binding secret)

theorem stepThen_follows [Sha256] {m : Prog calls (Option Setup)} {k : Setup → Prog calls Finish}
    (hm : Follows next (Gives p' s) (.own p .none) m)
    (hk : Follows next Returns (.own p' .none) (k s)) :
    Follows next Returns (.own p .none) (stepThen m k) := by
  refine hm.bind fun q o hq => ?_
  cases o with
  | none => exact hq
  | some s' =>
    obtain ⟨hq, rfl⟩ := hq
    refine (within_query (calm_at p') (c := .alive) rfl q hq).bind fun q' ok hq' => ?_
    rw [At] at hq'
    subst hq'
    cases ok with
    | true => exact hk
    | false => exact trivial

theorem fixedPreAttemptError_follows [Sha256] (hq : q.Mine) (e : RunError) :
    Follows next Returns q (fixedPreAttemptError e) := by
  intro ok
  refine ⟨q, ?_, hq⟩
  rw [next_harmless rfl]
  cases q <;> rfl

theorem follows_close {α : Type} {post : Phase → α → Prop} {a : α} (h : post q a) :
    Follows next post q (do let _ ← query .close; return a) := by
  intro ok
  refine ⟨q, ?_, h⟩
  rw [next_harmless rfl]
  cases q <;> rfl

/-- An exchange that is accepted gives the secret; after any other the process stops. -/
theorem exchange_follows (b : Binding) (grant : Bytes) :
    Follows next (fun q x => match accepted b x with
      | .ok secret => At (.exchanged b secret) q
      | .error _ => q.Mine) (.own (.begun b true) .none) (query (.exchange ⟨b, grant⟩)) := by
  intro x
  cases h : accepted b x with
  | ok secret =>
    refine ⟨.own (.exchanged b secret) .none, ?_, ?_⟩
    · simp [next, harmless, act, h]
    · simp [Follows, h, At]
  | error o =>
    refine ⟨.spent, ?_, ?_⟩
    · simp [next, harmless, act, h]
    · simp [Follows, h, Phase.Mine]

/-! ## Opening the directory -/

/-- The phases in which the records of the directory have not been read. -/
def Opening (q : Phase) : Prop := q = .outside ∨ q = .found

/-- The phases in which the credential has been read. -/
def Reading (r : EnrollmentRecord) (q : Phase) : Prop := q = .saw r ∨ ∃ l, q = .loaded r l

theorem calm_reading (r : EnrollmentRecord) : Calm (Reading r) := by
  rintro _ c x hc (rfl | ⟨l, rfl⟩)
  · cases c <;> first | exact Or.inl rfl | skip
    cases x with
    | none => exact Or.inl rfl
    | some l => exact Or.inr ⟨l, rfl⟩
  · cases c <;> first | exact Or.inr ⟨l, rfl⟩ | skip
    cases x with
    | none => exact Or.inr ⟨l, rfl⟩
    | some l' => exact Or.inr ⟨l', rfl⟩

/-- The steps of `open` in an empty directory. -/
theorem createLock_follows :
    Follows next (fun q ok => ok = true → q = .own .locked .none) .outside
      (steps [query (.create .lock), query .flock, query .checkRoot, query .alive,
        query (.syncFile .lock), query .syncDirectory]) := by
  intro created
  cases created with
  | false => exact ⟨.outside, rfl, nofun⟩
  | true =>
    refine ⟨.own .locked .none, rfl, ?_⟩
    have hsteps : Follows next (Reaches (.own .locked .none)) (.own .locked .none)
        (steps [query .flock, query .checkRoot, query .alive, query (.syncFile .lock),
          query .syncDirectory]) := by
      refine reaches_steps_cons (Within.reaches (within_query (calm_at _) rfl)) ?_
      refine reaches_steps_cons (Within.reaches (within_query (calm_at _) rfl)) ?_
      refine reaches_steps_cons (Within.reaches (within_query (calm_at _) rfl)) ?_
      refine reaches_steps_cons (Within.reaches (within_query (calm_at _) rfl)) ?_
      refine reaches_steps_cons (fun ok => ⟨_, rfl, ?_⟩) (reaches_steps_nil _)
      cases ok
      · exact reaches_false trivial
      · exact reaches_true rfl
    refine hsteps.mono fun q ok hq hok => ?_
    subst hok
    exact hq

theorem openNew_follows :
    Follows next (fun q ok => ok = true → q = .own .locked .none) .outside (openDirectory true) := by
  have halive : Follows next (fun q _ => q = .outside) .outside (query .alive) :=
    fun _ => ⟨.outside, rfl, rfl⟩
  have hprepare : Follows next (fun q _ => q = .outside) .outside (query .prepare) :=
    fun _ => ⟨.outside, rfl, rfl⟩
  have hentries : Follows next (fun q names => names = some [] → q = .outside) .outside
      (query .entries) := by
    refine fun names => ⟨_, next_harmless rfl, ?_⟩
    rintro rfl
    rfl
  refine halive.bind fun q ok hq => ?_
  subst hq
  split
  · exact nofun
  refine hprepare.bind fun q ok hq => ?_
  subst hq
  split
  · exact nofun
  refine hentries.bind fun q names hq => ?_
  split
  · exact nofun
  rename_i names
  split
  · exact nofun
  · rename_i hempty
    have hnames : names = [] := by simpa using hempty
    subst hnames
    obtain rfl := hq rfl
    exact createLock_follows

theorem opening_query (h : quiet c = true) (hc : c ≠ .read .credential) :
    Within Opening (query c) := by
  rintro q hq x
  refine ⟨observe q c x, next_harmless (harmless_of_quiet h), ?_⟩
  rcases hq with rfl | rfl
  · cases c <;> first | exact Or.inl rfl | skip
    cases x with
    | none => exact Or.inl rfl
    | some names =>
      show Opening (if names = complete then .found else .outside)
      split
      · exact Or.inr rfl
      · exact Or.inl rfl
  · cases c with
    | read n => cases n <;> first | exact Or.inr rfl | exact absurd rfl hc
    | _ => exact Or.inr rfl

theorem openExisting_within : Within Opening (openDirectory false) := by
  refine Within.bind (opening_query rfl nofun) fun alive => ?_
  split
  · exact within_return false
  refine Within.bind (opening_query rfl nofun) fun prepared => ?_
  split
  · exact within_return false
  refine Within.bind (opening_query rfl nofun) fun names => ?_
  split
  · exact within_return false
  split
  · exact within_return false
  refine within_steps ?_
  simp only [Bool.false_eq_true, if_false, List.mem_cons, List.not_mem_nil, or_false,
    forall_eq_or_imp, forall_eq]
  exact ⟨opening_query rfl nofun, opening_query rfl nofun, opening_query rfl nofun,
    opening_query rfl nofun⟩

/-- The listing shows whether the directory is complete. -/
theorem listed_follows (hq : Opening q) :
    Follows next (fun q ok => ok = true → q = .found) q
      (listed [.lock, .attempt, .credential, .ready, .ledger]) := by
  intro names
  refine ⟨_, next_harmless rfl, ?_⟩
  cases names with
  | none => exact nofun
  | some names =>
    intro hnames
    have hnames' : names = complete := of_decide_eq_true hnames
    rcases hq with rfl | rfl
    · exact if_pos hnames'
    · rfl

/-- Reading a record other than the credential teaches nothing. -/
theorem readable_found (hn : n ≠ .credential) :
    Follows next (fun q _ => q = .found) .found (readable b n state) := by
  have hquery : Follows next (fun q _ => q = .found) .found (query (.read n)) := by
    refine fun x => ⟨.found, ?_, rfl⟩
    rw [next_harmless rfl]
    cases n <;> first | rfl | exact absurd rfl hn
  refine Follows.bind (Follows.bind hquery fun q r hq => ?_) fun q r hq => hq
  cases r <;> exact hq

/-- The records are read only if all of them are there. -/
theorem found_follows (hq : Opening q) (b : Binding) :
    Follows next (fun q ok => ok = true → q = .found) q
      (steps [listed [.lock, .attempt, .credential, .ready, .ledger],
        readable b .attempt .attempted, readable b .ready .ready]) := by
  refine (listed_follows hq).bind fun q ok hq => ?_
  cases ok with
  | false => exact nofun
  | true =>
    obtain rfl := hq rfl
    refine (readable_found (n := .attempt) nofun).bind fun q ok hq => ?_
    cases ok with
    | false => exact nofun
    | true =>
      subst hq
      refine (readable_found (n := .ready) nofun).bind fun q ok hq => ?_
      cases ok with
      | false => exact nofun
      | true => exact fun _ => hq

theorem eq_of_decode (h : decode r b state = true) : r = ⟨state, b, r.secret⟩ := by
  simp only [decode, Bool.and_eq_true, decide_eq_true_eq] at h
  obtain ⟨⟨⟨-, hstate⟩, hb⟩, -⟩ := h
  rw [← hstate, ← hb]

theorem readCredential_follows (b : Binding) :
    Follows next (fun q r => ∀ r', r = some r' →
      ∃ secret, r' = ⟨.credential, b, secret⟩ ∧ q = .saw ⟨.credential, b, secret⟩) .found
      (readAs b .credential .credential) := by
  intro x
  refine ⟨_, next_harmless rfl, ?_⟩
  cases x with
  | none => exact nofun
  | some r =>
    intro r' hr
    obtain ⟨hdecode, hr'⟩ := Option.ite_none_right_eq_some.1 hr
    obtain rfl := Option.some.inj hr'
    exact ⟨r.secret, eq_of_decode hdecode, congrArg Phase.saw (eq_of_decode hdecode)⟩

theorem loadLedger_follows [Sha256] [Projection] (hq : Reading r q) (profile : ProfileBinding) :
    Follows next (fun q l => ∀ l', l = some l' → q = .loaded r l' ∧ l'.Valid b profile) q
      (loadLedger b profile) := by
  intro x
  refine ⟨_, next_harmless rfl, ?_⟩
  cases x with
  | none => exact nofun
  | some l =>
    intro l' hl
    obtain ⟨hvalid, hl'⟩ := Option.ite_none_right_eq_some.1 hl
    obtain rfl := Option.some.inj hl'
    refine ⟨?_, validateRecordForProfile_iff.1 hvalid⟩
    rcases hq with rfl | ⟨l', rfl⟩ <;> rfl

theorem steps_loaded (r : EnrollmentRecord) (l : Record) :
    Follows next (fun q _ => q = .loaded r l) (.loaded r l)
      (steps [query .syncLedger, query .syncDirectory, query .checkRoot, query .alive]) := by
  have hquery {c : Call} (h : harmless c = true) (hc : c ≠ .readRecord) :
      Follows next (fun q _ => q = .loaded r l) (.loaded r l) (query c) := by
    refine fun x => ⟨.loaded r l, ?_, rfl⟩
    rw [next_harmless h]
    cases c <;> first | rfl | exact absurd rfl hc
  refine (hquery (c := .syncLedger) rfl nofun).bind fun q ok hq => ?_
  subst hq
  cases ok with
  | false => rfl
  | true =>
    refine (hquery (c := .syncDirectory) rfl nofun).bind fun q ok hq => ?_
    subst hq
    cases ok with
    | false => rfl
    | true =>
      refine (hquery (c := .checkRoot) rfl nofun).bind fun q ok hq => ?_
      subst hq
      cases ok with
      | false => rfl
      | true =>
        refine (hquery (c := .alive) rfl nofun).bind fun q ok hq => ?_
        cases ok <;> exact hq

section
variable [Sha256] [Projection]

/-- The ledger of an enrollment is created and filled. -/
theorem openLedger_follows (b : Binding) (secret : Bytes) (profile : ProfileBinding) :
    Follows next (Reaches (.own (.stored b secret (.provisioned profile)) .none))
      (.own (.stored b secret (.made false)) .none) (openLedger b profile true) := by
  have hquery {p : Progress} {c : Call} (h : quiet c = true) : Within (At p) (query c) :=
    within_query (calm_at p) h
  refine ((hquery (p := .stored b secret (.made false)) (c := .alive) rfl) _ rfl).bind
    fun q ok hq => ?_
  rw [At] at hq
  subst hq
  split
  · exact reaches_false trivial
  rename_i hrecord
  have hvalid : validBinding b = true ∧ validProfile profile = true := by
    simp only [Bool.or_eq_true, Bool.not_eq_true', not_or, Bool.not_eq_false] at hrecord
    exact (validateRecordForProfile_iff.1 hrecord.2).expected
  intro locked
  refine ⟨_, rfl, ?_⟩
  cases locked with
  | false => exact reaches_false trivial
  | true =>
    have hsteps : Follows next (Reaches (.own (.stored b secret (.provisioned profile)) .none))
        (.own (.stored b secret (.made true)) .none)
        (steps [query .ledgerFresh, query .createDatabase, query (.checkFiles profile.kind),
          query (.configure profile.kind), query (.insert (freshRecord b profile)),
          query .syncLedger, query (.verifySchema profile.kind), loadable b profile]) := by
      refine reaches_steps_cons (Within.reaches (hquery rfl)) ?_
      refine reaches_steps_cons (fun ok => ⟨_, rfl, reaches_onward _ _ ok⟩) ?_
      refine reaches_steps_cons (Within.reaches (hquery rfl)) ?_
      refine reaches_steps_cons (Within.reaches (hquery rfl)) ?_
      refine reaches_steps_cons (fun ok => ⟨_, next_insert secret hvalid ok, reaches_onward _ _ ok⟩) ?_
      refine reaches_steps_cons (Within.reaches (hquery rfl)) ?_
      refine reaches_steps_cons (Within.reaches (hquery rfl)) ?_
      exact reaches_steps_cons (Within.reaches (loadable_within (calm_at _) b profile))
        (reaches_steps_nil _)
    refine hsteps.bind fun q opened hq => ?_
    cases opened with
    | true => exact reaches_true hq
    | false =>
      intro closed
      refine ⟨q, ?_, reaches_false hq⟩
      rw [next_harmless rfl]
      cases q <;> rfl

theorem provision_follows (s : Setup) (secret : Bytes) :
    Follows next (Gives (.stored s.binding secret (.provisioned s.profile)) s.advanced)
      (.own (.stored s.binding secret .absent) .none) (s.provision s.binding) := by
  have hread {p : Progress} (n : Name) (state : RecordState) :
      Within (At p) (readable s.binding n state) := readable_within (calm_at _) _ _ _
  have hentries {p : Progress} :
      Within (At p) (do return (← query .entries).isSome : Prog calls Bool) :=
    Within.bind (within_query (calm_at _) rfl) fun _ => within_return _
  have hsteps : Follows next
      (Reaches (.own (.stored s.binding secret (.provisioned s.profile)) .none))
      (.own (.stored s.binding secret .absent) .none)
      (steps [check s s.binding 2, readable s.binding .attempt .attempted,
        readable s.binding .credential .credential, query .mkdirLedger,
        (do return (← query .entries).isSome), openLedger s.binding s.profile true,
        loadsFresh s.binding s.profile, query (.ledgerPrivacy s.profile.kind),
        query .syncDirectory, query .alive]) := by
    refine reaches_steps_cons (Within.reaches (check_within (calm_at _) s _ 2)) ?_
    refine reaches_steps_cons (Within.reaches (hread .attempt .attempted)) ?_
    refine reaches_steps_cons (Within.reaches (hread .credential .credential)) ?_
    refine reaches_steps_cons (fun ok => ⟨_, rfl, reaches_onward _ _ ok⟩) ?_
    refine reaches_steps_cons (Within.reaches hentries) ?_
    refine reaches_steps_cons (openLedger_follows s.binding secret s.profile) ?_
    refine reaches_steps_cons (Within.reaches (loadsFresh_within (calm_at _) _ _)) ?_
    refine reaches_steps_cons (Within.reaches (within_query (calm_at _) rfl)) ?_
    refine reaches_steps_cons (m := .own (.stored s.binding secret (.provisioned s.profile)) .none)
      (fun ok => ⟨_, rfl, ?_⟩) ?_
    · cases ok
      · exact reaches_false trivial
      · exact reaches_true rfl
    · exact reaches_steps_cons (Within.reaches (within_query (calm_at _) rfl)) (reaches_steps_nil _)
  refine hsteps.bind fun q ok hq => ?_
  cases ok with
  | true => exact ⟨hq, rfl⟩
  | false => exact hq

theorem markReady_follows (s : Setup) (secret : Bytes) :
    Follows next (Gives (.done s.binding secret s.profile) s.advanced)
      (.own (.stored s.binding secret (.provisioned s.profile)) .none) (s.markReady s.binding) := by
  have hread {p : Progress} (n : Name) (state : RecordState) :
      Within (At p) (readable s.binding n state) := readable_within (calm_at _) _ _ _
  have hsteps : Follows next
      (Reaches (.own (.stored s.binding secret (.provisioned s.profile)) .none))
      (.own (.stored s.binding secret (.provisioned s.profile)) .none)
      (steps [check s s.binding 3, readable s.binding .attempt .attempted,
        readable s.binding .credential .credential, query (.ledgerPrivacy s.profile.kind),
        openLedger s.binding s.profile false, loadsFresh s.binding s.profile]) := by
    refine Within.reaches (within_steps ?_)
    simp only [List.mem_cons, List.not_mem_nil, or_false, forall_eq_or_imp, forall_eq]
    exact ⟨check_within (calm_at _) s _ 3, hread .attempt .attempted,
      hread .credential .credential, within_query (calm_at _) rfl,
      openLedger_within (calm_at _) _ _, loadsFresh_within (calm_at _) _ _⟩
  refine hsteps.bind fun q ok hq => ?_
  cases ok with
  | false => exact hq
  | true =>
    have hq' : q = .own (.stored s.binding secret (.provisioned s.profile)) .none := hq
    subst hq'
    exact write_follows (publish_ready s.binding secret s.profile)

/-! ## The coordinator -/

theorem afterExchange_follows (hs : s.principals.profile s.binding = some s.profile)
    (secret : Bytes) :
    Follows next Returns (.own (.exchanged s.binding secret) .none)
      (afterExchange s s.binding secret) := by
  refine (within_query (calm_at _) (c := .alive) rfl _ rfl).bind fun q ok hq => ?_
  rw [At] at hq
  subst hq
  split
  · exact trivial
  refine stepThen_follows (create_follows s secret) ?_
  refine stepThen_follows (provision_follows s.advanced secret) ?_
  refine (markReady_follows s.advanced.advanced secret).bind fun q o hq => ?_
  cases o with
  | none => exact hq
  | some s' =>
    obtain ⟨hq, rfl⟩ := hq
    exact ⟨hs, secret, hq⟩

theorem afterBegin_follows (hs : s.principals.profile s.binding = some s.profile) (grant : Bytes) :
    Follows next Returns (.own (.begun s.binding true) .none) (afterBegin s s.binding grant) := by
  refine (within_query (calm_at _) (c := .alive) rfl _ rfl).bind fun q ok hq => ?_
  rw [At] at hq
  subst hq
  split
  · exact trivial
  refine (exchange_follows s.binding grant).bind fun q x hq => ?_
  cases h : accepted s.binding x with
  | error o =>
    rw [h] at hq
    exact hq
  | ok secret =>
    rw [h] at hq
    obtain rfl : q = .own (.exchanged s.binding secret) .none := hq
    exact afterExchange_follows hs secret

theorem run_follows (s : Setup) : Follows next Returns (.own .locked .none) (run s) := by
  refine (within_query (calm_at _) (c := .alive) rfl _ rfl).bind fun q ok hq => ?_
  split
  · exact mine_of_at hq
  refine (within_query (calm_at _) (c := .grant) rfl q hq).bind fun q grant hq => ?_
  cases grant with
  | none => exact fixedPreAttemptError_follows (mine_of_at hq) _
  | some grant =>
    dsimp only
    split
    · exact mine_of_at hq
    refine (within_query (calm_at _) (c := .random) rfl q hq).bind fun q identity hq => ?_
    cases identity with
    | none => exact fixedPreAttemptError_follows (mine_of_at hq) _
    | some identity =>
      dsimp only
      split
      · exact mine_of_at hq
      rw [At] at hq
      subst hq
      refine (begin_follows s _).bind fun q o hq => ?_
      cases o with
      | none => exact fixedPreAttemptError_follows hq _
      | some s' =>
        obtain ⟨hq, hb, hprofile⟩ := hq
        rw [At] at hq
        subst hq
        rw [← hb] at hprofile ⊢
        exact afterBegin_follows hprofile _

/-! ## Processes -/

theorem enroll_follows (principals : Principals) :
    Follows next Returns .outside (enroll principals) := by
  rw [enroll]
  split
  · exact trivial
  refine openNew_follows.bind fun q ok hq => ?_
  cases ok with
  | false => exact follows_close trivial
  | true =>
    obtain rfl := hq rfl
    refine (run_follows _).bind fun q result hq => ?_
    exact follows_close hq

theorem openedLedger_follows {secret : Bytes} (hq : Reading ⟨.credential, b, secret⟩ q)
    (profile : ProfileBinding) :
    Follows next Returns q (openedLedger b profile secret) := by
  have hcalm := calm_reading ⟨.credential, b, secret⟩
  refine (within_steps ?_ q hq).bind fun q ok hq => ?_
  · simp only [List.mem_cons, List.not_mem_nil, or_false, forall_eq_or_imp, forall_eq]
    exact ⟨within_query hcalm rfl, within_query hcalm rfl, within_query hcalm rfl,
      within_query hcalm rfl, within_query hcalm rfl, openLedger_within hcalm b profile⟩
  split
  · exact trivial
  refine (loadLedger_follows hq profile).bind fun q r hq => ?_
  cases r with
  | none => exact trivial
  | some l =>
    obtain ⟨rfl, hl⟩ := hq l rfl
    refine (steps_loaded _ l).bind fun q ok hq => ?_
    subst hq
    cases ok with
    | false => exact trivial
    | true => exact ⟨rfl, hl.bound⟩

theorem openRecords_follows (hq : Opening q) (b : Binding) (profile : ProfileBinding) :
    Follows next Returns q (openRecords b profile) := by
  refine (found_follows hq b).bind fun q ok hq => ?_
  cases ok with
  | false => exact trivial
  | true =>
    obtain rfl := hq rfl
    refine (readCredential_follows b).bind fun q r hq => ?_
    cases r with
    | none => exact trivial
    | some r =>
      obtain ⟨secret, rfl, rfl⟩ := hq r rfl
      exact openedLedger_follows (Or.inl rfl) profile

theorem openReady_follows (principals : Principals) (b : Binding) :
    Follows next Returns .outside (openReady principals b) := by
  rw [openReady]
  split
  · exact trivial
  split
  · exact trivial
  rename_i profile hprofile hvalid
  refine (openExisting_within _ (Or.inl rfl)).bind fun q ok hq => ?_
  split
  · exact follows_close trivial
  refine (openRecords_follows hq b profile).bind fun q result hq => ?_
  split
  · exact hq
  · intro closed
    exact ⟨_, next_harmless rfl, follows_close trivial⟩

end

end Enrollment

end HomeLab
