/-
  The upload loop: when the next `Step` of the upload state machine is made.

  The loop waits, makes one `Step` and decides from its answer whether to end
  or how long to pause.  A `Turn` holds what the world answers during one pass:
  what `ctx.Err()` says at each of the places where it is asked, the answer of
  `Step`, the jitter and whether a pause was waited out.  A run is a list of
  turns.

  `retries_paced`: whatever the turns are, the events of a run are rounds of one
  `Step` and one pause, with the answers of the turns in their order; the pauses
  are those that the answers so far call for (`capOf`), the counters saturate, the
  loop stops exactly at what ends it, and nothing follows.
-/
import HomeLab.UploadState.Record

namespace HomeLab

namespace UploadLoop

open UploadState

/-! ## The loop -/

def startupDelay : Duration := 60 * second
def pollDelay : Duration := 15 * second
def maxRetryDelay : Duration := 60 * second

inductive Issue where
  | invalidSnapshot
  | recoveryIssue
  | dependencyIssue
  deriving DecidableEq, Repr

inductive Result where
  | canceled
  | recoveryRequired
  | dependencyFailed
  | credentialRejected
  | conflict
  | rejected
  | exhausted
  deriving DecidableEq, Repr

structure Stats where
  running : Bool := false
  stopped : Bool := false
  attempts : UInt64 := 0
  acknowledgements : UInt64 := 0
  retries : UInt64 := 0
  rateLimits : UInt64 := 0
  invalidSnapshots : UInt64 := 0
  lastOutcome : Option Outcome := none
  lastIssue : Option Issue := none
  result : Option Result := none

def maxUint64 : ℕ := 2 ^ 64 - 1

def increment (v : UInt64) : UInt64 := if v.toNat = maxUint64 then v else v + 1

/-- Count one more where a condition holds. -/
def bump (b : Bool) (v : UInt64) : UInt64 := if b then increment v else v

def nextRetry (previous : Duration) : Duration :=
  if previous = 0 then second
  else if previous ≥ maxRetryDelay / 2 then maxRetryDelay
  else previous * 2

/-- The least delay under a cap. -/
def low (cap : Duration) : Duration := max second (cap / 2)

/-- `draw` is what `rand.Int64N` returns for `cap - low cap + 1`. -/
def retryJitter (cap draw : Duration) : Duration := low cap + draw

/-- What `errors.Is` finds in the error of a `Step`. -/
structure Failure where
  canceled : Bool
  snapshot : Bool
  recovery : Bool

/-- The answer of `Step`; `none` is an outcome that the loop does not know. -/
abbrev Answer := Except Failure (Option Outcome)

def gives (o : Outcome) : Answer → Bool
  | .ok (some p) => p = o
  | _ => false

inductive Event where
  | step (a : Answer)
  /-- A pause that was waited out. -/
  | pause (d : Duration)

/-- The loop between two passes.  `events` is what it has done, the newest first. -/
structure Loop where
  stats : Stats
  retryCap : Duration
  events : List Event

structure Pause where
  canceled : Bool
  waited : Bool
  /-- `ctx.Err()` as `waitFailure` sees it. -/
  failed : Bool

/-- The pause was waited out. -/
def Pause.passes (p : Pause) : Bool := !p.canceled && p.waited

structure Turn where
  canceled : Bool
  answer : Answer
  /-- `ctx.Err()` when an error of `Step` is recorded, and after that. -/
  recorded : Bool
  interrupted : Bool
  jitter : Duration → Duration
  pause : Pause

def issueOf (canceled : Bool) (f : Failure) : Option Issue :=
  if f.canceled && canceled then none
  else if f.snapshot then some .invalidSnapshot
  else if f.recovery then some .recoveryIssue
  else some .dependencyIssue

/-- What the statistics keep of the answer of a `Step`. -/
def note (canceled : Bool) (a : Answer) (st : Stats) : Stats :=
  { st with
    attempts := increment st.attempts
    acknowledgements := bump (gives .acknowledged a) st.acknowledgements
    retries := bump (gives .retry a) st.retries
    rateLimits := bump (gives .rateLimited a) st.rateLimits
    lastOutcome := a.toOption.join
    lastIssue :=
      match a with
      | .ok (some _) => none
      | .ok none => some .dependencyIssue
      | .error f => issueOf canceled f }

/-- What the loop makes of an answer: it ends, or goes on with a cap and a delay. -/
def react (retryCap : Duration) (jitter : Duration → Duration) :
    Answer → Except Result (Duration × Duration)
  | .error f =>
    if f.recovery then .error .recoveryRequired
    else if f.snapshot then .ok (0, pollDelay)
    else .error .dependencyFailed
  | .ok (some .acknowledged) | .ok (some .idle) | .ok (some .sourceUnavailable)
  | .ok (some .expired) | .ok (some .clockSkew) => .ok (0, pollDelay)
  | .ok (some .retry) =>
    if jitter (nextRetry retryCap) < low (nextRetry retryCap) ∨
        nextRetry retryCap < jitter (nextRetry retryCap) then .error .dependencyFailed
    else .ok (nextRetry retryCap, jitter (nextRetry retryCap))
  | .ok (some .rateLimited) => .ok (maxRetryDelay, maxRetryDelay)
  | .ok (some .credentialRejected) => .error .credentialRejected
  | .ok (some .conflict) => .error .conflict
  | .ok (some .rejected) => .error .rejected
  | .ok (some .exhausted) => .error .exhausted
  | .ok none => .error .dependencyFailed

namespace Loop

def finish (l : Loop) (r : Result) : Loop :=
  { l with stats := { l.stats with running := false, stopped := true, result := some r } }

/-- `pause`, and `waitFailure` where it fails. -/
def pause (l : Loop) (p : Pause) (d : Duration) : Loop :=
  if p.passes then { l with events := .pause d :: l.events }
  else l.finish (if p.failed then .canceled else .dependencyFailed)

def step (l : Loop) (a : Answer) (canceled : Bool) : Loop :=
  { l with stats := note canceled a l.stats, events := .step a :: l.events }

/-- Go on after an answer; the only error that is not the end is an invalid snapshot. -/
def proceed (l : Loop) (a : Answer) (cap : Duration) : Loop :=
  { l with
    stats := { l.stats with invalidSnapshots := bump (!a.isOk) l.stats.invalidSnapshots }
    retryCap := cap }

/-- A pass of the loop after its `Step`. -/
def settle (l : Loop) (t : Turn) : Loop :=
  if t.interrupted then l.finish .canceled
  else match react l.retryCap t.jitter t.answer with
    | .error r => l.finish r
    | .ok (cap, delay) => (l.proceed t.answer cap).pause t.pause delay

/-- One pass of the loop. -/
def turn (l : Loop) (t : Turn) : Loop :=
  if l.stats.stopped then l
  else if t.canceled then l.finish .canceled
  else (l.step t.answer t.recorded).settle t

end Loop

def run (startup : Pause) (ts : List Turn) : Loop :=
  ts.foldl Loop.turn
    ((⟨{ running := true }, 0, []⟩ : Loop).pause startup startupDelay)

/-! ## What the answers call for -/

/-- The cap of the `n`-th of consecutive retries. -/
def backoff : ℕ → Duration
  | 0 => 0
  | n + 1 => min (2 ^ n * second) maxRetryDelay

/-- The cap after some answers, the newest first: the retries at their end count,
    from where a rate limit has put it. -/
def capOf (answers : List Answer) : Duration :=
  match answers.dropWhile (gives .retry) with
  | [] => backoff answers.length
  | a :: _ =>
    if gives .rateLimited a then maxRetryDelay
    else backoff (answers.takeWhile (gives .retry)).length

/-- The answers after which the loop goes on. -/
def continues : Answer → Bool
  | .error f => f.snapshot && !f.recovery
  | .ok (some .credentialRejected) | .ok (some .conflict) | .ok (some .rejected)
  | .ok (some .exhausted) | .ok none => false
  | .ok (some _) => true

/-- What ends the loop: a cancellation, a pause that fails, an answer that is final. -/
def Turn.Ends (t : Turn) : Prop :=
  t.canceled ∨ t.interrupted ∨ t.pause.passes = false ∨ continues t.answer = false

/-- The jitter keeps to the bounds of every cap, as `retryJitter` does. -/
def Turn.Fair (t : Turn) : Prop :=
  ∀ cap, second ≤ cap → low cap ≤ t.jitter cap ∧ t.jitter cap ≤ cap

/-- A pass that went on: the answer of `Step` and the pause after it. -/
structure Round where
  answer : Answer
  delay : Duration

def Round.events (r : Round) : List Event := [.pause r.delay, .step r.answer]

/-- The pause of a round is the one its answer and the earlier ones call for. -/
structure Round.Paced (earlier : List Answer) (r : Round) : Prop where
  continues : continues r.answer
  least : second ≤ r.delay
  retry : gives .retry r.answer → low (capOf (r.answer :: earlier)) ≤ r.delay ∧
    r.delay ≤ capOf (r.answer :: earlier)
  rateLimited : gives .rateLimited r.answer → r.delay = maxRetryDelay
  other : gives .retry r.answer = false → gives .rateLimited r.answer = false →
    capOf (r.answer :: earlier) = 0 ∧ r.delay = pollDelay

/-- The counters count the answers, up to the greatest number they hold. -/
structure Stats.Counts (st : Stats) (answers : List Answer) : Prop where
  attempts : st.attempts.toNat = min answers.length maxUint64
  acknowledgements :
    st.acknowledgements.toNat = min (answers.countP (gives .acknowledged)) maxUint64
  retries : st.retries.toNat = min (answers.countP (gives .retry)) maxUint64
  rateLimits : st.rateLimits.toNat = min (answers.countP (gives .rateLimited)) maxUint64

/-- The answers of the given rounds and of a `Step` after them, the newest first. -/
def stepped (rounds : List Round) (last : Option Answer) : List Answer :=
  last.toList ++ rounds.map Round.answer

/-- In some turns a loop has made the given rounds and perhaps one `Step` after them. -/
structure Traced (l : Loop) (ts : List Turn) (rounds : List Round) (last : Option Answer) :
    Prop where
  events : l.events =
    last.toList.map .step ++ rounds.flatMap Round.events ++ [.pause startupDelay]
  paced : ∀ r older, r :: older <:+ rounds → r.Paced (older.map Round.answer)
  counts : l.stats.Counts (stepped rounds last)
  /-- Each `Step` is the one of its turn. -/
  answers : (stepped rounds last).reverse <+: ts.map Turn.answer

/-! ## The caps -/

theorem nextRetry_backoff (n : ℕ) : nextRetry (backoff n) = backoff (n + 1) := by
  cases n with
  | zero => decide
  | succ n =>
    have hpos : (0 : ℤ) < 2 ^ n := by positivity
    simp only [nextRetry, backoff, maxRetryDelay, second, pow_succ]
    dsimp only [Duration] at *
    split_ifs <;> omega

theorem capOf_cons_retry {a : Answer} (older : List Answer) (h : gives .retry a = true) :
    capOf (a :: older) = nextRetry (capOf older) := by
  simp only [capOf, List.dropWhile_cons, List.takeWhile_cons, h, if_true, List.length_cons]
  split
  · rw [nextRetry_backoff]
  · split_ifs
    · decide
    · rw [nextRetry_backoff]

theorem capOf_cons {a : Answer} (older : List Answer) (h : gives .retry a = false) :
    capOf (a :: older) = if gives .rateLimited a then maxRetryDelay else 0 := by
  simp [capOf, h, backoff]

theorem second_le_nextRetry (older : List Answer) : second ≤ nextRetry (capOf older) := by
  have hback : ∀ n, second ≤ nextRetry (backoff n) := by
    intro n
    have hpos : (0 : ℤ) < 2 ^ n := by positivity
    rw [nextRetry_backoff]
    simp only [backoff, maxRetryDelay, second]
    dsimp only [Duration] at *
    omega
  unfold capOf
  split
  · exact hback _
  · split_ifs
    · decide
    · exact hback _

/-- Going on after an answer, the loop has the cap and the delay that are called for. -/
theorem react_paced {older : List Answer} {jitter : Duration → Duration} {a : Answer}
    {cap delay : Duration} (h : react (capOf older) jitter a = .ok (cap, delay)) :
    cap = capOf (a :: older) ∧ (⟨a, delay⟩ : Round).Paced older := by
  have hquiet : ∀ {b : Answer}, continues b = true → gives .retry b = false →
      gives .rateLimited b = false →
      0 = capOf (b :: older) ∧ (⟨b, pollDelay⟩ : Round).Paced older := by
    intro b hb hretry hlimit
    have hcap : capOf (b :: older) = 0 := by rw [capOf_cons older hretry, hlimit]; rfl
    exact ⟨hcap.symm, hb, show second ≤ pollDelay by decide, by simp [hretry], by simp [hlimit],
      fun _ _ => ⟨hcap, rfl⟩⟩
  unfold react at h
  split at h
  case h_1 f =>
    split_ifs at h with hrecovery hsnapshot
    cases h
    exact hquiet (by simp [continues, hrecovery, hsnapshot]) rfl rfl
  case h_7 =>
    have hcap := capOf_cons_retry older (a := .ok (some .retry)) rfl
    split_ifs at h with hbounds
    cases h
    rw [not_or, not_lt, not_lt] at hbounds
    refine ⟨hcap.symm, rfl, (le_max_left _ _).trans hbounds.1, fun _ => ?_, nofun, nofun⟩
    rw [hcap]
    exact hbounds
  case h_8 =>
    cases h
    exact ⟨by rw [capOf_cons older rfl]; rfl, rfl, by decide, nofun, fun _ => rfl, nofun⟩
  all_goals first | (cases h; exact hquiet rfl rfl rfl) | cases h

theorem react_error (cap : Duration) (jitter : Duration → Duration) {a : Answer}
    (h : continues a = false) : ∃ r, react cap jitter a = .error r := by
  unfold continues at h
  split at h
  case h_1 f =>
    unfold react
    cases hr : f.recovery with
    | true => exact ⟨.recoveryRequired, by simp [hr]⟩
    | false =>
      have hs : f.snapshot = false := by simpa [hr] using h
      exact ⟨.dependencyFailed, by simp [hr, hs]⟩
  case h_7 => cases h
  all_goals exact ⟨_, rfl⟩

theorem react_ok (older : List Answer) {t : Turn} (hfair : t.Fair)
    (h : continues t.answer = true) :
    ∃ next, react (capOf older) t.jitter t.answer = .ok next := by
  obtain ⟨hlow, hhigh⟩ := hfair _ (second_le_nextRetry older)
  have hbounds : ¬ (t.jitter (nextRetry (capOf older)) < low (nextRetry (capOf older)) ∨
      nextRetry (capOf older) < t.jitter (nextRetry (capOf older))) :=
    not_or.2 ⟨not_lt.2 hlow, not_lt.2 hhigh⟩
  unfold continues at h
  split at h
  case h_1 f hanswer =>
    simp only [Bool.and_eq_true, Bool.not_eq_true'] at h
    exact ⟨_, by rw [hanswer, react, h.1, h.2]; rfl⟩
  case h_7 o _ _ _ _ hanswer =>
    rw [hanswer]
    cases o
    case retry => exact ⟨_, if_neg hbounds⟩
    all_goals first | exact ⟨_, rfl⟩ | contradiction
  all_goals cases h

/-! ## The counters -/

theorem increment_toNat (v : UInt64) : (increment v).toNat = min (v.toNat + 1) maxUint64 := by
  have hlt := v.toNat_lt
  unfold increment maxUint64
  split_ifs with h
  · omega
  · rw [UInt64.toNat_add, UInt64.toNat_one]
    omega

theorem le_bump (b : Bool) (v : UInt64) : v.toNat ≤ (bump b v).toNat := by
  have hlt := v.toNat_lt
  cases b with
  | false => exact le_rfl
  | true =>
    rw [bump, if_pos rfl, increment_toNat, maxUint64]
    omega

theorem bump_countP {p : Answer → Bool} {answers : List Answer} {v : UInt64}
    (h : v.toNat = min (answers.countP p) maxUint64) (a : Answer) :
    (bump (p a) v).toNat = min ((a :: answers).countP p) maxUint64 := by
  rw [List.countP_cons, bump]
  split_ifs
  · rw [increment_toNat, h]
    omega
  · exact h

theorem Stats.Counts.step {st : Stats} {answers : List Answer} (h : st.Counts answers)
    (a : Answer) (canceled : Bool) : (note canceled a st).Counts (a :: answers) where
  attempts := by
    have hmore := increment_toNat st.attempts
    rw [h.attempts] at hmore
    rw [List.length_cons]
    exact hmore.trans (by omega)
  acknowledgements := bump_countP h.acknowledgements a
  retries := bump_countP h.retries a
  rateLimits := bump_countP h.rateLimits a

/-! ## Runs -/

variable {l : Loop} {ts : List Turn} {rounds : List Round} {last : Option Answer}

/-- A loop that has not stopped has made a round in every turn and holds the right cap. -/
def Ready (l : Loop) (ts : List Turn) (rounds : List Round) (last : Option Answer) : Prop :=
  l.stats.stopped = false → last = none ∧ l.retryCap = capOf (rounds.map Round.answer) ∧
    (rounds.map Round.answer).reverse = ts.map Turn.answer

theorem Traced.step (h : Traced l ts rounds none)
    (hall : (rounds.map Round.answer).reverse = ts.map Turn.answer) (t : Turn) :
    Traced (l.step t.answer t.recorded) (ts ++ [t]) rounds (some t.answer) where
  events := congrArg (Event.step t.answer :: ·) h.events
  paced := h.paced
  counts := h.counts.step t.answer t.recorded
  answers := by
    have heq : (stepped rounds (some t.answer)).reverse = (ts ++ [t]).map Turn.answer := by
      rw [List.map_append, ← hall]
      exact List.reverse_cons
    rw [heq]

theorem Traced.proceed (h : Traced l ts rounds last) (a : Answer) (cap : Duration) :
    Traced (l.proceed a cap) ts rounds last :=
  ⟨h.events, h.paced, ⟨h.counts.1, h.counts.2, h.counts.3, h.counts.4⟩, h.answers⟩

theorem Traced.finish (h : Traced l ts rounds last) (r : Result) :
    Traced (l.finish r) ts rounds last :=
  ⟨h.events, h.paced, ⟨h.counts.1, h.counts.2, h.counts.3, h.counts.4⟩, h.answers⟩

/-- A turn in which no `Step` is made. -/
theorem Traced.skip (h : Traced l ts rounds last) (t : Turn) : Traced l (ts ++ [t]) rounds last :=
  ⟨h.events, h.paced, h.counts, h.answers.trans (List.map_append ▸ List.prefix_append _ _)⟩

/-- One pass makes one more round, or ends the loop. -/
theorem Traced.turn (h : Traced l ts rounds last) (hready : Ready l ts rounds last) (t : Turn) :
    ∃ rounds' last', Traced (l.turn t) (ts ++ [t]) rounds' last' ∧
      Ready (l.turn t) (ts ++ [t]) rounds' last' := by
  rw [Loop.turn]
  split_ifs with hstopped
  · exact ⟨rounds, last, h.skip t, fun hrunning => absurd (hstopped.symm.trans hrunning) (by decide)⟩
  · exact ⟨rounds, last, (h.skip t).finish _, nofun⟩
  obtain ⟨rfl, hcap, hall⟩ := hready (by simpa using hstopped)
  have hstep := h.step hall t
  rw [Loop.settle]
  split_ifs
  · exact ⟨rounds, _, hstep.finish _, nofun⟩
  · split
    · exact ⟨rounds, _, hstep.finish _, nofun⟩
    · rename_i cap delay hreact
      rw [show (l.step t.answer t.recorded).retryCap = l.retryCap from rfl, hcap] at hreact
      obtain ⟨hnext, hpaced⟩ := react_paced hreact
      have hproceed := hstep.proceed t.answer cap
      rw [Loop.pause]
      split
      · refine ⟨⟨t.answer, delay⟩ :: rounds, none, ⟨?_, ?_, hproceed.counts, hproceed.answers⟩,
          fun _ => ⟨rfl, hnext, ?_⟩⟩
        · exact congrArg (Event.pause delay :: ·) hproceed.events
        · intro r older hr
          rcases List.suffix_cons_iff.1 hr with heq | hr
          · obtain ⟨rfl, rfl⟩ := List.cons.inj heq
            exact hpaced
          · exact h.paced r older hr
        · rw [List.map_append, ← hall]
          exact List.reverse_cons
      · exact ⟨rounds, _, hproceed.finish _, nofun⟩

theorem turn_stops (l : Loop) {t : Turn} (h : t.Ends) : (l.turn t).stats.stopped := by
  rw [Loop.turn]
  split_ifs with hstopped hcanceled
  · exact hstopped
  · rfl
  rw [Loop.settle]
  split_ifs with hinterrupted
  · rfl
  split
  · rfl
  rename_i cap delay hreact
  rw [Loop.pause]
  split
  · rename_i hpause
    have hfinal : continues t.answer = false := by
      simpa [Turn.Ends, hcanceled, hinterrupted, hpause] using h
    obtain ⟨r, hr⟩ := react_error _ t.jitter hfinal
    rw [hr] at hreact
    cases hreact
  · rfl

/-- Nothing else stops a loop whose jitter is fair. -/
theorem turn_goes_on {older : List Answer} (hrunning : l.stats.stopped = false)
    (hcap : l.retryCap = capOf older) {t : Turn} (hfair : t.Fair) (h : ¬ t.Ends) :
    (l.turn t).stats.stopped = false := by
  simp only [Turn.Ends, not_or, Bool.not_eq_true, Bool.not_eq_false] at h
  obtain ⟨hcanceled, hinterrupted, hpause, hcontinues⟩ := h
  obtain ⟨next, hnext⟩ := react_ok older hfair hcontinues
  have hreact : react (l.step t.answer t.recorded).retryCap t.jitter t.answer = .ok next := by
    rw [← hnext, ← hcap]
    rfl
  rw [Loop.turn, hrunning, hcanceled, Loop.settle, hinterrupted, hreact]
  show (Loop.pause _ t.pause next.2).stats.stopped = false
  rw [Loop.pause, if_pos hpause]
  exact hrunning

theorem turn_invalidSnapshots (l : Loop) (t : Turn) :
    l.stats.invalidSnapshots.toNat ≤ (l.turn t).stats.invalidSnapshots.toNat := by
  rw [Loop.turn, Loop.settle]
  split_ifs
  · exact le_rfl
  · exact le_rfl
  · exact le_rfl
  split
  · exact le_rfl
  · rw [Loop.pause]
    split
    · exact le_bump _ _
    · exact le_bump _ _

theorem run_concat (startup : Pause) (ts : List Turn) (t : Turn) :
    run startup (ts ++ [t]) = (run startup ts).turn t := by
  rw [run, List.foldl_append]
  rfl

/-- A run whose first pause fails has made no `Step`. -/
theorem run_failed {startup : Pause} (h : startup.passes = false) (ts : List Turn) :
    (run startup ts).stats.stopped = true ∧ (run startup ts).events = [] := by
  induction ts using List.reverseRecOn with
  | nil =>
    rw [run, List.foldl_nil, Loop.pause, h]
    exact ⟨rfl, rfl⟩
  | append_singleton ts t ih =>
    rw [run_concat, Loop.turn, if_pos ih.1]
    exact ih

/-- Any other run is a row of rounds. -/
theorem run_traced {startup : Pause} (h : startup.passes = true) (ts : List Turn) :
    ∃ rounds last, Traced (run startup ts) ts rounds last ∧
      Ready (run startup ts) ts rounds last := by
  induction ts using List.reverseRecOn with
  | nil =>
    rw [run, List.foldl_nil, Loop.pause, if_pos h]
    exact ⟨[], none, ⟨rfl, by simp, ⟨rfl, rfl, rfl, rfl⟩, List.prefix_rfl⟩, fun _ => ⟨rfl, rfl, rfl⟩⟩
  | append_singleton ts t ih =>
    rw [run_concat]
    obtain ⟨rounds, last, htraced, hready⟩ := ih
    exact htraced.turn hready t

/-- **A loop stops exactly at what ends it.** -/
theorem run_stopped_iff {startup : Pause} (ts : List Turn) (hfair : ∀ t ∈ ts, t.Fair) :
    (run startup ts).stats.stopped = true ↔ startup.passes = false ∨ ∃ t ∈ ts, t.Ends := by
  cases hpasses : startup.passes with
  | false => exact iff_of_true (run_failed hpasses ts).1 (Or.inl rfl)
  | true =>
    simp only [Bool.true_eq_false, false_or]
    induction ts using List.reverseRecOn with
    | nil =>
      rw [run, List.foldl_nil, Loop.pause, if_pos hpasses]
      simp
    | append_singleton ts t ih =>
      simp only [List.mem_append, List.mem_singleton, or_imp, forall_and, forall_eq] at hfair
      rw [run_concat]
      simp only [List.mem_append, List.mem_singleton, or_and_right, exists_or, exists_eq_left,
        ← ih hfair.1]
      constructor
      · intro hstopped
        by_contra hno
        rw [not_or, Bool.not_eq_true] at hno
        obtain ⟨rounds, last, -, hready⟩ := run_traced hpasses ts
        obtain ⟨-, hcap, -⟩ := hready hno.1
        rw [turn_goes_on hno.1 hcap hfair.2 hno.2] at hstopped
        cases hstopped
      · rintro (hstopped | hends)
        · rw [Loop.turn, if_pos hstopped]
          exact hstopped
        · exact turn_stops _ hends

/-- **Every retry is paced.**  Unless the first pause fails, the events of a run are rounds of
    one `Step` and one pause, of at least a second and as the caps of the answers demand; the
    answers are those of the turns, of all of them while the loop runs.  The jitter of the loop
    always meets the bounds, and then the loop stops exactly at what ends it; no counter wraps;
    a cancelled turn makes no `Step`, and nothing follows the end. -/
theorem retries_paced (startup : Pause) (ts : List Turn) :
    (startup.passes = false → (run startup ts).stats.stopped ∧ (run startup ts).events = []) ∧
    (startup.passes = true → ∃ rounds last, Traced (run startup ts) ts rounds last ∧
      Ready (run startup ts) ts rounds last) ∧
    (∀ draw : Duration → Duration, (∀ cap, second ≤ cap → 0 ≤ draw cap ∧ draw cap ≤ cap - low cap) →
      ∀ t : Turn, t.jitter = (fun cap => retryJitter cap (draw cap)) → t.Fair) ∧
    ((∀ t ∈ ts, t.Fair) → ((run startup ts).stats.stopped ↔
      startup.passes = false ∨ ∃ t ∈ ts, t.Ends)) ∧
    (∀ cap, second ≤ cap → low cap ≤ cap) ∧
    (∀ t, (run startup ts).stats.invalidSnapshots.toNat ≤
      (run startup (ts ++ [t])).stats.invalidSnapshots.toNat) ∧
    (∀ t : Turn, t.Ends → (run startup (ts ++ [t])).stats.stopped) ∧
    (∀ t : Turn, t.canceled → (run startup (ts ++ [t])).events = (run startup ts).events) ∧
    ((run startup ts).stats.stopped → ∀ more, run startup (ts ++ more) = run startup ts) := by
  refine ⟨fun h => run_failed h ts, fun h => run_traced h ts, ?_, run_stopped_iff ts, ?_, ?_, ?_,
    ?_, ?_⟩
  · intro draw hdraw t ht cap hcap
    have hbounds := hdraw cap hcap
    rw [ht]
    unfold retryJitter
    dsimp only [Duration] at *
    omega
  · intro cap hcap
    unfold low
    dsimp only [Duration, second] at *
    omega
  · intro t
    rw [run_concat]
    exact turn_invalidSnapshots _ t
  · intro t ht
    rw [run_concat]
    exact turn_stops _ ht
  · intro t ht
    rw [run_concat, Loop.turn]
    split_ifs
    · rfl
    · rfl
  · intro hstopped more
    induction more using List.reverseRecOn with
    | nil => rw [List.append_nil]
    | append_singleton more t ih =>
      rw [← List.append_assoc, run_concat, ih, Loop.turn, if_pos hstopped]

end UploadLoop

end HomeLab
