/-
  Statuses of log sources.

  A status is in order if its states and its reason go together (`Outcome`) and
  its times are clock readings in order (`Status.Timed`).  All functions that
  make a status from others, after a batch, after a failure of the store or over
  both sources, return statuses in order for statuses in order.
-/
import HomeLab.LogObs.Summary

namespace HomeLab

namespace LogObs

/-! ## When a status is in order -/

/-- The states that go together, and whether there is a reason. -/
inductive Outcome : SupportState → CollectionState → Freshness → Bool → Prop
  | ok {f : Freshness} (hf : f ≠ .unknown) : Outcome .supported .ok f false
  | incomplete (f : Freshness) : Outcome .supported .incomplete f true
  | failed {s : SupportState} {f : Freshness} (hs : s = .supported ∨ s = .unavailable)
      (hf : f ≠ .current) : Outcome s .failed f true
  | notRun {s : SupportState} (hs : s ≠ .supported) : Outcome s .notRun .unknown true

/-- The times of a status are clock readings: covered up to at most the time
    observed, and observed by the time attempted. -/
@[mk_iff] structure Status.Timed (s : Status) : Prop where
  known : s.freshness = .unknown ↔ s.observedAt = none
  attempted : ∀ a ∈ s.attemptedAt, ClockReading a
  observed : ∀ o ∈ s.observedAt, ClockReading o ∧ ∃ a ∈ s.attemptedAt, o ≤ a
  coverage : ∀ c ∈ s.coverageThrough, ClockReading c ∧ ∃ o ∈ s.observedAt, c ≤ o

/-- The checks of a status on its states. -/
def Status.states (support : SupportState) (collection : CollectionState) (freshness : Freshness)
    (reason : Bool) : Bool :=
  (if collection = .ok then support = .supported && !reason && freshness ≠ .unknown else reason) &&
  !(collection = .incomplete && support ≠ .supported) &&
  !(collection = .notRun && support = .supported) &&
  !(support ≠ .supported && support ≠ .unavailable && collection ≠ .notRun) &&
  !(support ≠ .supported && collection = .notRun && freshness ≠ .unknown) &&
  !(collection = .failed && freshness = .current)

variable {collection : CollectionState} {support : SupportState} {s left right : Status}
  {t o : Instant} {r : Bool} {f : Freshness}

theorem states_iff {freshness : Freshness} {reason : Bool} :
    Status.states support collection freshness reason = true ↔
      Outcome support collection freshness reason := by
  constructor
  · intro h
    cases collection with
    | ok =>
      cases support <;> cases reason <;> cases freshness <;>
        first | exact .ok (by decide) | exact absurd h (by decide)
    | incomplete =>
      cases support <;> cases reason <;> cases freshness <;>
        first | exact .incomplete _ | exact absurd h (by decide)
    | failed =>
      cases support <;> cases reason <;> cases freshness <;>
        first | exact .failed (by decide) (by decide) | exact absurd h (by decide)
    | notRun =>
      cases support <;> cases reason <;> cases freshness <;>
        first | exact .notRun (by decide) | exact absurd h (by decide)
  · rintro (hf | _ | ⟨rfl | rfl, hf⟩ | hs)
    · cases freshness <;> first | rfl | exact absurd rfl hf
    · cases freshness <;> rfl
    · cases freshness <;> first | rfl | exact absurd rfl hf
    · cases freshness <;> first | rfl | exact absurd rfl hf
    · cases support <;> first | rfl | exact absurd rfl hs

/-- **A status is in order if its states go together and its times are in order.** -/
theorem Status.validate_iff :
    s.validate = true ↔
      Outcome s.supportState s.collectionState s.freshness s.reasonCode.isSome ∧ s.Timed := by
  rw [← states_iff]
  obtain ⟨support, collection, freshness, observed, attempted, coverage, reason⟩ := s
  rw [Status.validate, Status.timed_iff, Status.states]
  -- the checks of the times are all decided by which times are there
  cases observed <;> cases attempted <;> cases coverage <;> cases freshness <;>
    simp [validateUTC_iff] <;> grind

/-! ## After a batch -/

/-- The batch shows something of its source. -/
def Batch.observes (b : Batch) : Bool := b.kind = .normal && (b.caughtUp || 0 < b.events.length)

/-- What a batch in order says about its source. -/
structure Batch.Sound (b : Batch) : Prop where
  started : ClockReading b.queryStartedAt
  observed : b.observes = true → b.collectionState = .ok ∨ b.collectionState = .incomplete
  unobserved : b.observes = false → b.collectionState ≠ .ok
  ok : b.collectionState = .ok → b.supportState = .supported ∧ b.reasonCode = none
  reason : b.collectionState ≠ .ok → b.reasonCode.isSome = true
  incomplete : b.collectionState = .incomplete → b.supportState = .supported
  notRun : b.collectionState = .notRun → b.supportState ≠ .supported
  failed : b.collectionState = .failed → b.supportState = .supported ∨ b.supportState = .unavailable
  events : ∀ e ∈ b.events, e.validate = true

theorem Batch.sound (b : Batch) (h : b.validate = true) : b.Sound := by
  simp only [Batch.validate, Bool.and_eq_true] at h
  obtain ⟨⟨⟨⟨⟨⟨⟨⟨htimes, -⟩, -⟩, hok⟩, hincomplete⟩, hnotRun⟩, hfailed⟩, -⟩, hrest⟩ := h
  have htimes' : ClockReading b.queryStartedAt := by
    simp only [validateOrderedTimes, Bool.and_eq_true] at htimes
    exact validateUTC_iff.1 htimes.1.1.1
  cases hsum : sumDiscards b.discards 0 with
  | none => simp [hsum] at hrest
  | some discarded =>
    rw [hsum] at hrest
    simp only [Bool.and_eq_true] at hrest
    obtain ⟨⟨-, hevents⟩, hkind⟩ := hrest
    refine ⟨htimes', fun hobs => ?_, fun hobs => ?_, fun h => ?_, fun h => ?_, fun h => ?_,
      fun h => ?_, fun h => ?_, fun e he => ?_⟩
    · simp only [Batch.observes, Bool.and_eq_true, decide_eq_true_eq] at hobs
      rw [if_neg (by simp [hobs.1])] at hkind
      simp only [Batch.validateNormalBatch, Bool.and_eq_true] at hkind
      cases hc : b.collectionState <;> simp_all
    · by_cases hnormal : b.kind = .normal
      · rw [if_neg (by simp [hnormal])] at hkind
        simp only [Batch.validateNormalBatch, Bool.and_eq_true] at hkind
        simp only [Batch.observes, hnormal] at hobs
        intro hc
        simp_all
      · rw [if_pos (by simpa using hnormal), Batch.validateResetBatch] at hkind
        split_ifs at hkind <;> simp_all
    · simpa [h] using hok
    · simpa [h] using hok
    · simpa [h] using hincomplete
    · simpa [h] using hnotRun
    · simpa [h] using hfailed
    · exact (by simpa using List.all_eq_true.1 hevents e he : e.validate = true ∧ _).1

/-- An attempt that shows nothing, where nothing was known before. -/
theorem Status.timed_unknown {reason : Option ReasonCode} (ht : ClockReading t) :
    Status.Timed ⟨support, collection, .unknown, none, some t, none, reason⟩ :=
  ⟨by simp, by simpa using ht, by simp, by simp⟩

/-- An attempt that shows nothing keeps what was known before. -/
theorem Status.Timed.stale {p : Status} (hp : p.Timed) {reason : Option ReasonCode}
    (ho : p.observedAt = some o) (hle : o ≤ t) (ht : ClockReading t) :
    Status.Timed ⟨support, collection, .stale, some o, some t, p.coverageThrough, reason⟩ := by
  refine ⟨by simp, by simpa using ht, ?_, ?_⟩
  · intro o' ho'
    obtain rfl := Option.some.inj ho'
    exact ⟨(hp.observed _ ho).1, t, rfl, hle⟩
  · intro c hc
    obtain ⟨hread, o', ho', hco⟩ := hp.coverage c hc
    rw [ho] at ho'
    obtain rfl := Option.some.inj ho'
    exact ⟨hread, _, rfl, hco⟩

/-- What was observed before, unless it is after `t`. -/
theorem observed_before_cases (previous : Option Status) (t : Instant) :
    (previous.bind (·.observedAt)).filter (· ≤ t) = none ∨
      ∃ p o, previous = some p ∧ p.observedAt = some o ∧ o ≤ t ∧
        (previous.bind (·.observedAt)).filter (· ≤ t) = some o := by
  cases hprev : (previous.bind (·.observedAt)).filter (· ≤ t) with
  | none => exact .inl rfl
  | some o =>
    obtain ⟨hbind, hle⟩ := Option.mem_filter_iff.1 hprev
    obtain ⟨p, hp, ho⟩ := Option.bind_eq_some_iff.1 hbind
    exact .inr ⟨p, o, hp, ho, of_decide_eq_true hle, rfl⟩

/-- The status after a batch: of what it shows, of nothing, or of what was known before. -/
theorem statusAfterBatch_cases (b : Batch) (previous : Option Status) :
    (b.observes = true ∧ statusAfterBatch b previous =
      ⟨b.supportState, b.collectionState, .current, some b.queryStartedAt, some b.queryStartedAt,
        if b.caughtUp then some b.queryStartedAt
          else (previous.bind (·.coverageThrough)).filter (· ≤ b.queryStartedAt), b.reasonCode⟩) ∨
    (b.observes = false ∧ statusAfterBatch b previous =
      ⟨b.supportState, b.collectionState, .unknown, none, some b.queryStartedAt, none,
        b.reasonCode⟩) ∨
    (b.observes = false ∧ b.collectionState ≠ .notRun ∧ ∃ p o, previous = some p ∧
      p.observedAt = some o ∧ o ≤ b.queryStartedAt ∧ statusAfterBatch b previous =
        ⟨b.supportState, b.collectionState, .stale, some o, some b.queryStartedAt,
          p.coverageThrough, b.reasonCode⟩) := by
  unfold statusAfterBatch
  rw [← Batch.observes]
  cases hobs : b.observes with
  | true => exact .inl ⟨rfl, if_pos rfl⟩
  | false =>
    refine .inr ?_
    rw [if_neg (by simp)]
    split_ifs with hkeep
    · rcases observed_before_cases previous b.queryStartedAt with hnone | ⟨p, o, rfl, ho, hle, hsome⟩
      · rw [hnone]
        exact .inl ⟨rfl, rfl⟩
      · rw [hsome]
        refine .inr ⟨rfl, fun hc => ?_, p, o, rfl, ho, hle, rfl⟩
        simp [hc] at hkeep
    · exact .inl ⟨rfl, rfl⟩

theorem statusAfterBatch_validate {b : Batch} {previous : Option Status} (hb : b.validate = true)
    (hp : ∀ p ∈ previous, p.validate = true) : (statusAfterBatch b previous).validate = true := by
  have hsound := b.sound hb
  have hunobserved : b.observes = false → ∀ f, f ≠ .current →
      (b.collectionState = .notRun → f = .unknown) →
        Outcome b.supportState b.collectionState f b.reasonCode.isSome := by
    intro hobs f hf hnone
    have hnotOk := hsound.unobserved hobs
    rw [hsound.reason hnotOk]
    cases hc : b.collectionState with
    | ok => exact absurd hc hnotOk
    | incomplete =>
      rw [hsound.incomplete hc]
      exact .incomplete f
    | failed => exact .failed (hsound.failed hc) hf
    | notRun =>
      rw [hnone hc]
      exact .notRun (hsound.notRun hc)
  rw [Status.validate_iff]
  rcases statusAfterBatch_cases b previous with ⟨hobs, heq⟩ | ⟨hobs, heq⟩ |
    ⟨hobs, hrun, p, o, rfl, ho, hle, heq⟩ <;> rw [heq]
  · refine ⟨?_, by simp, by simpa using hsound.started, by simpa using hsound.started, ?_⟩
    · rcases hsound.observed hobs with hc | hc
      · have := hsound.ok hc
        simp only [hc, this.1, this.2, Option.isSome_none]
        exact .ok (by decide)
      · simp only [hc, hsound.incomplete hc, hsound.reason (by simp [hc])]
        exact .incomplete _
    · intro c hc
      dsimp only at hc ⊢
      split_ifs at hc
      · obtain rfl := Option.some.inj hc
        exact ⟨hsound.started, _, rfl, le_rfl⟩
      · obtain ⟨hc, hle⟩ := Option.mem_filter_iff.1 hc
        obtain ⟨p, hpm, hcm⟩ := Option.bind_eq_some_iff.1 hc
        exact ⟨((Status.validate_iff.1 (hp p hpm)).2.coverage c hcm).1, _, rfl,
          of_decide_eq_true hle⟩
  · exact ⟨hunobserved hobs .unknown (by decide) fun _ => rfl, Status.timed_unknown hsound.started⟩
  · exact ⟨hunobserved hobs .stale (by decide) fun hc => absurd hc hrun,
      (Status.validate_iff.1 (hp p rfl)).2.stale ho hle hsound.started⟩

/-! ## After a failure of the store -/

/-- The support state that `recordStorageFailure` records. -/
def failureSupport (previous : Option Status) : Option Batch → SupportState
  | some attempted => if attempted.supportState = .supported then .supported else .unavailable
  | none => if previous.any (·.supportState = .supported) then .supported else .unavailable

/-- The status that `recordStorageFailure` records. -/
def storageFailureStatus (previous : Option Status) (attemptedAt : Instant)
    (attempted : Option Batch) : Status :=
  match (previous.bind (·.observedAt)).filter (· ≤ attemptedAt) with
  | some observed =>
    { supportState := failureSupport previous attempted
      collectionState := .failed
      freshness := .stale
      observedAt := some observed
      attemptedAt := some attemptedAt
      coverageThrough := previous.bind (·.coverageThrough)
      reasonCode := some .logStorageUnavailable }
  | none =>
    { supportState := failureSupport previous attempted
      collectionState := .failed
      freshness := .unknown
      observedAt := none
      attemptedAt := some attemptedAt
      coverageThrough := none
      reasonCode := some .logStorageUnavailable }

/-- A status that a failure of the store leaves. -/
structure Status.StorageFailure (s : Status) : Prop where
  support : s.supportState = .supported ∨ s.supportState = .unavailable
  collection : s.collectionState = .failed
  reason : s.reasonCode = some .logStorageUnavailable
  freshness : s.freshness ≠ .current

theorem Status.StorageFailure.outcome (h : s.StorageFailure) :
    Outcome s.supportState s.collectionState s.freshness s.reasonCode.isSome := by
  rw [h.collection, h.reason]
  exact .failed h.support h.freshness

theorem Status.StorageFailure.source (h : s.StorageFailure) :
    validateSourceStatus s = true := by
  rcases h.support with hs | hs <;> simp [validateSourceStatus, hs, h.collection, h.reason]

theorem failureSupport_cases (previous : Option Status) (attempted : Option Batch) :
    failureSupport previous attempted = .supported ∨
      failureSupport previous attempted = .unavailable := by
  cases attempted <;> rw [failureSupport] <;> split_ifs <;> simp

theorem storageFailureStatus_storageFailure (previous : Option Status) (attemptedAt : Instant)
    (attempted : Option Batch) :
    (storageFailureStatus previous attemptedAt attempted).StorageFailure := by
  have hsupport := failureSupport_cases previous attempted
  rw [storageFailureStatus]
  split
  · exact ⟨hsupport, rfl, rfl, by simp⟩
  · exact ⟨hsupport, rfl, rfl, by simp⟩

theorem storageFailureStatus_validate {previous : Option Status} {attemptedAt : Instant}
    (attempted : Option Batch) (hat : ClockReading attemptedAt)
    (hp : ∀ p ∈ previous, p.validate = true) :
    (storageFailureStatus previous attemptedAt attempted).validate = true := by
  rw [Status.validate_iff]
  refine ⟨(storageFailureStatus_storageFailure ..).outcome, ?_⟩
  rw [storageFailureStatus]
  rcases observed_before_cases previous attemptedAt with hnone | ⟨p, o, rfl, ho, hle, hsome⟩
  · rw [hnone]
    exact Status.timed_unknown hat
  · rw [hsome]
    exact (Status.validate_iff.1 (hp p rfl)).2.stale ho hle hat

/-! ## The overlay of a failure -/

def statusAttemptIsAfter (candidate durable : Status) : Bool :=
  candidate.attemptedAt.any fun attempted => durable.attemptedAt.all (· < attempted)

/-- The later time, where one of the two may be missing. -/
def laterTime : Option Instant → Option Instant → Option Instant
  | none, right => right
  | some left, none => some left
  | some left, some right => if left < right then some right else some left

def mergeStorageOverlay (stored overlay : Status) : Status :=
  let result :=
    if stored.observedAt.any fun observed => overlay.observedAt.all (· < observed) then
      { overlay with observedAt := stored.observedAt, freshness := .stale }
    else overlay
  if stored.coverageThrough.any fun coverage =>
      result.coverageThrough.all (· < coverage) && result.observedAt.any (coverage ≤ ·) then
    { result with coverageThrough := stored.coverageThrough }
  else result

/-- A later observation, up to the attempt, keeps the times in order. -/
theorem Status.Timed.observeLater (h : s.Timed) (ho : ClockReading o)
    (hattempted : ∃ a ∈ s.attemptedAt, o ≤ a) (hlater : ∀ o' ∈ s.observedAt, o' ≤ o) :
    Status.Timed { s with observedAt := some o, freshness := .stale } := by
  refine ⟨by simp, h.attempted, ?_, ?_⟩
  · intro o' ho'
    obtain rfl := Option.some.inj ho'
    exact ⟨ho, hattempted⟩
  · intro c hc
    obtain ⟨hread, o', ho', hle⟩ := h.coverage c hc
    exact ⟨hread, o, rfl, hle.trans (hlater o' ho')⟩

theorem Status.Timed.coverLater (h : s.Timed) {c : Instant} (hc : ClockReading c)
    (hobserved : ∃ o ∈ s.observedAt, c ≤ o) :
    Status.Timed { s with coverageThrough := some c } := by
  refine ⟨h.known, h.attempted, h.observed, fun c' hc' => ?_⟩
  obtain rfl := Option.some.inj hc'
  exact ⟨hc, hobserved⟩

/-- The observation of a stored status before the attempt of the overlay. -/
theorem overlay_observed {stored overlay : Status} (hstored : stored.Timed)
    (hafter : statusAttemptIsAfter overlay stored = true) (ho : stored.observedAt = some o) :
    ClockReading o ∧ ∃ a ∈ overlay.attemptedAt, o ≤ a := by
  obtain ⟨hread, a, ha, hle⟩ := hstored.observed o ho
  cases hattempted : overlay.attemptedAt with
  | none => simp [statusAttemptIsAfter, hattempted] at hafter
  | some a' =>
    have hlt : a < a' := by simpa [statusAttemptIsAfter, hattempted, Option.mem_def.1 ha] using hafter
    exact ⟨hread, a', rfl, hle.trans hlt.le⟩

/-- An overlay that is later than a stored status in order gives a status in order. -/
theorem mergeStorageOverlay_validate {stored overlay : Status} (hstored : stored.validate = true)
    (hoverlay : overlay.validate = true) (hfailure : overlay.StorageFailure)
    (hafter : statusAttemptIsAfter overlay stored = true) :
    (mergeStorageOverlay stored overlay).validate = true ∧
      (mergeStorageOverlay stored overlay).StorageFailure := by
  obtain ⟨-, htimed⟩ := Status.validate_iff.1 hstored
  have hresult : ∀ {r : Status}, r.Timed → r.StorageFailure →
      r.validate = true ∧ r.StorageFailure :=
    fun ht hf => ⟨Status.validate_iff.2 ⟨hf.outcome, ht⟩, hf⟩
  -- the observation of the stored status first, its coverage then
  have hobserved : ∃ r : Status, r.Timed ∧ r.StorageFailure ∧
      mergeStorageOverlay stored overlay =
        if stored.coverageThrough.any fun coverage =>
            r.coverageThrough.all (· < coverage) && r.observedAt.any (coverage ≤ ·) then
          { r with coverageThrough := stored.coverageThrough }
        else r := by
    by_cases hlater : (stored.observedAt.any fun observed =>
        overlay.observedAt.all (· < observed)) = true
    · cases ho : stored.observedAt with
      | none => simp [ho] at hlater
      | some o =>
        obtain ⟨hread, hattempted⟩ := overlay_observed htimed hafter ho
        refine ⟨{ overlay with observedAt := some o, freshness := .stale },
          (Status.validate_iff.1 hoverlay).2.observeLater hread hattempted fun o' ho' => ?_,
          ⟨hfailure.support, hfailure.collection, hfailure.reason, by simp⟩, ?_⟩
        · simp only [ho, Option.any_some, Option.mem_def.1 ho', Option.all_some,
            decide_eq_true_eq] at hlater
          exact hlater.le
        · rw [mergeStorageOverlay, if_pos hlater, ho]
    · exact ⟨overlay, (Status.validate_iff.1 hoverlay).2, hfailure, by
        rw [mergeStorageOverlay, if_neg hlater]⟩
  obtain ⟨r, hr, hf, heq⟩ := hobserved
  rw [heq]
  split_ifs with hcover
  · cases hc : stored.coverageThrough with
    | none => simp [hc] at hcover
    | some c =>
      simp only [hc, Option.any_some, Bool.and_eq_true] at hcover
      refine hresult (hr.coverLater (htimed.coverage c hc).1 ?_)
        ⟨hf.support, hf.collection, hf.reason, hf.freshness⟩
      cases ho : r.observedAt with
      | none => simp [ho] at hcover
      | some o => exact ⟨o, rfl, by simpa [ho] using hcover.2⟩
  · exact hresult hr hf

/-! ## Both sources together -/

def aggregateSupport (left right : Status) : SupportState :=
  if left.supportState = .supported || right.supportState = .supported then .supported
  else if left.supportState = right.supportState then left.supportState
  else .unavailable

def aggregateCollection (support : SupportState) (left right : Status) : CollectionState :=
  if support = .supported then
    if left.supportState ≠ .supported || right.supportState ≠ .supported ||
        left.collectionState ≠ right.collectionState then .incomplete
    else left.collectionState
  else if left.collectionState = .failed || right.collectionState = .failed then .failed
  else .notRun

def aggregateFreshness (left right : Status) : Freshness :=
  if left.observedAt = none && right.observedAt = none then .unknown
  else if (left.observedAt ≠ none && left.freshness = .stale) ||
      (right.observedAt ≠ none && right.freshness = .stale) then .stale
  else .current

def sameOutcome (left right : Status) : Bool :=
  left.supportState = right.supportState && left.collectionState = right.collectionState &&
    left.reasonCode = right.reasonCode

/-- The status over two sources. -/
def aggregated (left right : Status) : Status :=
  let support := aggregateSupport left right
  let collection := aggregateCollection support left right
  let freshness := aggregateFreshness left right
  { supportState := support
    collectionState := collection
    freshness := freshness
    observedAt :=
      if freshness = .unknown then none else laterTime left.observedAt right.observedAt
    attemptedAt := laterTime left.attemptedAt right.attemptedAt
    coverageThrough :=
      if freshness = .unknown then none else laterTime left.coverageThrough right.coverageThrough
    reasonCode :=
      if collection = .ok then none
      else if collection = .incomplete || !sameOutcome left right then some .sourcePartial
      else left.reasonCode }

def aggregateStatus (statuses : List Status) : Option Status :=
  if maxSources < statuses.length || !statuses.all Status.validate then none
  else
    match statuses with
    | [] => some ⟨.disabled, .notRun, .unknown, none, none, none, some .logSourcesDisabled⟩
    | [status] =>
      let result := if status.collectionState = .incomplete then
          { status with reasonCode := some .sourcePartial } else status
      if result.validate then some result else none
    | left :: right :: _ =>
      let result := aggregated left right
      if result.validate then some result else none

theorem mem_laterTime {left right : Option Instant} :
    t ∈ laterTime left right → t ∈ left ∨ t ∈ right := by
  cases left <;> cases right <;> simp only [laterTime] <;> intro h
  · exact .inr h
  · exact .inr h
  · exact .inl h
  · split_ifs at h
    · exact .inr h
    · exact .inl h

theorem exists_le_laterTime {left right : Option Instant}
    (h : (∃ a ∈ left, t ≤ a) ∨ ∃ a ∈ right, t ≤ a) : ∃ u ∈ laterTime left right, t ≤ u := by
  cases left with
  | none => exact h.resolve_left (by simp)
  | some l =>
    cases right with
    | none => exact h.resolve_right (by simp)
    | some r =>
      simp only [Option.mem_some_iff, exists_eq_left'] at h
      rw [laterTime]
      split_ifs with hlt
      · exact ⟨r, rfl, h.elim (fun h => h.trans hlt.le) id⟩
      · exact ⟨l, rfl, h.elim id fun h => h.trans (not_lt.1 hlt)⟩

theorem aggregateFreshness_unknown :
    aggregateFreshness left right = .unknown ↔ left.observedAt = none ∧ right.observedAt = none := by
  rw [aggregateFreshness]
  split_ifs with h1 h2
  · simpa using h1
  · simpa using h1
  · simpa using h1

theorem aggregated_timed (hl : left.Timed) (hr : right.Timed) :
    (aggregated left right).Timed := by
  have hobserved : ∀ o ∈ (aggregated left right).observedAt,
      o ∈ left.observedAt ∨ o ∈ right.observedAt := by
    intro o ho
    simp only [aggregated] at ho
    split_ifs at ho
    · cases ho
    · exact mem_laterTime ho
  refine ⟨?_, fun a ha => ?_, fun o ho => ?_, fun c hc => ?_⟩
  · simp only [aggregated]
    refine ⟨fun h => if_pos h, fun h => ?_⟩
    by_contra hne
    rw [if_neg hne] at h
    rw [aggregateFreshness_unknown] at hne
    cases hleft : left.observedAt <;> cases hright : right.observedAt <;>
      simp_all [laterTime]
    split_ifs at h
  · exact (mem_laterTime ha).elim (hl.attempted a) (hr.attempted a)
  · rcases hobserved o ho with h | h
    · exact (hl.observed o h).imp_right fun ha => exists_le_laterTime (.inl ha)
    · exact (hr.observed o h).imp_right fun ha => exists_le_laterTime (.inr ha)
  · simp only [aggregated] at hc ⊢
    split_ifs at hc ⊢
    · cases hc
    · rcases mem_laterTime hc with h | h
      · exact (hl.coverage c h).imp_right fun ho => exists_le_laterTime (.inl ho)
      · exact (hr.coverage c h).imp_right fun ho => exists_le_laterTime (.inr ho)

/-- Sources of which none is current are not current together. -/
theorem aggregateFreshness_ne_current (hl : left.Timed) (hr : right.Timed)
    (hlf : left.freshness ≠ .current) (hrf : right.freshness ≠ .current) :
    aggregateFreshness left right ≠ .current := by
  have hstale : ∀ {s : Status}, s.Timed → s.freshness ≠ .current → s.observedAt ≠ none →
      s.freshness = .stale := by
    intro s hs hf ho
    cases hfresh : s.freshness with
    | current => exact absurd hfresh hf
    | stale => rfl
    | unknown => exact absurd (hs.known.1 hfresh) ho
  rw [aggregateFreshness]
  split_ifs with h1 h2
  · simp
  · simp
  · simp only [Bool.and_eq_true, decide_eq_true_eq, not_and_or] at h1
    refine absurd ?_ h2
    rcases h1 with h | h
    · simp [h, hstale hl hlf h]
    · simp [h, hstale hr hrf h]

theorem Outcome.reason {s : SupportState} {c : CollectionState} (h : Outcome s c f r) (hc : c ≠ .ok) :
    r = true := by
  cases h with
  | ok => exact absurd rfl hc
  | incomplete | failed | notRun => rfl

theorem Outcome.of_ok {s : SupportState} (h : Outcome s .ok f r) :
    s = .supported ∧ f ≠ .unknown := by
  cases h with
  | ok hf => exact ⟨rfl, hf⟩

theorem Outcome.of_incomplete {s : SupportState} (h : Outcome s .incomplete f r) :
    s = .supported := by
  cases h
  rfl

theorem Outcome.of_failed {s : SupportState} (h : Outcome s .failed f r) : f ≠ .current := by
  cases h with
  | failed _ hf => exact hf

theorem Outcome.of_notRun {s : SupportState} (h : Outcome s .notRun f r) : s ≠ .supported := by
  cases h with
  | notRun hs => exact hs

/-- A source that is not supported failed, if it is unavailable, or did not run. -/
theorem Outcome.of_not_supported {s : SupportState} {c : CollectionState} (h : Outcome s c f r)
    (hs : s ≠ .supported) :
    f ≠ .current ∧ ((c = .failed ∧ s = .unavailable) ∨ (c = .notRun ∧ f = .unknown)) := by
  cases h with
  | ok | incomplete => exact absurd rfl hs
  | failed hs' hf => exact ⟨hf, .inl ⟨rfl, hs'.resolve_left hs⟩⟩
  | notRun => exact ⟨nofun, .inr ⟨rfl, rfl⟩⟩

theorem aggregated_reason
    (hl : Outcome left.supportState left.collectionState left.freshness left.reasonCode.isSome)
    (hc : left.collectionState ≠ .ok) (hagg : (aggregated left right).collectionState ≠ .ok) :
    (aggregated left right).reasonCode.isSome = true := by
  simp only [aggregated] at hagg ⊢
  rw [if_neg hagg]
  split_ifs
  · rfl
  · exact hl.reason hc

theorem aggregated_outcome (hl : left.validate = true) (hr : right.validate = true) :
    Outcome (aggregated left right).supportState (aggregated left right).collectionState
      (aggregated left right).freshness (aggregated left right).reasonCode.isSome := by
  obtain ⟨hlo, hlt⟩ := Status.validate_iff.1 hl
  obtain ⟨hro, hrt⟩ := Status.validate_iff.1 hr
  -- one supported source makes the aggregate supported; without one it failed or did not run
  by_cases hsupported : left.supportState = .supported ∨ right.supportState = .supported
  · have hsupport : aggregateSupport left right = .supported := by
      rw [aggregateSupport, if_pos (by simpa using hsupported)]
    by_cases hmixed : left.supportState ≠ .supported ∨ right.supportState ≠ .supported ∨
        left.collectionState ≠ right.collectionState
    · have hcollection : aggregateCollection .supported left right = .incomplete := by
        rw [aggregateCollection, if_pos rfl, if_pos (by simpa [or_assoc] using hmixed)]
      simp only [aggregated, hsupport, hcollection]
      exact .incomplete _
    · simp only [not_or, not_not] at hmixed
      obtain ⟨hls, hrs, hsame⟩ := hmixed
      have hcollection : aggregateCollection .supported left right = left.collectionState := by
        rw [aggregateCollection, if_pos rfl, if_neg (by simp [hls, hrs, hsame])]
      cases hc : left.collectionState with
      | ok =>
        rw [hc] at hlo hcollection
        have hobserved : aggregateFreshness left right ≠ .unknown := fun h =>
          hlo.of_ok.2 (hlt.known.2 (aggregateFreshness_unknown.1 h).1)
        simp only [aggregated, hsupport, hcollection]
        exact .ok hobserved
      | incomplete =>
        rw [hc] at hcollection
        simp only [aggregated, hsupport, hcollection]
        exact .incomplete _
      | failed =>
        rw [hc] at hcollection
        have hagg : (aggregated left right).collectionState = .failed := by
          simp only [aggregated, hsupport, hcollection]
        rw [aggregated_reason hlo (by simp [hc]) (by simp [hagg]), hagg]
        rw [hc] at hlo
        rw [← hsame, hc] at hro
        exact .failed (.inl hsupport)
          (aggregateFreshness_ne_current hlt hrt hlo.of_failed hro.of_failed)
      | notRun =>
        rw [hc] at hlo
        exact absurd hls hlo.of_notRun
  · obtain ⟨hls, hrs⟩ := not_or.1 hsupported
    have hsupport : aggregateSupport left right ≠ .supported := by
      rw [aggregateSupport, if_neg (by simpa using hsupported)]
      split_ifs
      · exact hls
      · simp
    obtain ⟨hlcurrent, hleft⟩ := hlo.of_not_supported hls
    obtain ⟨hrcurrent, hright⟩ := hro.of_not_supported hrs
    have hnotOk : left.collectionState ≠ .ok := by
      rcases hleft with ⟨hc, -⟩ | ⟨hc, -⟩ <;> simp [hc]
    by_cases hfailed : left.collectionState = .failed ∨ right.collectionState = .failed
    · have hagg : (aggregated left right).collectionState = .failed := by
        simp only [aggregated, aggregateCollection]
        rw [if_neg hsupport, if_pos (by simpa using hfailed)]
      have hunavailable : aggregateSupport left right = .unavailable := by
        rw [aggregateSupport, if_neg (by simpa using hsupported)]
        split_ifs with heq
        · rcases hfailed with hc | hc
          · exact (hleft.resolve_right (by simp [hc])).2
          · exact heq.trans (hright.resolve_right (by simp [hc])).2
        · rfl
      rw [aggregated_reason hlo hnotOk (by simp [hagg]), hagg]
      exact .failed (.inr hunavailable)
        (aggregateFreshness_ne_current hlt hrt hlcurrent hrcurrent)
    · have hagg : (aggregated left right).collectionState = .notRun := by
        simp only [aggregated, aggregateCollection]
        rw [if_neg hsupport, if_neg (by simpa using hfailed)]
      obtain ⟨hlf, hrf⟩ := not_or.1 hfailed
      have hfreshness : aggregateFreshness left right = .unknown :=
        aggregateFreshness_unknown.2 ⟨hlt.known.1 (hleft.resolve_left fun h => hlf h.1).2,
          hrt.known.1 (hright.resolve_left fun h => hrf h.1).2⟩
      rw [aggregated_reason hlo hnotOk (by simp [hagg]), hagg,
        show (aggregated left right).freshness = .unknown from hfreshness]
      exact .notRun hsupport

/-- **At most two statuses in order have an aggregate, which is in order.** -/
theorem aggregateStatus_validate {statuses : List Status} (hlen : statuses.length ≤ maxSources)
    (h : ∀ s ∈ statuses, s.validate = true) :
    ∃ s, aggregateStatus statuses = some s ∧ s.validate = true := by
  have hcheck : ¬(maxSources < statuses.length || !statuses.all Status.validate) = true := by
    simpa [hlen] using h
  unfold aggregateStatus
  rw [if_neg hcheck]
  match statuses with
  | [] => exact ⟨_, rfl, by decide⟩
  | [status] =>
    have hvalid : (if status.collectionState = .incomplete then
        { status with reasonCode := some .sourcePartial } else status).validate = true := by
      obtain ⟨ho, ht⟩ := Status.validate_iff.1 (h status (by simp))
      split_ifs with hc
      · refine Status.validate_iff.2 ⟨?_, ht.known, ht.attempted, ht.observed, ht.coverage⟩
        rw [hc] at ho
        simp only [hc, ho.of_incomplete]
        exact .incomplete _
      · exact h status (by simp)
    dsimp only
    rw [if_pos hvalid]
    exact ⟨_, rfl, hvalid⟩
  | left :: right :: _ =>
    have hl := h left (by simp)
    have hr := h right (by simp)
    have hvalid : (aggregated left right).validate = true :=
      Status.validate_iff.2 ⟨aggregated_outcome hl hr,
        aggregated_timed (Status.validate_iff.1 hl).2 (Status.validate_iff.1 hr).2⟩
    dsimp only
    rw [if_pos hvalid]
    exact ⟨_, rfl, hvalid⟩

/-! ## What the aggregate says -/

/-- The latest of the times that are there. -/
def latest (times : List (Option Instant)) : Option Instant := (times.filterMap id).max?

theorem laterTime_eq_latest (left right : Option Instant) :
    laterTime left right = latest [left, right] := by
  cases left with
  | none => cases right <;> rfl
  | some l =>
    cases right with
    | none => rfl
    | some r =>
      show (if l < r then some r else some l) = some (max l r)
      split_ifs with h
      · rw [max_eq_right h.le]
      · rw [max_eq_left (not_lt.1 h)]

theorem laterTime_comm (left right : Option Instant) : laterTime left right = laterTime right left := by
  cases left <;> cases right <;> simp only [laterTime]
  rename_i l r
  split_ifs with h1 h2 h2
  · exact absurd h1 h2.not_gt
  · rfl
  · rfl
  · rw [le_antisymm (not_lt.1 h1) (not_lt.1 h2)]

theorem aggregateFreshness_comm (left right : Status) :
    aggregateFreshness left right = aggregateFreshness right left := by
  simp only [aggregateFreshness, Bool.and_comm, Bool.or_comm]

theorem aggregateSupport_comm (left right : Status) :
    aggregateSupport left right = aggregateSupport right left := by
  unfold aggregateSupport
  rw [Bool.or_comm]
  by_cases h : left.supportState = right.supportState
  · rw [h]
  · rw [if_neg h, if_neg (Ne.symm h)]

theorem aggregateCollection_comm (support : SupportState) (left right : Status) :
    aggregateCollection support left right = aggregateCollection support right left := by
  unfold aggregateCollection
  rw [Bool.or_comm (decide (left.collectionState = .failed))]
  by_cases h : left.collectionState = right.collectionState
  · rw [h, Bool.or_comm (decide (left.supportState ≠ .supported))]
  · rw [decide_eq_true h, decide_eq_true (Ne.symm h), Bool.or_true, Bool.or_true, if_pos rfl,
      if_pos rfl]

theorem sameOutcome_iff :
    sameOutcome left right = true ↔ left.supportState = right.supportState ∧
      left.collectionState = right.collectionState ∧ left.reasonCode = right.reasonCode := by
  simp only [sameOutcome, Bool.and_eq_true, decide_eq_true_eq, and_assoc]

/-- The reason that two sources share is that of either. -/
theorem aggregated_comm (left right : Status) : aggregated left right = aggregated right left := by
  have hreason (collection : CollectionState) :
      (if collection = .ok then none
        else if collection = .incomplete || !sameOutcome left right then some .sourcePartial
        else left.reasonCode) =
      (if collection = .ok then none
        else if collection = .incomplete || !sameOutcome right left then some .sourcePartial
        else right.reasonCode) := by
    by_cases hsame : sameOutcome left right = true
    · obtain ⟨h1, h2, h3⟩ := sameOutcome_iff.1 hsame
      rw [hsame, sameOutcome_iff.2 ⟨h1.symm, h2.symm, h3.symm⟩, h3]
    · have hother : ¬ sameOutcome right left = true := by
        rw [sameOutcome_iff]
        rintro ⟨h1, h2, h3⟩
        exact hsame (sameOutcome_iff.2 ⟨h1.symm, h2.symm, h3.symm⟩)
      rw [Bool.not_eq_true] at hsame hother
      simp only [hsame, hother, Bool.not_false, Bool.or_true, if_true]
  simp only [aggregated, aggregateSupport_comm left right, aggregateCollection_comm _ left right,
    aggregateFreshness_comm left right, laterTime_comm left.observedAt,
    laterTime_comm left.attemptedAt, laterTime_comm left.coverageThrough, hreason]

theorem aggregated_ok_iff (hl : left.validate = true) (hr : right.validate = true) :
    (aggregated left right).collectionState = .ok ↔
      left.collectionState = .ok ∧ right.collectionState = .ok := by
  have hsupported {s : Status} (hs : s.validate = true) (hok : s.collectionState = .ok) :
      s.supportState = .supported := by
    obtain ⟨ho, -⟩ := Status.validate_iff.1 hs
    rw [hok] at ho
    exact ho.of_ok.1
  show aggregateCollection (aggregateSupport left right) left right = .ok ↔ _
  constructor
  · intro h
    unfold aggregateCollection at h
    split_ifs at h with hsupport hmixed
    simp only [Bool.or_eq_true, decide_eq_true_eq, not_or, not_not] at hmixed
    exact ⟨h, hmixed.2 ▸ h⟩
  · rintro ⟨hlo, hro⟩
    have h1 := hsupported hl hlo
    have h2 := hsupported hr hro
    simp [aggregateCollection, aggregateSupport, h1, h2, hlo, hro]

theorem aggregateFreshness_current :
    aggregateFreshness left right = .current ↔
      (left.observedAt ≠ none ∨ right.observedAt ≠ none) ∧
        (left.observedAt ≠ none → left.freshness ≠ .stale) ∧
        (right.observedAt ≠ none → right.freshness ≠ .stale) := by
  unfold aggregateFreshness
  split_ifs with hnone hstale
  · simp only [Bool.and_eq_true, decide_eq_true_eq] at hnone
    simp [hnone]
  · simp only [Bool.or_eq_true, Bool.and_eq_true, decide_eq_true_eq] at hstale
    refine iff_of_false (by decide) ?_
    rintro ⟨-, h1, h2⟩
    rcases hstale with ⟨ho, hf⟩ | ⟨ho, hf⟩
    · exact h1 ho hf
    · exact h2 ho hf
  · simp only [Bool.and_eq_true, Bool.or_eq_true, decide_eq_true_eq, not_and_or, not_or] at hnone hstale
    refine iff_of_true rfl ⟨hnone, fun ho hf => ?_, fun ho hf => ?_⟩
    · exact hstale.1.elim (fun h => h ho) fun h => h hf
    · exact hstale.2.elim (fun h => h ho) fun h => h hf

theorem aggregated_times (hl : left.Timed) (hr : right.Timed) :
    (aggregated left right).observedAt = laterTime left.observedAt right.observedAt ∧
      (aggregated left right).coverageThrough =
        laterTime left.coverageThrough right.coverageThrough := by
  have hcovered {s : Status} (hs : s.Timed) (ho : s.observedAt = none) :
      s.coverageThrough = none := by
    cases hc : s.coverageThrough with
    | none => rfl
    | some c =>
      obtain ⟨-, o, h, -⟩ := hs.coverage c hc
      rw [ho] at h
      cases h
  simp only [aggregated]
  split_ifs with hunknown
  · obtain ⟨h1, h2⟩ := aggregateFreshness_unknown.1 hunknown
    rw [h1, h2, hcovered hl h1, hcovered hr h2]
    exact ⟨rfl, rfl⟩
  · exact ⟨rfl, rfl⟩

/-- What an aggregate has to say of the statuses. -/
structure Summarizes (statuses : List Status) (result : Status) : Prop where
  ok : result.collectionState = .ok ↔ ∀ s ∈ statuses, s.collectionState = .ok
  current : result.freshness = .current ↔ (∃ s ∈ statuses, s.observedAt ≠ none) ∧
    ∀ s ∈ statuses, s.observedAt ≠ none → s.freshness ≠ .stale
  attempted : result.attemptedAt = latest (statuses.map Status.attemptedAt)
  observed : result.observedAt = latest (statuses.map Status.observedAt)
  covered : result.coverageThrough = latest (statuses.map Status.coverageThrough)

theorem latest_single (time : Option Instant) : latest [time] = time := by
  cases time <;> rfl

theorem summarizes_single (h : s.validate = true) (reason : Option ReasonCode) :
    Summarizes [s] { s with reasonCode := reason } := by
  obtain ⟨-, ht⟩ := Status.validate_iff.1 h
  refine ⟨by simp, ?_, ?_, ?_, ?_⟩
  · simp only [List.mem_singleton, exists_eq_left, forall_eq]
    constructor
    · intro hf
      refine ⟨fun ho => ?_, fun _ hs => ?_⟩
      · exact absurd (ht.known.2 ho) (by rw [hf]; decide)
      · rw [hf] at hs
        cases hs
    · rintro ⟨ho, hs⟩
      cases hf : s.freshness with
      | current => rfl
      | stale => exact absurd hf (hs ho)
      | unknown => exact absurd (ht.known.1 hf) ho
  · exact (latest_single _).symm
  · exact (latest_single _).symm
  · exact (latest_single _).symm

theorem summarizes_pair (hl : left.validate = true) (hr : right.validate = true) :
    Summarizes [left, right] (aggregated left right) := by
  obtain ⟨hobserved, hcovered⟩ :=
    aggregated_times (Status.validate_iff.1 hl).2 (Status.validate_iff.1 hr).2
  refine ⟨?_, ?_, laterTime_eq_latest _ _, ?_, ?_⟩
  · rw [aggregated_ok_iff hl hr]
    simp
  · show aggregateFreshness left right = .current ↔ _
    rw [aggregateFreshness_current]
    simp
  · rw [hobserved]
    exact laterTime_eq_latest _ _
  · rw [hcovered]
    exact laterTime_eq_latest _ _

theorem perm_pair {α : Type} {a b : α} {l : List α} (h : l.Perm [a, b]) :
    l = [a, b] ∨ l = [b, a] := by
  match l, h.length_eq with
  | [x, y], _ =>
    rcases List.mem_pair.1 (h.mem_iff.1 (List.mem_cons_self ..)) with rfl | rfl
    · rw [List.perm_singleton.1 ((List.perm_cons x).1 h)]
      exact Or.inl rfl
    · rw [List.perm_singleton.1 ((List.perm_cons x).1 (h.trans (List.Perm.swap x a [])))]
      exact Or.inr rfl

/-- **The aggregate does not depend on the order and is never better than the statuses.** -/
theorem aggregateStatus_summarizes (statuses : List Status) (hne : statuses ≠ [])
    (hlen : statuses.length ≤ maxSources) (h : ∀ s ∈ statuses, s.validate = true) :
    ∃ result, aggregateStatus statuses = some result ∧ result.validate = true ∧
      (∀ other : List Status, other.Perm statuses → aggregateStatus other = some result) ∧
      Summarizes statuses result := by
  obtain ⟨result, hresult, hvalid⟩ := aggregateStatus_validate hlen h
  have hcheck : ¬(maxSources < statuses.length || !statuses.all Status.validate) = true := by
    simpa [hlen] using h
  have hvalue := hresult
  unfold aggregateStatus at hvalue
  rw [if_neg hcheck] at hvalue
  refine ⟨result, hresult, hvalid, ?_⟩
  match statuses with
  | [] => exact absurd rfl hne
  | [status] =>
    have hs := h status (List.mem_singleton_self _)
    dsimp only at hvalue
    split_ifs at hvalue with hincomplete hpartial
    · cases hvalue
      exact ⟨fun other hp => List.perm_singleton.1 hp ▸ hresult, summarizes_single hs _⟩
    · cases hvalue
      exact ⟨fun other hp => List.perm_singleton.1 hp ▸ hresult, summarizes_single hs _⟩
  | [left, right] =>
    have hl := h left (by simp)
    have hr := h right (by simp)
    dsimp only at hvalue
    split_ifs at hvalue
    cases hvalue
    refine ⟨fun other hp => ?_, summarizes_pair hl hr⟩
    rcases perm_pair hp with rfl | rfl
    · exact hresult
    · rw [aggregateStatus, if_neg (by simp [hl, hr, maxSources])]
      dsimp only
      rw [aggregated_comm right left, if_pos hvalid]
  | _ :: _ :: _ :: rest =>
    simp only [List.length_cons, maxSources] at hlen
    omega

/-- A source that was read completely and one that failed later. -/
def completeStatus : Status := ⟨.supported, .ok, .current, some 2000, some 3000, some 1000, none⟩

def failedStatus : Status :=
  ⟨.unavailable, .failed, .unknown, none, some 4000, none, some .readerFailed⟩

theorem aggregateStatus_summarizes_mixed :
    ∃ result, aggregateStatus [completeStatus, failedStatus] = some result ∧
      Summarizes [completeStatus, failedStatus] result := by
  obtain ⟨result, hresult, -, -, hsummary⟩ :=
    aggregateStatus_summarizes [completeStatus, failedStatus] (by decide) (by decide) (by decide)
  exact ⟨result, hresult, hsummary⟩

end LogObs

end HomeLab
