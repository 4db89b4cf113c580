/-
  Coverage evidence of a log source.

  A segment with an empty reason proves that the log was read completely; any
  other reason marks a gap.  `deriveLogCoverage` says what one attempt to read
  contributes, `mergeLogCoverage` lays contributions over older evidence.

  `mergeLogCoverage_spec`: the merge is pointwise.  At each instant of the
  window the strongest reason wins, and an empty one wins only over nothing.
-/
import Mathlib.Data.List.Sort
import Mathlib.Data.List.TakeWhile
import HomeLab.Lib.Fallible
import HomeLab.Lib.Segments
import HomeLab.LogObs.Batch

namespace HomeLab

namespace History

open LogObs Segment

def logRetention : Duration := 7 * day

/-- The first instant of the timestamps of logs. -/
def earliestLogTime : Instant := 1

def logRetentionFloor (now : Instant) (age : Duration) : Instant :=
  let floor := now - age
  if floor < earliestLogTime then earliestLogTime else floor

/-- `none` is the empty reason. -/
abbrev Reason := Option ReasonCode

abbrev LogCoverageSegment := Segment Instant Reason

inductive LogError where
  | coverage
  | revisionConflict
  | unavailable
  deriving DecidableEq, Repr

def validLogTime (t : Instant) : Bool := t ≠ 0 && 1 ≤ year t && year t ≤ 9999

variable {t left : Instant} {previous : Option Instant} {additions out : List LogCoverageSegment}
  {b : Batch}

theorem validLogTime_iff : validLogTime t = true ↔ ClockReading t := by
  rw [clockReading_iff]
  simp [validLogTime, and_assoc]

/-- The reasons a stored segment may have. -/
def validReason : Reason → Bool
  | none => true
  | some r => (historicalReasonRank r).isSome && r ≠ .notYetObserved

def validLogSegment (s : LogCoverageSegment) : Bool :=
  validLogTime s.start && validLogTime s.stop && s.start < s.stop && validReason s.label

theorem validLogSegment_iff {s : LogCoverageSegment} : validLogSegment s = true ↔
    ClockReading s.start ∧ ClockReading s.stop ∧ s.start < s.stop ∧ validReason s.label = true := by
  simp [validLogSegment, validLogTime_iff, and_assoc]

theorem logRetentionFloor_eq (now : Instant) (age : Duration) :
    logRetentionFloor now age = max (now - age) earliestLogTime := by
  rw [logRetentionFloor]
  split_ifs with h
  · exact (max_eq_right h.le).symm
  · exact (max_eq_left (not_lt.1 h)).symm

/-! ## Derivation -/

/-- The reason under which a gap is kept. -/
def gapReason : ReasonCode → ReasonCode
  | .noVisibleJournal | .logHelperUnavailable | .logHelperMismatch | .platformUnsupported =>
    .readerFailed
  | r => r

/-- Where the window of an attempt starts: at the attempt before it. -/
def attemptStart (previous : Option Instant) (q : Instant) : Instant :=
  match previous with
  | some previous => previous
  | none => q - 5 * minute

/-- What a batch contributes to the window from `start` to its query time. -/
def attemptSegments (previous : Option Instant) (b : Batch) (start : Instant) :
    Except LogError (List LogCoverageSegment) :=
  let q := b.queryStartedAt
  if b.kind = .normal && b.caughtUp then
    if previous.isSome && start < q - minute then
      .ok [⟨start, q - minute, some .missedCollection⟩, ⟨q - minute, q, none⟩]
    else .ok [⟨start, q, none⟩]
  else
    match b.reasonCode with
    | none => .error .coverage
    | some reason => .ok [⟨start, q, some (gapReason reason)⟩]

/-- The segments of an attempt, clipped to the retained week. -/
def attemptCoverage (previous : Option Instant) (b : Batch) :
    Except LogError (List LogCoverageSegment) :=
  let q := b.queryStartedAt
  let start := max (attemptStart previous q) (logRetentionFloor q logRetention)
  if !(start < q) then .ok []
  else do
    let out ← attemptSegments previous b start
    if out.all validLogSegment then .ok out else .error .coverage

def deriveLogCoverage (cp : Checkpoint) (b : Batch) : Except LogError (List LogCoverageSegment) :=
  if !b.validate then .error .coverage
  else if !(ReadRequest.mk b.source cp b.queryStartedAt).validate then .error .coverage
  else if cp.revision ≠ b.expectedRevision then .error .revisionConflict
  else if cp.resetPending && b.kind = .normal then .error .coverage
  else if !cp.resetPending && cp.opaqueData.length = 0 && b.kind ≠ .normal then .error .coverage
  else if b.events.any (b.queryStartedAt + 2 * second < ·.observedAt) then .error .coverage
  else if b.discards.any (b.queryStartedAt + 2 * second < ·.discardedAt) then .error .coverage
  else attemptCoverage cp.previousAttemptAt b

/-! ## Merging -/

def strongerLogReason : Reason → Reason → Bool
  | none, _ => false
  | some _, none => true
  | some candidate, some existing =>
    (historicalReasonRank candidate).getD 0 < (historicalReasonRank existing).getD 0

/-- The segments of `old` in the window; `previous` is the end of the segment
    before the next one. -/
def clipLogCoverage (floor stop : Instant) :
    Option Instant → List LogCoverageSegment → List LogCoverageSegment →
      Except LogError (List LogCoverageSegment)
  | _, [], current => .ok current
  | previous, s :: old, current =>
    if !validLogSegment s || previous.any (s.start < ·) then .error .coverage
    else
      let clipped := s.clip floor stop
      clipLogCoverage floor stop (some s.stop) old
        (if clipped.start < clipped.stop then push current clipped else current)

/-- The starts and ends of the segments, in order. -/
def segmentBounds (current : List LogCoverageSegment) (addition : LogCoverageSegment) :
    List Instant :=
  (current.flatMap (fun s => [s.start, s.stop]) ++ [addition.start, addition.stop]).insertionSort
    (· ≤ ·)

/-- The reason of the segment at `left`; `rest` are the segments that end after
    `left`. -/
def currentReason (left : Instant) : List LogCoverageSegment → Option Reason
  | s :: _ => if s.start ≤ left then some s.label else none
  | [] => none

/-- The reason chosen for a cell that starts at `left`. -/
def chosenReason (addition : LogCoverageSegment) (left : Instant)
    (rest : List LogCoverageSegment) : Option Reason :=
  if addition.start ≤ left && left < addition.stop then
    match currentReason left rest with
    | none => some addition.label
    | some existing =>
      if strongerLogReason addition.label existing then some addition.label else some existing
  else currentReason left rest

/-- One pass over the bounds; `rest` are the segments not yet passed. -/
def sweep (addition : LogCoverageSegment) :
    List Instant → List LogCoverageSegment → List LogCoverageSegment → List LogCoverageSegment
  | left :: right :: bounds, rest, merged =>
    if !(left < right) then sweep addition (right :: bounds) rest merged
    else
      let rest := rest.dropWhile fun s => s.stop ≤ left
      sweep addition (right :: bounds) rest
        (match chosenReason addition left rest with
          | some reason => push merged ⟨left, right, reason⟩
          | none => merged)
  | _, _, merged => merged

def layLogCoverage (floor stop : Instant) :
    List LogCoverageSegment → List LogCoverageSegment → Except LogError (List LogCoverageSegment)
  | [], current => .ok current
  | addition :: additions, current =>
    if !validLogSegment addition then .error .coverage
    else
      let clipped := addition.clip floor stop
      layLogCoverage floor stop additions
        (if clipped.start < clipped.stop then
          sweep clipped (segmentBounds current clipped) current []
        else current)

def mergeLogCoverage (old additions : List LogCoverageSegment) (floor stop : Instant) :
    Except LogError (List LogCoverageSegment) :=
  if !validLogTime floor || !validLogTime stop || !(floor < stop) ||
      logRetention < timeSub stop floor || maxCoverageSegmentsPerCommit < additions.length then
    .error .coverage
  else do
    let current ← clipLogCoverage floor stop none old []
    layLogCoverage floor stop additions current

/-! ## The merge, instant by instant -/

/-- The strongest of what is known and what is added; an addition without a
    reason fills only what is unknown. -/
def overlay : Option Reason → Option Reason → Option Reason
  | existing, none => existing
  | none, some reason => some reason
  | some existing, some reason =>
    if strongerLogReason reason existing then some reason else some existing

/-- Ordered segments of the window. -/
structure InWindow (floor stop : Instant) (l : List LogCoverageSegment) : Prop where
  ordered : Ordered l
  within : ∀ s ∈ l, floor ≤ s.start ∧ s.stop ≤ stop ∧ validReason s.label = true

variable {floor stop : Instant} {l : List LogCoverageSegment} {s : LogCoverageSegment}

theorem InWindow.nil : InWindow floor stop [] := ⟨.nil, by simp⟩

theorem InWindow.push (h : InWindow floor stop l) (hs : s.start < s.stop)
    (hl : ∀ a ∈ l, a.stop ≤ s.start)
    (hw : floor ≤ s.start ∧ s.stop ≤ stop ∧ validReason s.label = true) :
    InWindow floor stop (push l s) :=
  ⟨h.ordered.push hs hl, mem_push (P := fun a b r => floor ≤ a ∧ b ≤ stop ∧ validReason r = true)
    h.within hw fun a ha _ _ => ⟨(h.within a ha).1, hw.2.1, (h.within a ha).2.2⟩⟩

theorem stop_le_push (hl : ∀ a ∈ l, a.stop ≤ t) (hs : s.stop ≤ t) :
    ∀ a ∈ push l s, a.stop ≤ t :=
  mem_push (P := fun _ b _ => b ≤ t) hl hs fun _ _ _ _ => hs

/-! ### The sweep -/

variable {current rest merged : List LogCoverageSegment} {addition : LogCoverageSegment}

theorem currentReason_eq (hord : Ordered rest) (hhead : ∀ s ∈ rest.head?, left < s.stop) :
    currentReason left rest = lookup rest left := by
  cases rest with
  | nil => rfl
  | cons s rest =>
    have hs : left < s.stop := hhead s rfl
    rw [lookup_cons, currentReason]
    by_cases hle : s.start ≤ left
    · rw [if_pos hle, if_pos (show s.Contains left from ⟨hle, hs⟩)]
    · have hnone : lookup rest left = none := by
        refine lookup_eq_none.2 fun a ha hc => ?_
        have hsa : s.stop ≤ a.start := (List.pairwise_cons.1 hord.apart).1 a ha
        exact absurd (hs.trans_le (hsa.trans hc.1)) (lt_irrefl _)
      rw [if_neg hle, if_neg fun hc => hle hc.1, hnone]

theorem chosenReason_eq (hord : Ordered rest) (hhead : ∀ s ∈ rest.head?, left < s.stop) :
    chosenReason addition left rest = overlay (lookup rest left) (lookup [addition] left) := by
  have hiff : (decide (addition.start ≤ left) && decide (left < addition.stop)) = true ↔
      addition.Contains left := by simp [Contains]
  rw [chosenReason, currentReason_eq hord hhead, lookup_singleton]
  simp only [hiff]
  split_ifs
  · cases lookup rest left <;> rfl
  · cases lookup rest left <;> rfl

/-- A chosen reason is the reason of a segment. -/
theorem of_overlay {P : Reason → Prop} {reason : Reason} (hcur : ∀ s ∈ current, P s.label)
    (hadd : P addition.label) (h : overlay (lookup current t) (lookup [addition] t) = some reason) :
    P reason := by
  have hex : ∀ {r}, lookup current t = some r → P r := fun hr => by
    obtain ⟨s, hs, _, rfl⟩ := exists_of_lookup hr
    exact hcur s hs
  have hnew : ∀ {r}, lookup [addition] t = some r → P r := fun hr => by
    obtain ⟨s, hs, _, rfl⟩ := exists_of_lookup hr
    rwa [List.mem_singleton.1 hs]
  cases hc : lookup current t with
  | none =>
    cases ha : lookup [addition] t with
    | none => simp [overlay, hc, ha] at h
    | some r =>
      rw [hc, ha, overlay, Option.some.injEq] at h
      exact h ▸ hnew ha
  | some e =>
    cases ha : lookup [addition] t with
    | none =>
      rw [hc, ha, overlay, Option.some.injEq] at h
      exact h ▸ hex hc
    | some r =>
      rw [hc, ha, overlay] at h
      split_ifs at h
      · exact Option.some.inj h ▸ hnew ha
      · exact Option.some.inj h ▸ hex hc

/-- What holds of a sweep that has reached `left`. -/
structure Swept (floor stop : Instant) (current : List LogCoverageSegment)
    (addition : LogCoverageSegment) (left : Instant) (rest merged : List LogCoverageSegment) :
    Prop where
  passed : ∃ passed, current = passed ++ rest ∧ ∀ s ∈ passed, s.stop ≤ left
  window : InWindow floor stop merged
  before : ∀ s ∈ merged, s.stop ≤ left
  done : ∀ t < left, lookup merged t = overlay (lookup current t) (lookup [addition] t)

/-- One cell of the sweep. -/
theorem Swept.step {right : Instant} (h : Swept floor stop current addition left rest merged)
    (hord : Ordered current) (hlt : left < right) (hleft : floor ≤ left) (hright : right ≤ stop)
    (hbounds : ∀ s ∈ addition :: current, (s.start ≤ left ∨ right ≤ s.start) ∧ (s.stop ≤ left ∨
      right ≤ s.stop)) (hreason : ∀ s ∈ addition :: current, validReason s.label = true) :
    Swept floor stop current addition right (rest.dropWhile fun s => s.stop ≤ left)
      (match chosenReason addition left (rest.dropWhile fun s => s.stop ≤ left) with
        | some reason => push merged ⟨left, right, reason⟩
        | none => merged) := by
  obtain ⟨passed, hsplit, hpassed⟩ := h.passed
  set rest' := rest.dropWhile fun s => s.stop ≤ left with hrest'
  have hsplit' : current = (passed ++ rest.takeWhile fun s => decide (s.stop ≤ left)) ++ rest' := by
    rw [hsplit, List.append_assoc, hrest', List.takeWhile_append_dropWhile]
  have hpassed' : ∀ s ∈ passed ++ rest.takeWhile (fun s => decide (s.stop ≤ left)), s.stop ≤ left := by
    intro s hs
    rcases List.mem_append.1 hs with hs | hs
    · exact hpassed s hs
    · simpa using List.mem_takeWhile_imp hs
  have hord' : Ordered rest' := hord.sublist (hsplit' ▸ List.sublist_append_right _ _)
  have hhead : ∀ s ∈ rest'.head?, left < s.stop := by
    intro s hs
    have := List.head?_dropWhile_not (fun s : LogCoverageSegment => decide (s.stop ≤ left)) rest
    rw [← hrest', Option.mem_def.1 hs] at this
    simpa using this
  -- no bound lies inside the cell, so the reason at its left end is the reason throughout
  have hcell : ∀ t, left ≤ t → t < right → overlay (lookup current t) (lookup [addition] t) =
      chosenReason addition left rest' := by
    intro t h1 h2
    have hcur : lookup current t = lookup current left := lookup_congr fun s hs =>
      contains_congr (hbounds s (by simp [hs])).1 (hbounds s (by simp [hs])).2 h1 h2
    have hadd : lookup [addition] t = lookup [addition] left := lookup_congr fun s hs => by
      rw [List.mem_singleton.1 hs]
      exact contains_congr (hbounds addition (by simp)).1 (hbounds addition (by simp)).2 h1 h2
    have hpass : lookup current left = lookup rest' left := by
      conv_lhs => rw [hsplit', lookup_append, lookup_eq_none_of_stop_le hpassed', Option.none_or]
    rw [chosenReason_eq hord' hhead, hcur, hadd, hpass]
  have hpassed : ∃ passed, current = passed ++ rest' ∧ ∀ s ∈ passed, s.stop ≤ right :=
    ⟨_, hsplit', fun s hs => (hpassed' s hs).trans hlt.le⟩
  have hempty : ∀ t, left ≤ t → lookup merged t = none := fun t ht =>
    lookup_eq_none_of_stop_le fun s hs => (h.before s hs).trans ht
  cases hc : chosenReason addition left rest' with
  | none =>
    refine ⟨hpassed, h.window, fun s hs => (h.before s hs).trans hlt.le, fun t ht => ?_⟩
    rcases lt_or_ge t left with hl | hl
    · exact h.done t hl
    · rw [hcell t hl ht, hc, hempty t hl]
  | some reason =>
    have hvalid : validReason reason = true := by
      have := hcell left le_rfl hlt
      rw [hc] at this
      exact of_overlay (P := fun r => validReason r = true) (fun s hs => hreason s (by simp [hs]))
        (hreason addition (by simp)) this
    have hs : (⟨left, right, reason⟩ : LogCoverageSegment).start < right := hlt
    refine ⟨hpassed, h.window.push hs h.before ⟨hleft, hright, hvalid⟩,
      stop_le_push (fun s hs => (h.before s hs).trans hlt.le) le_rfl, fun t ht => ?_⟩
    dsimp only
    rw [lookup_push h.window.ordered hs h.before]
    rcases lt_or_ge t left with hl | hl
    · rw [if_neg fun hc => absurd hc.1 (not_le.2 hl), h.done t hl]
    · rw [if_pos ⟨hl, ht⟩, hcell t hl ht, hc]

/-- The sweep over sorted bounds that hold the starts and ends after `left`. -/
theorem Swept.run {bounds : List Instant} (h : Swept floor stop current addition left rest merged)
    (hord : Ordered current) (hsorted : (left :: bounds).Pairwise (· ≤ ·))
    (hin : ∀ p ∈ left :: bounds, floor ≤ p ∧ p ≤ stop) (hbounds : ∀ s ∈ addition :: current,
      (s.start ≤ left ∨ s.start ∈ bounds) ∧ (s.stop ≤ left ∨ s.stop ∈ bounds))
    (hreason : ∀ s ∈ addition :: current, validReason s.label = true) :
    InWindow floor stop (sweep addition (left :: bounds) rest merged) ∧
    ∀ t, lookup (sweep addition (left :: bounds) rest merged) t =
      overlay (lookup current t) (lookup [addition] t) := by
  induction bounds generalizing left rest merged with
  | nil =>
    refine ⟨h.window, fun t => ?_⟩
    rcases lt_or_ge t left with hl | hl
    · exact h.done t hl
    · have hstop : ∀ s ∈ addition :: current, s.stop ≤ t := fun s hs =>
        ((hbounds s hs).2.resolve_right (by simp)).trans hl
      have hcur : lookup current t = none :=
        lookup_eq_none_of_stop_le fun s hs => hstop s (List.mem_cons_of_mem _ hs)
      have hadd : lookup [addition] t = none :=
        lookup_eq_none_of_stop_le fun s hs => hstop s (by simp [List.mem_singleton.1 hs])
      rw [hcur, hadd]
      exact lookup_eq_none_of_stop_le fun s hs => (h.before s hs).trans hl
  | cons right bounds ih =>
    obtain ⟨hle, hsorted'⟩ := List.pairwise_cons.1 hsorted
    have hmin : ∀ p ∈ right :: bounds, right ≤ p := fun p hp => by
      rcases List.mem_cons.1 hp with rfl | hp
      · exact le_rfl
      · exact (List.pairwise_cons.1 hsorted').1 p hp
    have hin' : ∀ p ∈ right :: bounds, floor ≤ p ∧ p ≤ stop := fun p hp =>
      hin p (List.mem_cons_of_mem _ hp)
    have hnext : ∀ p : Instant, p ≤ left ∨ p ∈ right :: bounds → p ≤ right ∨ p ∈ bounds := by
      rintro p (hp | hp)
      · exact Or.inl (hp.trans (hle right (by simp)))
      · rcases List.mem_cons.1 hp with rfl | hp
        · exact Or.inl le_rfl
        · exact Or.inr hp
    have hbounds' : ∀ s ∈ addition :: current, (s.start ≤ right ∨ s.start ∈ bounds) ∧
        (s.stop ≤ right ∨ s.stop ∈ bounds) := fun s hs =>
      ⟨hnext _ (hbounds s hs).1, hnext _ (hbounds s hs).2⟩
    rw [sweep]
    split_ifs with hlt
    · have heq : left = right :=
        le_antisymm (hle right (by simp)) (by simpa using hlt)
      exact ih (heq ▸ h) hsorted' hin' hbounds'
    · have hlt' : left < right := by simpa using hlt
      -- no segment starts or stops inside of the cell from `left` to `right`
      refine ih (h.step hord hlt' (hin left (by simp)).1 (hin' right (by simp)).2 ?_ hreason)
        hsorted' hin' hbounds'
      exact fun s hs => ⟨(hbounds s hs).1.imp_right (hmin _), (hbounds s hs).2.imp_right (hmin _)⟩

theorem mem_segmentBounds {p : Instant} : p ∈ segmentBounds current addition ↔
    ∃ s ∈ addition :: current, p = s.start ∨ p = s.stop := by
  simp only [segmentBounds, List.mem_insertionSort, List.mem_append, List.mem_flatMap,
    List.mem_cons, List.not_mem_nil, or_false, exists_eq_or_imp]
  exact or_comm

/-- A whole sweep lays the addition over the segments. -/
theorem sweep_spec (hcur : InWindow floor stop current) (hproper : addition.start < addition.stop)
    (hadd : floor ≤ addition.start ∧ addition.stop ≤ stop ∧ validReason addition.label = true) :
    InWindow floor stop (sweep addition (segmentBounds current addition) current []) ∧
    ∀ t, lookup (sweep addition (segmentBounds current addition) current []) t =
      overlay (lookup current t) (lookup [addition] t) := by
  have hall : ∀ s ∈ addition :: current, s.start < s.stop ∧
      floor ≤ s.start ∧ s.stop ≤ stop ∧ validReason s.label = true := by
    intro s hs
    rcases List.mem_cons.1 hs with rfl | hs
    · exact ⟨hproper, hadd⟩
    · exact ⟨hcur.ordered.proper s hs, hcur.within s hs⟩
  have hsorted : (segmentBounds current addition).Pairwise (· ≤ ·) :=
    List.pairwise_insertionSort _ _
  cases hb : segmentBounds current addition with
  | nil =>
    have : addition.start ∈ segmentBounds current addition :=
      mem_segmentBounds.2 ⟨addition, by simp, Or.inl rfl⟩
    simp [hb] at this
  | cons left bounds =>
    have hmem : ∀ {p}, p ∈ left :: bounds ↔ ∃ s ∈ addition :: current, p = s.start ∨ p = s.stop :=
      fun {p} => by rw [← hb]; exact mem_segmentBounds
    rw [hb] at hsorted
    have hmin : ∀ p ∈ left :: bounds, left ≤ p := fun p hp => by
      rcases List.mem_cons.1 hp with rfl | hp
      · exact le_rfl
      · exact (List.pairwise_cons.1 hsorted).1 p hp
    have hsplit : ∀ p ∈ left :: bounds, p ≤ left ∨ p ∈ bounds := fun p hp =>
      (List.mem_cons.1 hp).imp_left le_of_eq
    -- nothing starts before the first bound
    have hinit : Swept floor stop current addition left current [] := by
      refine ⟨⟨[], rfl, by simp⟩, .nil, by simp, fun t ht => ?_⟩
      have hnone : ∀ l' : List LogCoverageSegment, (∀ s ∈ l', s ∈ addition :: current) →
          lookup l' t = none := fun l' hl' => lookup_eq_none.2 fun s hs hc =>
        absurd (ht.trans_le (hmin _ (hmem.2 ⟨s, hl' s hs, Or.inl rfl⟩))) (not_lt.2 hc.1)
      rw [hnone current fun s hs => List.mem_cons_of_mem _ hs,
        hnone [addition] fun s hs => by simp [List.mem_singleton.1 hs]]
      rfl
    refine hinit.run hcur.ordered hsorted ?_ ?_ fun s hs => (hall s hs).2.2.2
    · intro p hp
      obtain ⟨s, hs, rfl | rfl⟩ := hmem.1 hp
      · exact ⟨(hall s hs).2.1, (hall s hs).1.le.trans (hall s hs).2.2.1⟩
      · exact ⟨(hall s hs).2.1.trans (hall s hs).1.le, (hall s hs).2.2.1⟩
    · intro s hs
      exact ⟨hsplit _ (hmem.2 ⟨s, hs, Or.inl rfl⟩), hsplit _ (hmem.2 ⟨s, hs, Or.inr rfl⟩)⟩

/-! ### The whole merge -/

theorem clipLogCoverage_spec {old : List LogCoverageSegment}
    (hvalid : ∀ s ∈ old, validLogSegment s = true) (hord : Ordered old)
    (hprevious : ∀ p ∈ previous, ∀ s ∈ old, p ≤ s.start) (hcur : InWindow floor stop current)
    (hbefore : ∀ a ∈ current, ∀ s ∈ old, a.stop ≤ s.start) :
    ∃ result, clipLogCoverage floor stop previous old current = .ok result ∧
      InWindow floor stop result ∧
      ∀ t, lookup result t =
        (lookup current t).or (if floor ≤ t ∧ t < stop then lookup old t else none) := by
  induction old generalizing previous current with
  | nil => exact ⟨current, rfl, hcur, fun t => by simp [lookup]⟩
  | cons s old ih =>
    have hs := hvalid s (by simp)
    have hreason : validReason s.label = true := (validLogSegment_iff.1 hs).2.2.2
    have hprev : previous.any (fun p => decide (s.start < p)) = false := by
      cases previous with
      | none => rfl
      | some p => simpa using hprevious p rfl s (by simp)
    have hcheck : ¬(!validLogSegment s || previous.any (fun p => decide (s.start < p))) = true := by
      simp [hs, hprev]
    have hafter : ∀ a ∈ old, s.stop ≤ a.start := (List.pairwise_cons.1 hord.apart).1
    have hnext : ∀ p ∈ some s.stop, ∀ a ∈ old, p ≤ a.start := fun p hp a ha =>
      Option.mem_some_iff.1 hp ▸ hafter a ha
    have hbefore' : ∀ a ∈ current, a.stop ≤ (s.clip floor stop).start := fun a ha =>
      (hbefore a ha s (by simp)).trans (le_max_left _ _)
    rw [clipLogCoverage, if_neg hcheck]
    dsimp only
    have hlook : ∀ t, (if floor ≤ t ∧ t < stop then lookup (s :: old) t else none) =
        if (s.clip floor stop).Contains t then some s.label
        else if floor ≤ t ∧ t < stop then lookup old t else none := by
      intro t
      rw [lookup_cons]
      by_cases hw : floor ≤ t ∧ t < stop
      · simp only [contains_clip, hw, and_true, if_true]
      · simp only [contains_clip, hw, and_false, if_false]
    by_cases hc : (s.clip floor stop).start < (s.clip floor stop).stop
    · rw [if_pos hc]
      have hwin : InWindow floor stop (push current (s.clip floor stop)) :=
        hcur.push hc hbefore' ⟨le_max_right _ _, min_le_right _ _, hreason⟩
      obtain ⟨result, hr, hwin', hl⟩ := ih (fun a ha => hvalid a (by simp [ha])) hord.tail
        hnext hwin
        fun a ha b hb => stop_le_push
          (fun c hc' => hbefore c hc' b (by simp [hb]))
          ((min_le_left _ _).trans (hafter b hb)) a ha
      refine ⟨result, hr, hwin', fun t => ?_⟩
      rw [hl, hlook, lookup_push hcur.ordered hc hbefore']
      by_cases ht : (s.clip floor stop).Contains t
      · have hnone : lookup current t = none := lookup_eq_none_of_stop_le fun a ha =>
          (hbefore' a ha).trans ht.1
        rw [if_pos ht, if_pos ht, hnone, Option.none_or, Option.some_or]
        rfl
      · rw [if_neg ht, if_neg ht]
    · rw [if_neg hc]
      obtain ⟨result, hr, hwin', hl⟩ := ih (fun a ha => hvalid a (by simp [ha])) hord.tail
        hnext hcur
        fun a ha b hb => hbefore a ha b (by simp [hb])
      refine ⟨result, hr, hwin', fun t => ?_⟩
      have hno : ¬(s.clip floor stop).Contains t := fun ht => hc ht.proper
      rw [hl, hlook, if_neg hno]

theorem layLogCoverage_spec (hvalid : ∀ a ∈ additions, validLogSegment a = true)
    (hcur : InWindow floor stop current) :
    ∃ result, layLogCoverage floor stop additions current = .ok result ∧
      InWindow floor stop result ∧
      ∀ t, floor ≤ t → t < stop → lookup result t =
        additions.foldl (fun known a => overlay known (lookup [a] t)) (lookup current t) := by
  induction additions generalizing current with
  | nil => exact ⟨current, rfl, hcur, fun t _ _ => rfl⟩
  | cons a additions ih =>
    have ha := hvalid a (by simp)
    have hvalid' : ∀ b ∈ additions, validLogSegment b = true := fun b hb => hvalid b (by simp [hb])
    have hclip : ∀ t, floor ≤ t → t < stop →
        lookup [a.clip floor stop] t = lookup [a] t := fun t h1 h2 => by
      simp only [lookup_singleton, contains_clip, h1, h2, and_self, and_true]
      rfl
    rw [layLogCoverage, if_neg (by simp [ha])]
    dsimp only
    by_cases hc : (a.clip floor stop).start < (a.clip floor stop).stop
    · rw [if_pos hc]
      obtain ⟨hwin, hl⟩ := sweep_spec hcur hc
        ⟨le_max_right _ _, min_le_right _ _, (validLogSegment_iff.1 ha).2.2.2⟩
      obtain ⟨result, hr, hwin', hl'⟩ := ih hvalid' hwin
      refine ⟨result, hr, hwin', fun t h1 h2 => ?_⟩
      rw [hl' t h1 h2, hl t, hclip t h1 h2, List.foldl_cons]
    · rw [if_neg hc]
      obtain ⟨result, hr, hwin', hl⟩ := ih hvalid' hcur
      refine ⟨result, hr, hwin', fun t h1 h2 => ?_⟩
      have hnone : lookup [a] t = none := by
        rw [← hclip t h1 h2, lookup_singleton, if_neg fun ht => hc ht.proper]
      rw [hl t h1 h2, List.foldl_cons, hnone, overlay]

/-- Additions that follow each other are laid over the rest in one go. -/
theorem foldl_overlay (hord : Ordered additions) (t : Instant) (known : Option Reason) :
    additions.foldl (fun known a => overlay known (lookup [a] t)) known =
      overlay known (lookup additions t) := by
  induction additions generalizing known with
  | nil => rfl
  | cons a additions ih =>
    rw [List.foldl_cons, ih hord.tail, lookup_singleton, lookup_cons]
    by_cases ha : a.Contains t
    · have hnone : lookup additions t = none := lookup_eq_none.2 fun b hb hc =>
        absurd (ha.2.trans_le (((List.pairwise_cons.1 hord.apart).1 b hb).trans hc.1)) (lt_irrefl _)
      rw [if_pos ha, if_pos ha, hnone]
      rfl
    · rw [if_neg ha, if_neg ha]
      rfl

/-- **The merge is pointwise.**  Ordered evidence and valid additions merge without
    failure, and each instant of the window keeps the stronger reason. -/
theorem mergeLogCoverage_spec {old : List LogCoverageSegment} (hfloor : ClockReading floor)
    (hstop : ClockReading stop) (hlt : floor < stop) (hspan : stop - floor ≤ logRetention)
    (hold : Ordered old) (holdv : ∀ s ∈ old, validLogSegment s = true)
    (haddv : ∀ s ∈ additions, validLogSegment s = true)
    (hlen : additions.length ≤ maxCoverageSegmentsPerCommit) :
    ∃ result, mergeLogCoverage old additions floor stop = .ok result ∧
      InWindow floor stop result ∧
      ∀ t, floor ≤ t → t < stop → lookup result t =
        additions.foldl (fun known a => overlay known (lookup [a] t)) (lookup old t) := by
  have hsub : timeSub stop floor ≤ logRetention :=
    max_le (by decide) ((min_le_right _ _).trans hspan)
  have hcheck : ¬(!validLogTime floor || !validLogTime stop || !(floor < stop) ||
      logRetention < timeSub stop floor || maxCoverageSegmentsPerCommit < additions.length) = true := by
    simp [validLogTime_iff.2 hfloor, validLogTime_iff.2 hstop, hlt, hsub, hlen]
  obtain ⟨current, hc, hwin, hl⟩ := clipLogCoverage_spec holdv hold
    (fun p (hp : p ∈ none) => absurd hp (by simp)) (InWindow.nil : InWindow floor stop [])
    (by simp)
  obtain ⟨result, hr, hwin', hl'⟩ := layLogCoverage_spec haddv hwin
  refine ⟨result, ?_, hwin', fun t h1 h2 => ?_⟩
  · rw [mergeLogCoverage, if_neg hcheck, hc]
    exact hr
  · rw [hl' t h1 h2, hl t, if_pos ⟨h1, h2⟩]
    rfl

theorem InWindow.valid (h : InWindow floor stop l) (hfloor : ClockReading floor)
    (hstop : ClockReading stop) : ∀ s ∈ l, validLogSegment s = true := by
  intro s hs
  obtain ⟨h1, h2, h3⟩ := h.within s hs
  have hlt := h.ordered.proper s hs
  exact validLogSegment_iff.2 ⟨⟨hfloor.1.trans_le h1, (hlt.trans_le h2).trans hstop.2⟩,
    ⟨(hfloor.1.trans_le h1).trans hlt, h2.trans_lt hstop.2⟩, hlt, h3⟩

/-! ### Attempts -/

/-- What an attempt says about an instant: nothing outside its window; inside,
    that it was read, that it was missed, or why it could not be read. -/
def attemptReason (previous : Option Instant) (b : Batch) (t : Instant) : Option Reason :=
  if attemptStart previous b.queryStartedAt ≤ t ∧ t < b.queryStartedAt then
    if b.kind = .normal && b.caughtUp then
      some (if previous.isSome && t < b.queryStartedAt - minute then some .missedCollection
        else none)
    else some (b.reasonCode.map gapReason)
  else none

/-- The segments of an attempt that is in order. -/
structure Derived (cp : Checkpoint) (b : Batch) (out : List LogCoverageSegment) : Prop where
  valid : b.validate = true
  request : (ReadRequest.mk b.source cp b.queryStartedAt).validate = true
  revision : cp.revision = b.expectedRevision
  pending : cp.resetPending = true → b.kind ≠ .normal
  fresh : cp.resetPending = false → cp.opaqueData = [] → b.kind = .normal
  events : ∀ e ∈ b.events, e.observedAt ≤ b.queryStartedAt + 2 * second
  discards : ∀ d ∈ b.discards, d.discardedAt ≤ b.queryStartedAt + 2 * second
  ordered : Ordered out
  segments : ∀ s ∈ out, validLogSegment s = true
  length : out.length ≤ maxCoverageSegmentsPerCommit
  label : ∀ t, logRetentionFloor b.queryStartedAt logRetention ≤ t →
    lookup out t = attemptReason cp.previousAttemptAt b t

theorem attemptSegments_spec {start : Instant} (h : attemptSegments previous b start = .ok out)
    (hstart : start < b.queryStartedAt) :
    Ordered out ∧ out.length ≤ maxCoverageSegmentsPerCommit ∧
    ∀ t, lookup out t = if start ≤ t ∧ t < b.queryStartedAt then
      if b.kind = .normal && b.caughtUp then
        some (if previous.isSome && t < b.queryStartedAt - minute then some .missedCollection
          else none)
      else some (b.reasonCode.map gapReason)
    else none := by
  have hone : ∀ label : Reason, Ordered [(⟨start, b.queryStartedAt, label⟩ : LogCoverageSegment)] :=
    fun label => ⟨by simpa using hstart, by simp⟩
  rw [attemptSegments] at h
  split_ifs at h with hnormal hmissed
  · obtain rfl := Except.ok.inj h
    have hsome : previous.isSome = true := (Bool.and_eq_true_iff.1 hmissed).1
    have hlt : start < b.queryStartedAt - minute :=
      of_decide_eq_true (Bool.and_eq_true_iff.1 hmissed).2
    have hmin : b.queryStartedAt - minute < b.queryStartedAt := sub_lt_self _ (by decide)
    refine ⟨⟨by simp [hlt, hmin], by simp⟩, by simp [maxCoverageSegmentsPerCommit], fun t => ?_⟩
    rw [lookup_cons, lookup_singleton, if_pos hnormal, hsome]
    simp only [Contains, Bool.true_and, decide_eq_true_eq]
    by_cases h1 : t < b.queryStartedAt - minute
    · have h2 : t < b.queryStartedAt := h1.trans hmin
      simp [h1, h2, not_le.2 h1]
    · have h2 : start ≤ t := hlt.le.trans (not_lt.1 h1)
      simp [h1, h2, not_lt.1 h1]
  · obtain rfl := Except.ok.inj h
    refine ⟨hone _, by simp [maxCoverageSegmentsPerCommit], fun t => ?_⟩
    rw [lookup_singleton, if_pos hnormal]
    by_cases hw : start ≤ t ∧ t < b.queryStartedAt
    · have hlast : ¬(previous.isSome && decide (t < b.queryStartedAt - minute)) = true := by
        simp only [Bool.and_eq_true, decide_eq_true_eq, not_and] at hmissed ⊢
        intro hp ht
        exact hmissed hp (hw.1.trans_lt ht)
      rw [if_pos hw, if_neg hlast]
      exact if_pos hw
    · rw [if_neg hw]
      exact if_neg hw
  · cases hr : b.reasonCode with
    | none => simp [hr] at h
    | some reason =>
      rw [hr] at h
      obtain rfl := Except.ok.inj h
      refine ⟨hone _, by simp [maxCoverageSegmentsPerCommit], fun t => ?_⟩
      rw [lookup_singleton, if_neg hnormal]
      rfl

theorem attemptCoverage_spec (h : attemptCoverage previous b = .ok out) :
    Ordered out ∧ (∀ s ∈ out, validLogSegment s = true) ∧
    out.length ≤ maxCoverageSegmentsPerCommit ∧
    ∀ t, logRetentionFloor b.queryStartedAt logRetention ≤ t →
      lookup out t = attemptReason previous b t := by
  rw [attemptCoverage] at h
  set start := max (attemptStart previous b.queryStartedAt)
    (logRetentionFloor b.queryStartedAt logRetention) with hstart
  have hwindow : ∀ t, logRetentionFloor b.queryStartedAt logRetention ≤ t →
      (attemptStart previous b.queryStartedAt ≤ t ↔ start ≤ t) := fun t ht => by
    simp [hstart, ht]
  by_cases hlt : start < b.queryStartedAt
  · rw [if_neg (by simp [hlt])] at h
    obtain ⟨segments, hs, h⟩ := bind_eq_ok.1 h
    split_ifs at h with hall
    obtain rfl := Except.ok.inj h
    obtain ⟨hord, hlen, hlabel⟩ := attemptSegments_spec hs hlt
    refine ⟨hord, List.all_eq_true.1 hall, hlen, fun t ht => ?_⟩
    simp only [hlabel, attemptReason, hwindow t ht]
  · rw [if_pos (by simpa using hlt)] at h
    obtain rfl := Except.ok.inj h
    refine ⟨.nil, by simp, by simp, fun t ht => ?_⟩
    have hout : ¬(attemptStart previous b.queryStartedAt ≤ t ∧ t < b.queryStartedAt) := by
      rw [hwindow t ht]
      exact fun ⟨h1, h2⟩ => hlt (h1.trans_lt h2)
    rw [attemptReason, if_neg hout]
    rfl

theorem deriveLogCoverage_ok {cp : Checkpoint} (h : deriveLogCoverage cp b = .ok out) :
    Derived cp b out := by
  rw [deriveLogCoverage] at h
  split_ifs at h with hvalid hrequest hrevision hpending hfresh hevents hdiscards
  obtain ⟨hord, hsegments, hlen, hlabel⟩ := attemptCoverage_spec h
  exact
    { valid := by simpa using hvalid
      request := by simpa using hrequest
      revision := by simpa using hrevision
      pending := by simpa using hpending
      fresh := by simpa using hfresh
      events := by simpa using hevents
      discards := by simpa using hdiscards
      ordered := hord
      segments := hsegments
      length := hlen
      label := hlabel }

end History

end HomeLab
