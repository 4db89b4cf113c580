/-
  What coverage evidence says about one bucket of a summary.

  `projectLogCoverage` counts the whole seconds of a bucket that are proved
  covered.  Every positive segment is rounded inward after neighbours have been
  coalesced, so the count is the number of seconds all of whose instants are
  positive (`projectLogCoverage_counts_seconds`); a gap of any length keeps its
  second out of it.
-/
import HomeLab.Lib.Cells
import HomeLab.History.Merging
import HomeLab.LogObs.Summary

namespace HomeLab

namespace History

open LogObs Segment

/-! ## Projection -/

/-- The strongest reason and the covered time so far. -/
structure Projected where
  reason : ReasonCode
  covered : Duration
  deriving DecidableEq, Repr

/-- One segment of the coalesced evidence. -/
def projectSegment (start stop : Instant) (p : Projected) (s : LogCoverageSegment) : Projected :=
  let left := if s.start < start then start else s.start
  let right := if stop < s.stop then stop else s.stop
  match s.label with
  | some reason =>
    if strongerLogReason (some reason) (some p.reason) then { p with reason := reason } else p
  | none =>
    let left := if nanosecond left ≠ 0 then left + (second - nanosecond left) else left
    let right := right - nanosecond right
    if left < right then { p with covered := p.covered + timeSub right left } else p

/-- The bucket for the time from `start` to `stop`. -/
def projectedBucket (start stop : Instant) (p : Projected) : SummaryBucket :=
  let coveredSeconds := (p.covered / second).toNat % 2 ^ 32
  if p.covered = timeSub stop start then ⟨start, .full, coveredSeconds, none, some {}⟩
  else if 0 < p.covered then ⟨start, .incomplete, coveredSeconds, some p.reason, some {}⟩
  else if p.reason ≠ .notYetObserved then ⟨start, .gap, coveredSeconds, some p.reason, none⟩
  else ⟨start, .unknown, coveredSeconds, some p.reason, none⟩

def projectLogCoverage (segments : List LogCoverageSegment) (start stop : Instant) :
    Except LogError SummaryBucket :=
  if !validLogTime start || !validLogTime stop || nanosecond start ≠ 0 || nanosecond stop ≠ 0 ||
      !(start < stop) || hour < timeSub stop start then .error .coverage
  else do
    let coalesced ← mergeLogCoverage segments [] start stop
    .ok (projectedBucket start stop
      (coalesced.foldl (projectSegment start stop) ⟨.notYetObserved, 0⟩))

/-! ## What a bucket says -/

/-- All instants are proved covered. -/
def PositiveAt (segments : List LogCoverageSegment) (t : Instant) : Prop :=
  ∃ s ∈ segments, s.label = none ∧ s.Contains t

/-- The seconds of the bucket all of whose instants are positive. -/
def coveredCells (segments : List LogCoverageSegment) (start stop : Instant) : Set ℤ :=
  {k | start ≤ k * second ∧ (k + 1) * second ≤ stop ∧
    ∀ t, k * second ≤ t → t < (k + 1) * second → PositiveAt segments t}

/-- The segment is a gap with the reason and has an instant in the bucket. -/
def GapMeets (segments : List LogCoverageSegment) (start stop : Instant) (r : ReasonCode) : Prop :=
  ∃ s ∈ segments, s.label = some r ∧ ∃ t, start ≤ t ∧ t < stop ∧ s.Contains t

/-- The reason takes precedence over all gaps that meet the bucket. -/
def LeadingGap (segments : List LogCoverageSegment) (start stop : Instant) (r : ReasonCode) : Prop :=
  (GapMeets segments start stop r ∧
    ∀ q, GapMeets segments start stop q → Outranks (some r) (some q)) ∨
  (r = .notYetObserved ∧ ∀ q, ¬GapMeets segments start stop q)

/-! ## The fold over the coalesced evidence -/

section
variable {start stop : Instant} {l : List LogCoverageSegment}

theorem le_roundUp (t : Instant) : t ≤ roundUp second t := by
  rw [roundUp]
  split_ifs
  · have := Int.emod_lt_of_pos t (b := second) (by decide)
    linarith
  · exact le_rfl

theorem roundDown_le (t : Instant) : roundDown second t ≤ t := by
  have := Int.emod_nonneg t (b := second) (by decide)
  rw [roundDown]
  linarith

/-- A positive segment adds the length of the cells inside it. -/
theorem projectSegment_covered {s : LogCoverageSegment} (hstart : start ≤ s.start)
    (hstop : s.stop ≤ stop) (hspan : stop - start ≤ hour) (hlabel : s.label = none)
    (p : Projected) :
    (projectSegment start stop p s).covered = p.covered + (cellsIn second s).card * second := by
  rw [projectSegment, if_neg (not_lt.2 hstart), if_neg (not_lt.2 hstop), hlabel,
    card_cellsIn (by decide)]
  have hleft : (if nanosecond s.start ≠ 0 then s.start + (second - nanosecond s.start)
      else s.start) = roundUp second s.start := rfl
  have hright : s.stop - nanosecond s.stop = roundDown second s.stop := rfl
  simp only [hleft, hright]
  split_ifs with hlt
  · have hup := le_roundUp s.start
    have hdown := roundDown_le s.stop
    have hhour : hour ≤ maxDuration := by decide
    rw [timeSub_eq (by linarith) (by linarith)]
  · rw [add_zero]

/-- The covered time is the length of the cells inside positive segments. -/
theorem foldl_covered (hl : InWindow start stop l) (hspan : stop - start ≤ hour) (p : Projected) :
    (l.foldl (projectSegment start stop) p).covered =
      p.covered + (cells second none l).card * second := by
  induction l generalizing p with
  | nil => simp [cells]
  | cons s l ih =>
    have htail : InWindow start stop l :=
      ⟨hl.ordered.tail, fun a ha => hl.within a (List.mem_cons_of_mem _ ha)⟩
    obtain ⟨hstart, hstop, -⟩ := hl.within s (by simp)
    rw [List.foldl_cons, ih htail]
    cases hlabel : s.label with
    | some r =>
      have hsame : cells second none (s :: l) = cells second none l := by
        rw [cells, if_neg (by simp [hlabel])]
      rw [hsame, projectSegment, hlabel]
      dsimp only
      split_ifs <;> rfl
    | none =>
      rw [projectSegment_covered hstart hstop hspan hlabel,
        card_cells_cons (by decide) hl.ordered hlabel]
      push_cast
      ring

/-- The reason is the strongest of those of the segments and the one before. -/
theorem foldl_reason (start stop : Instant) (l : List LogCoverageSegment) (p : Projected) :
    (∃ s ∈ l, s.label = some (l.foldl (projectSegment start stop) p).reason) ∨
      (l.foldl (projectSegment start stop) p).reason = p.reason := by
  induction l generalizing p with
  | nil => exact .inr rfl
  | cons s l ih =>
    rw [List.foldl_cons]
    rcases ih (projectSegment start stop p s) with ⟨a, ha, hlabel⟩ | heq
    · exact .inl ⟨a, List.mem_cons_of_mem _ ha, hlabel⟩
    · rw [heq, projectSegment]
      cases hs : s.label with
      | none =>
        dsimp only
        split_ifs <;> exact .inr rfl
      | some r =>
        dsimp only
        split_ifs
        · exact .inl ⟨s, by simp, hs⟩
        · exact .inr rfl

theorem projectSegment_outranks (start stop : Instant) (p : Projected) (s : LogCoverageSegment) :
    Outranks (some (projectSegment start stop p s).reason) (some p.reason) ∧
      ∀ r, s.label = some r → Outranks (some (projectSegment start stop p s).reason) (some r) := by
  rw [projectSegment]
  cases hs : s.label with
  | none =>
    dsimp only
    refine ⟨?_, fun r hr => nomatch hr⟩
    split_ifs <;> exact .refl _
  | some q =>
    dsimp only
    split_ifs with hstronger
    · refine ⟨outranks_of_stronger hstronger, fun r hr => ?_⟩
      rw [Option.some.inj hr]
      exact .refl _
    · refine ⟨.refl _, fun r hr => ?_⟩
      rw [← Option.some.inj hr]
      exact outranks_of_not_stronger (Bool.not_eq_true _ ▸ hstronger)

theorem foldl_outranks (start stop : Instant) (l : List LogCoverageSegment) (p : Projected) :
    Outranks (some (l.foldl (projectSegment start stop) p).reason) (some p.reason) ∧
      ∀ s ∈ l, ∀ r, s.label = some r →
        Outranks (some (l.foldl (projectSegment start stop) p).reason) (some r) := by
  induction l generalizing p with
  | nil => exact ⟨.refl _, by simp⟩
  | cons s l ih =>
    obtain ⟨hfirst, hrest⟩ := ih (projectSegment start stop p s)
    obtain ⟨hp, hs⟩ := projectSegment_outranks start stop p s
    refine ⟨hfirst.trans hp, fun a ha r hr => ?_⟩
    rcases List.mem_cons.1 ha with rfl | ha
    · exact hfirst.trans (hs r hr)
    · exact hrest a ha r hr

end

/-! ## The evidence and its coalesced form -/

section
variable {segments coalesced : List LogCoverageSegment} {start stop : Instant}

theorem lookup_coalesced (h : Merged segments [] start stop coalesced) (hordered : Ordered segments)
    (hvalid : ∀ s ∈ segments, validLogSegment s = true) {t : Instant} (h1 : start ≤ t)
    (h2 : t < stop) : lookup coalesced t = lookup segments t := by
  have hp := h.strongest t h1 h2
  rw [List.append_nil] at hp
  exact hp.unique (prevailing_lookup hordered t) (fun r => Iff.rfl)
    fun r hr => validReason_of_mem hvalid hr

theorem positiveAt_iff (hordered : Ordered segments) {t : Instant} :
    PositiveAt segments t ↔ lookup segments t = some none := by
  constructor
  · rintro ⟨s, hs, hlabel, ht⟩
    rw [hordered.lookup_eq hs ht, hlabel]
  · intro h
    obtain ⟨s, hs, ht, hlabel⟩ := exists_of_lookup h
    exact ⟨s, hs, hlabel, ht⟩

/-- The covered seconds are the cells inside the positive segments of the
    coalesced evidence. -/
theorem coveredCells_eq (h : Merged segments [] start stop coalesced) (hordered : Ordered segments)
    (hvalid : ∀ s ∈ segments, validLogSegment s = true) :
    coveredCells segments start stop = cells second none coalesced := by
  have hsecond : 0 < second := by decide
  ext k
  rw [Finset.mem_coe, mem_cells_iff_lookup hsecond h.window.ordered h.coalesced]
  constructor
  · rintro ⟨hk, hk', hall⟩ t h1 h2
    rw [lookup_coalesced h hordered hvalid (hk.trans h1) (h2.trans_le hk')]
    exact (positiveAt_iff hordered).1 (hall t h1 h2)
  · intro hall
    obtain ⟨s, hs, -, hk, hk'⟩ :=
      (mem_cells hsecond).1 ((mem_cells_iff_lookup hsecond h.window.ordered h.coalesced).2 hall)
    have hstart := (h.window.within s hs).1.trans hk
    have hstop := hk'.trans (h.window.within s hs).2.1
    refine ⟨hstart, hstop, fun t h1 h2 => (positiveAt_iff hordered).2 ?_⟩
    rw [← lookup_coalesced h hordered hvalid (hstart.trans h1) (h2.trans_le hstop)]
    exact hall t h1 h2

theorem gapMeets_iff (h : Merged segments [] start stop coalesced) (hordered : Ordered segments)
    (hvalid : ∀ s ∈ segments, validLogSegment s = true) {r : ReasonCode} :
    GapMeets segments start stop r ↔ ∃ s ∈ coalesced, s.label = some r := by
  constructor
  · rintro ⟨s, hs, hlabel, t, h1, h2, ht⟩
    have hl : lookup coalesced t = some (some r) := by
      rw [lookup_coalesced h hordered hvalid h1 h2, hordered.lookup_eq hs ht, hlabel]
    obtain ⟨a, ha, -, hr⟩ := exists_of_lookup hl
    exact ⟨a, ha, hr⟩
  · rintro ⟨s, hs, hlabel⟩
    have hproper := h.window.ordered.proper s hs
    have h1 := (h.window.within s hs).1
    have h2 := hproper.trans_le (h.window.within s hs).2.1
    have hl : lookup segments s.start = some (some r) := by
      rw [← lookup_coalesced h hordered hvalid h1 h2,
        h.window.ordered.lookup_eq hs ⟨le_rfl, hproper⟩, hlabel]
    obtain ⟨a, ha, ht, hr⟩ := exists_of_lookup hl
    exact ⟨a, ha, hr, s.start, h1, h2, ht⟩

/-- A reason of stored evidence is stronger than that of no evidence. -/
theorem rank_lt_notYetObserved {r : ReasonCode} (h : validReason (some r) = true) :
    ¬Outranks (some .notYetObserved) (some r) := by
  intro hle
  have hrank : 8 ≤ (historicalReasonRank r).getD 0 := hle
  cases r <;> first | exact absurd h (by decide) | exact absurd hrank (by decide)

/-- The reason of a projection is that of the leading gap. -/
theorem foldl_leadingGap (h : Merged segments [] start stop coalesced)
    (hordered : Ordered segments) (hvalid : ∀ s ∈ segments, validLogSegment s = true) (c : Duration) :
    LeadingGap segments start stop
      (coalesced.foldl (projectSegment start stop) ⟨.notYetObserved, c⟩).reason := by
  obtain ⟨-, hall⟩ := foldl_outranks start stop coalesced ⟨.notYetObserved, c⟩
  rcases foldl_reason start stop coalesced ⟨.notYetObserved, c⟩ with hgap | heq
  · refine .inl ⟨(gapMeets_iff h hordered hvalid).2 hgap, fun q hq => ?_⟩
    obtain ⟨s, hs, hlabel⟩ := (gapMeets_iff h hordered hvalid).1 hq
    exact hall s hs q hlabel
  · refine .inr ⟨heq, fun q hq => ?_⟩
    obtain ⟨s, hs, hlabel⟩ := (gapMeets_iff h hordered hvalid).1 hq
    have hle := hall s hs q hlabel
    rw [heq] at hle
    exact rank_lt_notYetObserved (hlabel ▸ (h.window.within s hs).2.2) hle

theorem LeadingGap.ne_notYetObserved {r : ReasonCode} (h : LeadingGap segments start stop r)
    (hvalid : ∀ s ∈ segments, validLogSegment s = true) :
    r ≠ .notYetObserved ↔ ∃ q, GapMeets segments start stop q := by
  rcases h with ⟨hmeets, -⟩ | ⟨rfl, hnone⟩
  · refine iff_of_true ?_ ⟨r, hmeets⟩
    rintro rfl
    obtain ⟨s, hs, hlabel, -⟩ := hmeets
    have hreason := (validLogSegment_iff.1 (hvalid s hs)).2.2.2
    rw [hlabel] at hreason
    exact absurd hreason (by decide)
  · exact iff_of_false (by simp) fun ⟨q, hq⟩ => hnone q hq

end

/-! ## Whole buckets -/

section
variable {segments coalesced : List LogCoverageSegment} {start stop : Instant}

/-- The seconds of a bucket. -/
noncomputable def bucketCells (start stop : Instant) : Finset ℤ :=
  cellsIn second (⟨start, stop, none⟩ : LogCoverageSegment)

theorem mem_bucketCells {k : ℤ} :
    k ∈ bucketCells start stop ↔ start ≤ k * second ∧ (k + 1) * second ≤ stop :=
  mem_cellsIn (by decide)

theorem card_bucketCells (hstart : nanosecond start = 0) (hstop : nanosecond stop = 0)
    (hlt : start < stop) : ((bucketCells start stop).card : ℤ) * second = stop - start := by
  have hup : roundUp second start = start := if_neg (not_not.2 hstart)
  have hdown : roundDown second stop = stop := by
    rw [roundDown, show stop % second = 0 from hstop, sub_zero]
  rw [bucketCells, card_cellsIn (by decide), hup, hdown, if_pos hlt]

/-- The second of an instant of a bucket is a second of the bucket. -/
theorem div_mem_bucketCells (hstart : nanosecond start = 0) (hstop : nanosecond stop = 0)
    {t : Instant} (h1 : start ≤ t) (h2 : t < stop) : t / second ∈ bucketCells start stop := by
  have hsecond : 0 < second := by decide
  obtain ⟨a, rfl⟩ : second ∣ start := Int.dvd_of_emod_eq_zero hstart
  obtain ⟨b, rfl⟩ : second ∣ stop := Int.dvd_of_emod_eq_zero hstop
  rw [mem_bucketCells, mul_comm second a, mul_comm second b]
  rw [mul_comm] at h1 h2
  refine ⟨mul_le_mul_of_nonneg_right ?_ hsecond.le, mul_le_mul_of_nonneg_right ?_ hsecond.le⟩
  · exact (Int.le_ediv_iff_mul_le hsecond).2 h1
  · exact Int.add_one_le_iff.2 ((Int.ediv_lt_iff_lt_mul hsecond).2 h2)

theorem cells_subset_bucketCells (h : Merged segments [] start stop coalesced) :
    cells second none coalesced ⊆ bucketCells start stop := by
  intro k hk
  obtain ⟨s, hs, -, hstart, hstop⟩ := (mem_cells (by decide)).1 hk
  exact mem_bucketCells.2 ⟨(h.window.within s hs).1.trans hstart,
    hstop.trans (h.window.within s hs).2.1⟩

/-- All seconds are covered if and only if all instants are positive. -/
theorem cells_eq_bucketCells_iff (h : Merged segments [] start stop coalesced)
    (hordered : Ordered segments) (hvalid : ∀ s ∈ segments, validLogSegment s = true)
    (hstart : nanosecond start = 0) (hstop : nanosecond stop = 0) :
    cells second none coalesced = bucketCells start stop ↔
      ∀ t, start ≤ t → t < stop → PositiveAt segments t := by
  have hcells : ∀ k, k ∈ cells second none coalesced ↔ k ∈ coveredCells segments start stop := by
    intro k
    rw [coveredCells_eq h hordered hvalid, Finset.mem_coe]
  constructor
  · intro heq t h1 h2
    have hmem := div_mem_bucketCells hstart hstop h1 h2
    rw [← heq, hcells] at hmem
    refine hmem.2.2 t (Int.ediv_mul_le t (by decide)) ?_
    exact Int.lt_ediv_add_one_mul_self t (by decide)
  · intro hall
    refine (cells_subset_bucketCells h).antisymm fun k hk => (hcells k).2 ?_
    obtain ⟨h1, h2⟩ := mem_bucketCells.1 hk
    exact ⟨h1, h2, fun t h3 h4 => hall t (h1.trans h3) (h4.trans_le h2)⟩

/-- What the bucket of a projection with `n` covered seconds is. -/
theorem projectedBucket_cases {p : Projected} {n total : ℕ} (hp : p.covered = n * second)
    (htotal : timeSub stop start = total * second) :
    (n = total ∧ (projectedBucket start stop p).coverageState = .full ∧
      (projectedBucket start stop p).reasonCode = none) ∨
    ((projectedBucket start stop p).reasonCode = some p.reason ∧
      ((n ≠ total ∧ 0 < n ∧ (projectedBucket start stop p).coverageState = .incomplete) ∨
      (n = 0 ∧ p.reason ≠ .notYetObserved ∧ (projectedBucket start stop p).coverageState = .gap) ∨
      (n = 0 ∧ p.reason = .notYetObserved ∧
        (projectedBucket start stop p).coverageState = .unknown))) := by
  have hsecond : 0 < second := by decide
  have hfull : p.covered = timeSub stop start ↔ n = total := by
    rw [hp, htotal, mul_left_inj' hsecond.ne', Nat.cast_inj]
  have hsome : 0 < p.covered ↔ 0 < n := by
    rw [hp, mul_pos_iff_of_pos_right hsecond, Nat.cast_pos]
  rw [projectedBucket]
  simp only [hfull, hsome]
  by_cases h1 : n = total
  · exact .inl ⟨h1, by rw [if_pos h1], by rw [if_pos h1]⟩
  · rw [if_neg h1]
    refine .inr ?_
    by_cases h2 : 0 < n
    · rw [if_pos h2]
      exact ⟨rfl, .inl ⟨h1, h2, rfl⟩⟩
    · rw [if_neg h2]
      have hzero : n = 0 := by omega
      by_cases h3 : p.reason ≠ .notYetObserved
      · rw [if_pos h3]
        exact ⟨rfl, .inr (.inl ⟨hzero, h3, rfl⟩)⟩
      · rw [if_neg h3]
        exact ⟨rfl, .inr (.inr ⟨hzero, not_not.1 h3, rfl⟩)⟩

theorem projectedBucket_coveredSeconds {p : Projected} {n : ℕ} (hp : p.covered = n * second)
    (hn : n < 2 ^ 32) : (projectedBucket start stop p).coveredSeconds = n := by
  have hcount : (p.covered / second).toNat % 2 ^ 32 = n := by
    rw [hp, Int.mul_ediv_cancel _ (by decide), Int.toNat_natCast, Nat.mod_eq_of_lt hn]
  rw [projectedBucket]
  split_ifs <;> exact hcount

theorem projectedBucket_startsAt (p : Projected) :
    (projectedBucket start stop p).startsAt = start := by
  rw [projectedBucket]
  split_ifs <;> rfl

/-- **A projection never rounds a gap away.**  For a bucket of whole seconds between
    two valid log times, at most an hour long, the covered seconds are those all of
    whose instants are positive; the bucket is full exactly if all its instants are
    positive, and its reason otherwise is the leading gap. -/
theorem projectLogCoverage_counts_seconds (hstart : ClockReading start) (hstop : ClockReading stop)
    (hstart₀ : nanosecond start = 0) (hstop₀ : nanosecond stop = 0) (hlt : start < stop)
    (hspan : stop - start ≤ hour) (hordered : Ordered segments)
    (hvalid : ∀ s ∈ segments, validLogSegment s = true) :
    ∃ b, projectLogCoverage segments start stop = .ok b ∧ b.startsAt = start ∧
      b.coveredSeconds = (coveredCells segments start stop).ncard ∧
      (b.coverageState = .full ↔ ∀ t, start ≤ t → t < stop → PositiveAt segments t) ∧
      (b.coverageState = .incomplete ↔
        (¬∀ t, start ≤ t → t < stop → PositiveAt segments t) ∧ 0 < b.coveredSeconds) ∧
      (b.coverageState = .gap ↔ b.coveredSeconds = 0 ∧ ∃ r, GapMeets segments start stop r) ∧
      (b.coverageState = .unknown ↔ b.coveredSeconds = 0 ∧ ¬∃ r, GapMeets segments start stop r) ∧
      (b.coverageState = .full → b.reasonCode = none) ∧
      (b.coverageState ≠ .full → ∃ r, b.reasonCode = some r ∧ LeadingGap segments start stop r) := by
  have hnone : ∀ s ∈ ([] : List LogCoverageSegment), validLogSegment s = true := by simp
  obtain ⟨coalesced, hok, hmerged⟩ := mergeLogCoverage_pointwise hstart hstop hlt
    (hspan.trans (by decide)) hordered hvalid hnone (Nat.zero_le _)
  have hsub : timeSub stop start = stop - start :=
    timeSub_eq (by linarith) (hspan.trans (by decide))
  have hcheck : ¬(!validLogTime start || !validLogTime stop || nanosecond start ≠ 0 ||
      nanosecond stop ≠ 0 || !(start < stop) || hour < timeSub stop start) = true := by
    simp [validLogTime_iff.2 hstart, validLogTime_iff.2 hstop, hstart₀, hstop₀, hlt, hsub, hspan]
  have hbucket := card_bucketCells hstart₀ hstop₀ hlt
  have hcard := Finset.card_le_card (cells_subset_bucketCells hmerged)
  have hfull : (cells second none coalesced).card = (bucketCells start stop).card ↔
      ∀ t, start ≤ t → t < stop → PositiveAt segments t := by
    rw [← cells_eq_bucketCells_iff hmerged hordered hvalid hstart₀ hstop₀]
    exact ⟨fun h => Finset.eq_of_subset_of_card_le (cells_subset_bucketCells hmerged) h.ge,
      congrArg Finset.card⟩
  have hncard : (coveredCells segments start stop).ncard = (cells second none coalesced).card := by
    rw [coveredCells_eq hmerged hordered hvalid, Set.ncard_coe_finset]
  have hgap := foldl_leadingGap hmerged hordered hvalid 0
  have hsome := hgap.ne_notYetObserved hvalid
  have hcovered : (coalesced.foldl (projectSegment start stop) ⟨.notYetObserved, 0⟩).covered =
      (cells second none coalesced).card * second := by
    rw [foldl_covered hmerged.window hspan, zero_add]
  refine ⟨projectedBucket start stop (coalesced.foldl (projectSegment start stop)
    ⟨.notYetObserved, 0⟩), by rw [projectLogCoverage, if_neg hcheck, hok, ok_bind], ?_⟩
  -- from here on only the two counts of seconds and the reason matter
  generalize coalesced.foldl (projectSegment start stop) ⟨.notYetObserved, 0⟩ = p at hcovered hgap hsome ⊢
  generalize (cells second none coalesced).card = n at hcovered hcard hfull hncard
  generalize (bucketCells start stop).card = total at hbucket hcard hfull
  have hpos : 0 < total := by
    by_contra hzero
    obtain rfl : total = 0 := by omega
    rw [Nat.cast_zero, zero_mul] at hbucket
    linarith
  have hbound : total ≤ 3600 := by
    have hle : (total : ℤ) * second ≤ 3600 * second := hbucket.trans_le hspan
    exact_mod_cast le_of_mul_le_mul_right hle (by decide)
  have hseconds : (projectedBucket start stop p).coveredSeconds = n :=
    projectedBucket_coveredSeconds hcovered (by omega)
  have hcases := projectedBucket_cases hcovered (hsub.trans hbucket.symm)
  rw [hncard, hseconds, ← hfull, ← hsome]
  refine ⟨projectedBucket_startsAt p, rfl, ?_⟩
  rcases hcases with ⟨hn, hstate, hreason⟩ | ⟨hreason, ⟨hn, hsome, hstate⟩ | ⟨hn, hr, hstate⟩ |
    ⟨hn, hr, hstate⟩⟩
  · simp [hstate, hreason, hn, hpos.ne']
  · have hne : n ≠ 0 := by omega
    simp only [hstate, hreason]
    simp [hn, hne, hsome, hgap]
  · simp only [hstate, hreason]
    simp [hn, hpos.ne, hr, hgap]
  · rw [hr] at hgap
    simp only [hstate, hreason]
    simp [hn, hpos.ne, hr, hgap]

end

theorem projectLogCoverage_counts_seconds_example :
    ∃ b, projectLogCoverage [⟨second, 3 * second - 1, none⟩] second (3 * second) = .ok b ∧
      b.coverageState ≠ .full := by
  have hstart : ClockReading second := validLogTime_iff.1 (by decide)
  have hstop : ClockReading (3 * second) := validLogTime_iff.1 (by decide)
  have hordered : Ordered [(⟨second, 3 * second - 1, none⟩ : LogCoverageSegment)] :=
    ⟨by simp [second], by simp⟩
  obtain ⟨b, hok, -, -, hfull, -⟩ := projectLogCoverage_counts_seconds hstart hstop (by decide)
    (by decide) (by decide) (by decide) hordered (by decide)
  refine ⟨b, hok, fun h => ?_⟩
  obtain ⟨s, hs, -, hin⟩ := hfull.1 h (3 * second - 1) (by decide) (by decide)
  rw [List.mem_singleton.1 hs] at hin
  exact absurd hin.2 (lt_irrefl _)

/-- A bucket that starts at the zero instant is refused. -/
theorem projectLogCoverage_zero_start :
    nanosecond 0 = 0 ∧ nanosecond second = 0 ∧ (0 : Instant) < second ∧ second - 0 ≤ hour ∧
      projectLogCoverage [] 0 second = .error .coverage := by
  decide

end History

end HomeLab
