/-
  Coverage proof and the counts it vouches for.

  An invariant of each source (`SourceInv`) carries through commits and through
  the mutations of a retention pass, whichever of them is the last one that the
  budget pays for: the coverage rows are ordered valid segments, no positive one
  reaches back before the eviction frontier, and the counts of every minute from
  the frontier on are those of the committed batches.

  `proof_never_outlives_counts`: it holds in every state of every run whose log
  cutoffs lie before the year 10000.  A later cutoff is compared as a text that
  sorts before every stored time (`farCutoff_breaks_row`).
-/
import HomeLab.History.Evidence

namespace HomeLab

namespace History

open LogObs Segment

/-! ## What a commit does -/

/-- The query time of the last committed batch. -/
def LogTables.previousAttempt (t : LogTables) : Option Instant :=
  t.state.bind fun row => row.checkpoint.previousAttemptAt

/-- The parts of a commit that succeeds. -/
structure Committed (age : Duration) (t : LogTables) (b : Batch) (t' : LogTables) where
  prior : Checkpoint
  priorStatus : Option Status
  addition : List LogCoverageSegment
  load : loadLogState t = .ok (prior, priorStatus)
  derive : deriveLogCoverage prior b = .ok addition
  minutes : writeLogMinutes t.minutes b (commitFloor age b) = .ok t'.minutes
  coverage : commitLogCoverage t addition (commitFloor age b) b.queryStartedAt = .ok t'.coverage
  evictedBefore : t'.evictedBefore = t.evictedBefore
  state : t'.state = some ⟨nextCheckpoint prior b, statusAfterBatch b priorStatus⟩

theorem applyLogBatch_ok {age : Duration} {t t' : LogTables} {b : Batch} {prior : Checkpoint}
    {priorStatus : Option Status} (hl : loadLogState t = .ok (prior, priorStatus))
    (h : applyLogBatch age t b prior priorStatus = .ok t') : Nonempty (Committed age t b t') := by
  unfold applyLogBatch at h
  obtain ⟨addition, hd, h⟩ := bind_eq_ok.1 h
  obtain ⟨minutes, hm, h⟩ := bind_eq_ok.1 h
  obtain ⟨coverage, hc, h⟩ := bind_eq_ok.1 h
  dsimp only at h
  split_ifs at h
  obtain rfl := Except.ok.inj h
  exact ⟨⟨prior, priorStatus, addition, hl, hd, hm, hc, rfl, rfl⟩⟩

theorem commitLogTables_ok {age : Duration} {t t' : LogTables} {b : Batch}
    (h : commitLogTables age t b = .ok t') : Nonempty (Committed age t b t') := by
  rw [commitLogTables] at h
  obtain ⟨⟨prior, priorStatus⟩, hl, h⟩ := bind_eq_ok.1 h
  dsimp only at h
  split_ifs at h
  exact applyLogBatch_ok hl h

theorem loadLogState_previous {t : LogTables} {prior : Checkpoint} {status : Option Status}
    (h : loadLogState t = .ok (prior, status)) : prior.previousAttemptAt = t.previousAttempt := by
  rw [loadLogState] at h
  rw [LogTables.previousAttempt]
  cases hs : t.state with
  | none =>
    rw [hs] at h
    obtain ⟨rfl, -⟩ := Prod.mk.inj (Except.ok.inj h)
    rfl
  | some row =>
    rw [hs] at h
    dsimp only at h
    split_ifs at h
    obtain ⟨rfl, -⟩ := Prod.mk.inj (Except.ok.inj h)
    rfl

theorem nextCheckpoint_previous (prior : Checkpoint) (b : Batch) :
    (nextCheckpoint prior b).previousAttemptAt = some b.queryStartedAt := by
  rw [nextCheckpoint]
  cases b.kind <;> rfl

namespace Committed

variable {age : Duration} {t t' : LogTables} {b : Batch}

theorem derived (c : Committed age t b t') : Derived c.prior b c.addition :=
  deriveLogCoverage_ok c.derive

theorem previous (c : Committed age t b t') : c.prior.previousAttemptAt = t.previousAttempt :=
  loadLogState_previous c.load

theorem attempted (c : Committed age t b t') : t'.previousAttempt = some b.queryStartedAt := by
  rw [LogTables.previousAttempt, c.state]
  exact nextCheckpoint_previous c.prior b

theorem after (c : Committed age t b t') {q : Instant} (hq : q ∈ t.previousAttempt) :
    q < b.queryStartedAt := by
  have hr := c.derived.request
  rw [ReadRequest.validate, c.previous, Option.mem_def.1 hq] at hr
  simp only [Bool.and_eq_true, Option.all_some, decide_eq_true_eq] at hr
  exact hr.1.2

end Committed

theorem commitFloor_span (age : Duration) (b : Batch) :
    b.queryStartedAt - commitFloor age b ≤ logRetention := by
  have h : b.queryStartedAt - min age logRetention ≤ commitFloor age b := by
    rw [commitFloor, logRetentionFloor_eq]
    exact le_max_left _ _
  have hmin : min age logRetention ≤ logRetention := min_le_right _ _
  linarith

/-! ## Counts of the committed batches -/

/-- What the entries of the minute `m`, from the floor on, add up to. -/
def minuteEntries (floor : Instant) (entries : List (Instant × BucketCounts)) (m : Instant) :
    BucketCounts :=
  ((entries.filter fun e => floor ≤ e.1 && truncate e.1 minute = m).map Prod.snd).sum

/-- What the batches of a source add to the minute `m`. -/
def minuteTotal (age : Duration) (batches : List Batch) (source : Source) (m : Instant) :
    BucketCounts :=
  ((batches.filter (·.source = source)).map fun b =>
    minuteEntries (commitFloor age b) b.contributions m).sum

theorem minuteTotal_concat (age : Duration) (batches : List Batch) (b : Batch) (source : Source)
    (m : Instant) :
    minuteTotal age (batches ++ [b]) source m = minuteTotal age batches source m +
      if b.source = source then minuteEntries (commitFloor age b) b.contributions m else 0 := by
  rw [minuteTotal, minuteTotal, List.filter_append, List.map_append, List.sum_append]
  by_cases h : b.source = source <;> simp [h]

variable {m start : Instant} {frontiers : Source → Option Instant} {db' : Database}

theorem entriesAt_text {floor : Instant} {entries : List (Instant × BucketCounts)}
    (hm : ClockReading m)
    (hentries : ∀ e ∈ entries, floor ≤ e.1 → ClockReading (truncate e.1 minute)) :
    entriesAt floor entries (formatNanos m) = minuteEntries floor entries m := by
  rw [entriesAt, minuteEntries]
  congr 2
  refine List.filter_congr fun e he => ?_
  by_cases hle : floor ≤ e.1
  · simp [hle, text_inj (hentries e he hle) hm]
  · simp [hle]

/-! ## The invariant -/

/-- What holds of the tables of a source during a pass that will record the
    frontier `pending`. -/
structure SourceInv (age : Duration) (batches : List Batch) (source : Source) (t : LogTables)
    (frontier pending : Option Instant) (segs : List LogCoverageSegment) : Prop where
  evidence : Evidence t.coverage segs
  stops : ∀ s ∈ segs, ∃ q ∈ t.previousAttempt, s.stop ≤ q
  recorded : HasFrontier t frontier
  planned : ∀ f ∈ pending, ClockReading f
  positive : ∀ s ∈ segs, s.label = none → ∀ f, f ∈ frontier ∨ f ∈ pending → f ≤ s.start
  minutes : Minutes t.minutes
  counts : ∀ m, ClockReading m → (∀ f, f ∈ frontier ∨ f ∈ pending → f ≤ m) →
    countsAt t.minutes (formatNanos m) = minuteTotal age batches source m
  dated : ∀ b ∈ batches, b.source = source → ∀ e ∈ b.contributions, commitFloor age b ≤ e.1 →
    ClockReading (truncate e.1 minute)

variable {age : Duration} {batches : List Batch} {source : Source} {t t' : LogTables}
  {frontier pending : Option Instant} {segs segs' : List LogCoverageSegment}

theorem SourceInv.init (age : Duration) (source : Source) :
    SourceInv age [] source {} none none [] where
  evidence := ⟨rfl, .nil, by simp⟩
  stops := by simp
  recorded := ⟨rfl, by simp⟩
  planned := by simp
  positive := by simp
  minutes := Minutes.nil
  counts m _ _ := rfl
  dated := by simp

theorem SourceInv.commit (h : SourceInv age batches source t frontier none segs) {b : Batch}
    (hsource : b.source = source) (c : Committed age t b t') :
    ∃ segs', SourceInv age (batches ++ [b]) source t' frontier none segs' ∧
      ∀ u, raisedFloor (commitFloor age b) frontier ≤ u → u < b.queryStartedAt →
        lookup segs' u = overlay (lookup segs u) (attemptReason t.previousAttempt b u) := by
  have hd := c.derived
  obtain ⟨segs', hev, hstops, hnew, hlook⟩ := commitLogCoverage_ok h.evidence
    (fun s hs => by
      obtain ⟨q, hq, hle⟩ := h.stops s hs
      exact hle.trans (c.after hq).le)
    h.recorded (commitFloor_span age b) hd.ordered hd.segments hd.length c.coverage
  obtain ⟨hminutes, hcounts, hentries⟩ := writeLogMinutes_ok c.minutes h.minutes
  refine ⟨segs', ⟨hev, fun s hs => ⟨_, c.attempted, hstops s hs⟩, ?_, by simp, ?_, hminutes, ?_,
    ?_⟩, fun u h1 h2 => ?_⟩
  · exact ⟨c.evictedBefore.trans h.recorded.1, h.recorded.2⟩
  · intro s hs hlabel f hf
    rcases hnew s hs with hold | hnew
    · exact h.positive s hold hlabel f hf
    · exact (frontier_le_raisedFloor (hf.resolve_right (by simp))).trans hnew
  · intro m hm hfrontier
    rw [hcounts, h.counts m hm hfrontier, minuteTotal_concat, if_pos hsource,
      entriesAt_text hm hentries]
  · intro b' hb' hs e he hle
    rcases List.mem_append.1 hb' with hb' | hb'
    · exact h.dated b' hb' hs e he hle
    · obtain rfl := List.mem_singleton.1 hb'
      exact hentries e he hle
  · have hweek : logRetentionFloor b.queryStartedAt logRetention ≤ u := by
      refine le_trans ?_ ((le_raisedFloor _ frontier).trans h1)
      rw [commitFloor, logRetentionFloor_eq, logRetentionFloor_eq]
      exact max_le_max (sub_le_sub_left (min_le_right _ _) _) le_rfl
    rw [hlook u h1 h2, hd.label u hweek, c.previous]

/-- Batches of another source leave the invariant alone. -/
theorem SourceInv.other (h : SourceInv age batches source t frontier pending segs) {b : Batch}
    (hsource : b.source ≠ source) : SourceInv age (batches ++ [b]) source t frontier pending segs :=
  { h with
    counts := fun m hm hf => by
      rw [h.counts m hm hf, minuteTotal_concat, if_neg hsource, add_zero]
    dated := fun b' hb' hs e he hle => by
      rcases List.mem_append.1 hb' with hb' | hb'
      · exact h.dated b' hb' hs e he hle
      · obtain rfl := List.mem_singleton.1 hb'
        exact absurd hs hsource }

/-- Coverage that is replaced by shorter or fewer segments. -/
theorem SourceInv.shrink (h : SourceInv age batches source t frontier pending segs)
    {rows : List CoverageRow} (hev : Evidence rows segs')
    (hsub : ∀ s' ∈ segs', ∃ s ∈ segs, s'.label = s.label ∧ s'.stop = s.stop ∧ s.start ≤ s'.start) :
    SourceInv age batches source { t with coverage := rows } frontier pending segs' where
  evidence := hev
  stops s' hs' := by
    obtain ⟨s, hs, -, hstop, -⟩ := hsub s' hs'
    rw [hstop]
    exact h.stops s hs
  positive s' hs' hlabel f hf := by
    obtain ⟨s, hs, hl, -, hstart⟩ := hsub s' hs'
    exact (h.positive s hs (hl ▸ hlabel) f hf).trans hstart
  __ := h

theorem shrink_filter {s : LogCoverageSegment} :
    ∀ s' ∈ segs.filter (fun a => decide (a ≠ s)),
      ∃ a ∈ segs, s'.label = a.label ∧ s'.stop = a.stop ∧ a.start ≤ s'.start := fun s' hs' =>
  ⟨s', List.mem_of_mem_filter hs', rfl, rfl, le_rfl⟩

theorem shrink_trim {s : LogCoverageSegment} {u : Instant} (hs : s ∈ segs) (hu : s.start ≤ u) :
    ∀ s' ∈ trim s u segs, ∃ a ∈ segs, s'.label = a.label ∧ s'.stop = a.stop ∧ a.start ≤ s'.start := by
  intro s' hs'
  rcases (mem_trim hs).1 hs' with rfl | ⟨hs', -⟩
  · exact ⟨s, hs, rfl, rfl, hu⟩
  · exact ⟨s', hs', rfl, rfl, le_rfl⟩

/-! ## Passes -/

/-- A candidate is a row of its table; a coverage row starts before the cutoff. -/
def Eligible (db : Database) (logCutoff : Option Instant) : RetentionCandidate → Prop
  | .sample _ => True
  | .rollup _ => True
  | .minute source r start => r ∈ (db.log source).minutes ∧ decodeLogTime r.minute = .ok start
  | .coverage source r => r ∈ (db.log source).coverage ∧
    ∃ start, decodeLogTime r.startAt = .ok start ∧ ∀ c ∈ logCutoff, start < c

variable {db : Database} {cutoff logCutoff : Option Instant}

theorem firstOfSources_mem {α : Type} {text : α → Bytes} (rows : Source → List α) {source : Source}
    {a : α} (h : firstOfSources text (rows .system) (rows .application) = some (source, a)) :
    a ∈ rows source := by
  rw [firstOfSources] at h
  cases hs : (rows .system).head? with
  | none =>
    cases ha : (rows .application).head? with
    | none => simp [hs, ha] at h
    | some b =>
      simp only [hs, ha, Option.some.injEq, Prod.mk.injEq] at h
      obtain ⟨rfl, rfl⟩ := h
      exact List.mem_of_mem_head? ha
  | some x =>
    cases ha : (rows .application).head? with
    | none =>
      simp only [hs, ha, Option.some.injEq, Prod.mk.injEq] at h
      obtain ⟨rfl, rfl⟩ := h
      exact List.mem_of_mem_head? hs
    | some b =>
      simp only [hs, ha] at h
      split_ifs at h
      · obtain ⟨rfl, rfl⟩ := Prod.mk.inj (Option.some.inj h)
        exact List.mem_of_mem_head? ha
      · obtain ⟨rfl, rfl⟩ := Prod.mk.inj (Option.some.inj h)
        exact List.mem_of_mem_head? hs

/-- Only a candidate from before the boundary takes the place of the oldest one so far. -/
theorem older_eligible {boundary : Option Instant} {oldest : Option (RetentionCandidate × Instant)}
    {item : RetentionCandidate} {t : Instant} (ho : ∀ o ∈ oldest, Eligible db logCutoff o.1)
    (hitem : (∀ c ∈ boundary, t < c) → Eligible db logCutoff item) :
    ∀ o ∈ older boundary oldest item t, Eligible db logCutoff o.1 := by
  unfold older
  split_ifs with hb
  · exact ho
  · have hbefore : ∀ c ∈ boundary, t < c := fun c hc => by
      rw [Option.mem_def.1 hc] at hb
      simpa using hb
    have hnew : ∀ o ∈ some (item, t), Eligible db logCutoff o.1 := by
      rintro o ⟨⟩
      exact hitem hbefore
    cases oldest with
    | none => exact hnew
    | some o =>
      dsimp only
      split_ifs
      · exact hnew
      · exact ho

theorem oldestHostCandidate_eligible :
    ∀ o ∈ oldestHostCandidate db cutoff, Eligible db logCutoff o.1 := by
  rw [oldestHostCandidate]
  cases db.samples.head? <;> cases db.rollups.head? <;> dsimp only
  · nofun
  · exact older_eligible (by simp) fun _ => trivial
  · exact older_eligible (by simp) fun _ => trivial
  · exact older_eligible (older_eligible (by simp) fun _ => trivial) fun _ => trivial

theorem considerMinute_eligible {oldest result : Option (RetentionCandidate × Instant)}
    (h : considerMinute db logCutoff oldest = .ok result)
    (ho : ∀ o ∈ oldest, Eligible db logCutoff o.1) : ∀ o ∈ result, Eligible db logCutoff o.1 := by
  rw [considerMinute] at h
  cases hf : firstOfSources MinuteRow.minute (db.log .system).minutes
      (db.log .application).minutes with
  | none =>
    rw [hf] at h
    obtain rfl := Except.ok.inj h
    exact ho
  | some first =>
    rw [hf] at h
    obtain ⟨t, hd, h⟩ := bind_eq_ok.1 h
    obtain rfl := Except.ok.inj h
    exact older_eligible ho fun _ => ⟨firstOfSources_mem (fun s => (db.log s).minutes) hf, hd⟩

theorem considerCoverage_eligible {oldest result : Option (RetentionCandidate × Instant)}
    (h : considerCoverage db logCutoff oldest = .ok result)
    (ho : ∀ o ∈ oldest, Eligible db logCutoff o.1) : ∀ o ∈ result, Eligible db logCutoff o.1 := by
  rw [considerCoverage] at h
  cases hf : firstOfSources CoverageRow.startAt (db.log .system).coverage
      (db.log .application).coverage with
  | none =>
    rw [hf] at h
    obtain rfl := Except.ok.inj h
    exact ho
  | some first =>
    rw [hf] at h
    obtain ⟨t, hd, h⟩ := bind_eq_ok.1 h
    obtain rfl := Except.ok.inj h
    exact older_eligible ho fun hlt =>
      ⟨firstOfSources_mem (fun s => (db.log s).coverage) hf, t, hd, hlt⟩

theorem oldestRetentionCandidate_eligible {item : RetentionCandidate}
    (h : oldestRetentionCandidate db cutoff logCutoff = .ok (some item)) :
    Eligible db logCutoff item := by
  rw [oldestRetentionCandidate] at h
  obtain ⟨oldest, hm, h⟩ := bind_eq_ok.1 h
  obtain ⟨result, hc, h⟩ := bind_eq_ok.1 h
  obtain ⟨o, ho, rfl⟩ := Option.map_eq_some_iff.1 (Except.ok.inj h)
  exact considerCoverage_eligible hc
    (considerMinute_eligible hm oldestHostCandidate_eligible) o ho

/-- The invariant of a pass that started with the frontiers `recorded`. -/
def PassInv (age : Duration) (batches : List Batch) (recorded : Source → Option Instant)
    (p : Pass) : Prop :=
  ∀ source, ∃ segs, SourceInv age batches source (p.db.log source) (recorded source)
    (p.frontiers source) segs

variable {recorded : Source → Option Instant} {p p' : Pass}

/-- A mutation touches one source. -/
theorem PassInv.setLog (h : PassInv age batches recorded p) {n : ℕ}
    (hothers : ∀ s ≠ source, frontiers s = p.frontiers s)
    (hs : ∃ segs, SourceInv age batches source t (recorded source) (frontiers source) segs) :
    PassInv age batches recorded ⟨p.db.setLog source t, frontiers, n⟩ := by
  intro s
  by_cases hne : s = source
  · subst hne
    simpa [Database.setLog] using hs
  · simpa [Database.setLog, Function.update_of_ne hne, hothers s hne] using h s

theorem minuteFrontier_clock (h : ClockReading start) :
    ClockReading (minuteFrontier start) := by
  rw [minuteFrontier]
  split_ifs with hy
  · exact ⟨by decide, by decide⟩
  · have hlt : start + minute < maxInstant := (year_lt_iff 10000 _).1 (by linarith [not_lt.1 hy])
    have hpos : (0 : ℤ) < minute := by decide
    exact ⟨by linarith [h.1], hlt⟩

/-- The frontier is past the minute, and the trimmed proof is past the frontier. -/
theorem minuteFrontier_between (h : ClockReading start) (halign : start % minute = 0) :
    start < minuteFrontier start ∧ minuteFrontier start ≤ start + minute := by
  -- the last minute starts a whole minute before the end of time
  have hlast : ∀ a b : ℤ, a % 60000000000 = 0 → b % 60000000000 = 0 → a < b → a < b - 1 := by
    intro a b
    omega
  have hpos : (0 : ℤ) < minute := by decide
  rw [minuteFrontier, lastLogTime]
  split_ifs with hy
  · have hge : maxInstant ≤ start + minute := (le_year_iff 10000 _).1 (by linarith)
    exact ⟨hlast start maxInstant halign (by decide) h.2, by linarith⟩
  · exact ⟨by linarith, le_rfl⟩

/-- The counts of a minute go once no proof reaches back to it. -/
theorem SourceInv.evict (h : SourceInv age batches source t frontier pending segs)
    (hclock : ClockReading start) (halign : start % minute = 0)
    (hpositive : ∀ s ∈ segs, s.label = none → start + minute ≤ s.start) {pending' : Option Instant}
    (hold : ∀ f ∈ pending, ∃ f' ∈ pending', f ≤ f')
    (hnew : ∀ f ∈ pending', f ∈ pending ∨ f = minuteFrontier start)
    (hpast : ∃ f ∈ pending', minuteFrontier start ≤ f) :
    SourceInv age batches source
      { t with minutes := Keyed.erase MinuteRow.minute (formatNanos start) t.minutes }
      frontier pending' segs := by
  obtain ⟨hafter, hbefore⟩ := minuteFrontier_between hclock halign
  refine
    { h with
      planned := fun f hf => ?_
      positive := fun s hs hlabel f hf => ?_
      minutes := ⟨Keyed.sorted_erase h.minutes.sorted _, fun r hr =>
        h.minutes.named r (Keyed.mem_erase.1 hr).1⟩
      counts := fun m hm hf => ?_ }
  · rcases hnew f hf with hf | rfl
    · exact h.planned f hf
    · exact minuteFrontier_clock hclock
  · rcases hf with hf | hf
    · exact h.positive s hs hlabel f (Or.inl hf)
    · rcases hnew f hf with hf | rfl
      · exact h.positive s hs hlabel f (Or.inr hf)
      · exact hbefore.trans (hpositive s hs hlabel)
  · have hne : m ≠ start := by
      obtain ⟨f, hf', hle⟩ := hpast
      exact (hafter.trans_le (hle.trans (hf f (Or.inr hf')))).ne'
    rw [← h.counts m hm fun f hf' => ?_]
    · refine countsAt_congr (Keyed.sorted_erase h.minutes.sorted _) h.minutes.sorted fun r hr => ?_
      rw [Keyed.mem_erase, and_iff_left]
      rw [hr]
      exact fun heq => hne ((text_inj hm hclock).1 heq)
    · rcases hf' with hf' | hf'
      · exact hf f (Or.inl hf')
      · obtain ⟨f', hmem, hle⟩ := hold f hf'
        exact hle.trans (hf f' (Or.inr hmem))

theorem pruneMinute_inv (h : PassInv age batches recorded p) {r : MinuteRow}
    (hr : r ∈ (p.db.log source).minutes) (hd : decodeLogTime r.minute = .ok start)
    (hp : pruneMinute p source r start = .ok p') : PassInv age batches recorded p' := by
  obtain ⟨segs, hs⟩ := h source
  obtain ⟨hclock, htext⟩ := decodeLogTime_ok hd
  obtain ⟨m, hm, halign, hname⟩ := hs.minutes.named r hr
  obtain rfl : start = m := (text_inj hclock hm).1 (htext.symm.trans hname)
  rw [pruneMinute] at hp
  obtain ⟨result, ht, hp⟩ := bind_eq_ok.1 hp
  rcases trimPositiveLogProof_ok hs.evidence ht with ⟨rfl, hpositive⟩ |
    ⟨rows, removed, s, rfl, hmem, hev⟩
  · obtain rfl := Except.ok.inj hp
    rw [htext]
    by_cases hlt : (p.frontiers source).getD 0 < minuteFrontier start
    · rw [if_pos hlt]
      refine h.setLog (fun s hne => Function.update_of_ne hne _ _) ⟨segs, ?_⟩
      rw [Function.update_self]
      refine hs.evict hclock halign hpositive (fun f hf => ⟨_, rfl, ?_⟩)
        (fun f hf => Or.inr (Option.mem_some_iff.1 hf).symm) ⟨_, rfl, le_rfl⟩
      rw [Option.mem_def.1 hf] at hlt
      exact hlt.le
    · rw [if_neg hlt]
      refine h.setLog (fun _ _ => rfl) ⟨segs, ?_⟩
      refine hs.evict hclock halign hpositive (fun f hf => ⟨f, hf, le_rfl⟩) (fun f hf => Or.inl hf)
        ?_
      cases hf : p.frontiers source with
      | none =>
        rw [hf] at hlt
        exact absurd (minuteFrontier_clock hclock).1 hlt
      | some f =>
        rw [hf] at hlt
        exact ⟨f, rfl, not_lt.1 hlt⟩
  · obtain rfl := Except.ok.inj hp
    refine h.setLog (fun _ _ => rfl) ?_
    rcases hev with hev | ⟨hstart, hstop, hev⟩
    · exact ⟨_, hs.shrink hev shrink_filter⟩
    · exact ⟨_, hs.shrink hev (shrink_trim hmem hstart.le)⟩

theorem pruneCoverage_inv (h : PassInv age batches recorded p)
    (hcutoff : ∀ c ∈ logCutoff, c < maxInstant) {r : CoverageRow}
    (he : Eligible p.db logCutoff (.coverage source r))
    (hp : pruneCoverage logCutoff p source r = .ok p') : PassInv age batches recorded p' := by
  obtain ⟨segs, hs⟩ := h source
  obtain ⟨hr, start, hd, hlt⟩ := he
  obtain ⟨s, hmem, rfl⟩ := hs.evidence.mem.1 hr
  have hv := hs.evidence.valid s hmem
  obtain rfl : s.start = start :=
    Except.ok.inj ((decode_text (clock_start hv)).symm.trans hd)
  have hdelete : PassInv age batches recorded { p with
      db := p.db.setCoverage source (deleteCoverageRow (p.db.log source).coverage (coverageRow s))
      dropped := p.dropped + 1 } :=
    h.setLog (fun _ _ => rfl) ⟨_, hs.shrink (hs.evidence.delete hmem) shrink_filter⟩
  unfold pruneCoverage at hp
  cases logCutoff with
  | none =>
    obtain rfl := Except.ok.inj hp
    exact hdelete
  | some cutoff =>
    have hstart := hlt cutoff rfl
    have hclock : ClockReading cutoff := ⟨(clock_start hv).1.trans hstart, hcutoff cutoff rfl⟩
    dsimp only at hp
    split_ifs at hp with hend
    · -- the texts of representable times sort as the times
      have hstop : cutoff < s.stop := (text_lt_iff hclock (clock_stop hv)).1 hend
      obtain ⟨rows, hm, hp⟩ := bind_eq_ok.1 hp
      obtain rfl := Except.ok.inj hp
      exact h.setLog (fun _ _ => rfl) ⟨_, hs.shrink
        (hs.evidence.move hmem hstart.le hstop hm) (shrink_trim hmem hstart.le)⟩
    · obtain rfl := Except.ok.inj hp
      exact hdelete

/-- **One mutation keeps the invariant.** -/
theorem pruneStep_inv (h : PassInv age batches recorded p)
    (hcutoff : ∀ c ∈ logCutoff, c < maxInstant) {item : RetentionCandidate}
    (he : Eligible p.db logCutoff item) (hp : pruneStep logCutoff p item = .ok p') :
    PassInv age batches recorded p' := by
  cases item with
  | sample | rollup =>
    obtain rfl := Except.ok.inj hp
    exact h
  | minute source r start => exact pruneMinute_inv h he.1 he.2 hp
  | coverage source r => exact pruneCoverage_inv h hcutoff he hp

/-- A pass keeps it, wherever its budget ends. -/
theorem pruneLoop_inv (hcutoff : ∀ c ∈ logCutoff, c < maxInstant) {budget : ℕ}
    (h : PassInv age batches recorded p)
    (hp : pruneLoop cutoff logCutoff budget p = .ok p') : PassInv age batches recorded p' := by
  induction budget generalizing p with
  | zero =>
    obtain rfl := Except.ok.inj hp
    exact h
  | succ budget ih =>
    rw [pruneLoop] at hp
    obtain ⟨item, ho, hp⟩ := bind_eq_ok.1 hp
    cases item with
    | none =>
      obtain rfl := Except.ok.inj hp
      exact h
    | some item =>
      dsimp only at hp
      obtain ⟨q, hs, hp⟩ := bind_eq_ok.1 hp
      exact ih (pruneStep_inv h hcutoff (oldestRetentionCandidate_eligible ho) hs) hp

/-! ## Recording the frontier -/

theorem recordFrontier_other {db : Database} (h : recordFrontier frontiers source db = .ok db')
    {s : Source} (hs : s ≠ source) :
    db'.log s = db.log s := by
  rw [recordFrontier] at h
  cases hf : frontiers source with
  | none =>
    rw [hf] at h
    rw [← Except.ok.inj h]
  | some f =>
    rw [hf] at h
    dsimp only at h
    obtain ⟨previous, hl, h⟩ := bind_eq_ok.1 h
    split_ifs at h
    · rw [← Except.ok.inj h]
    · rw [← Except.ok.inj h]
      exact Function.update_of_ne hs _ _

/-- Recording moves what the pass planned into the table, and never back. -/
theorem SourceInv.record {db : Database}
    (h : SourceInv age batches source (db.log source) frontier (frontiers source) segs)
    (hr : recordFrontier frontiers source db = .ok db') :
    ∃ frontier', SourceInv age batches source (db'.log source) frontier' none segs ∧
      ∀ f ∈ frontier, ∃ f' ∈ frontier', f ≤ f' := by
  rw [recordFrontier] at hr
  cases hf : frontiers source with
  | none =>
    rw [hf] at hr h
    rw [← Except.ok.inj hr]
    exact ⟨frontier, h, fun f hf => ⟨f, hf, le_rfl⟩⟩
  | some f =>
    rw [hf] at hr h
    dsimp only at hr
    rw [h.recorded.load, ok_bind] at hr
    split_ifs at hr with hany
    · -- the recorded frontier is not before the planned one
      obtain rfl := Except.ok.inj hr
      obtain ⟨g, rfl, hge⟩ : ∃ g, frontier = some g ∧ f ≤ g := by
        cases frontier with
        | none => simp at hany
        | some g => exact ⟨g, rfl, by simpa using hany⟩
      refine ⟨some g, { h with planned := by simp, positive := ?_, counts := ?_ },
        fun f hf => ⟨f, hf, le_rfl⟩⟩
      · intro s hs hlabel f' hf'
        exact h.positive s hs hlabel f' (Or.inl (hf'.resolve_right (by simp)))
      · intro m hm hall
        refine h.counts m hm fun f' hf' => ?_
        rcases hf' with hf' | hf'
        · exact hall f' (Or.inl hf')
        · obtain rfl := Option.mem_some_iff.1 hf'
          exact hge.trans (hall g (Or.inl rfl))
    · obtain rfl := Except.ok.inj hr
      have hlt : ∀ g ∈ frontier, g ≤ f := by
        rintro g hg
        rw [Option.mem_def.1 hg] at hany
        exact le_of_lt (by simpa using hany)
      refine ⟨some f, ?_, fun g hg => ⟨f, rfl, hlt g hg⟩⟩
      rw [Database.setLog]
      dsimp only
      rw [Function.update_self]
      exact
        { h with
          recorded := ⟨rfl, h.planned⟩
          planned := by simp
          positive := fun s hs hlabel f' hf' =>
            h.positive s hs hlabel f' (Or.inr (hf'.resolve_right (by simp)))
          counts := fun m hm hall => h.counts m hm fun g hg => by
            rcases hg with hg | hg
            · exact (hlt g hg).trans (hall f (Or.inl rfl))
            · exact hall g (Or.inl hg) }

/-! ## Runs -/

/-- The invariant of the store, with the frontiers it has recorded. -/
def StoreInv (age : Duration) (w : World) (recorded : Source → Option Instant) : Prop :=
  ∀ source, ∃ segs, SourceInv age w.batches source (w.db.log source) (recorded source) none segs

theorem pruneShared_inv {db : Database} {batchSize dropped : ℕ}
    (h : ∀ source, ∃ segs, SourceInv age batches source (db.log source) (recorded source) none segs)
    (hcutoff : ∀ c ∈ logCutoffOf age cutoff, c < maxInstant)
    (hp : pruneShared age batchSize db cutoff = .ok (db', dropped)) :
    ∃ recorded' : Source → Option Instant,
      (∀ source, ∃ segs,
        SourceInv age batches source (db'.log source) (recorded' source) none segs) ∧
      ∀ source, ∀ f ∈ recorded source, ∃ f' ∈ recorded' source, f ≤ f' := by
  rw [pruneShared] at hp
  obtain ⟨p, hl, hp⟩ := bind_eq_ok.1 hp
  have hstart : PassInv age batches recorded { db := db } := h
  have hpass := pruneLoop_inv hcutoff hstart hl
  obtain ⟨db₁, hs, hp⟩ := bind_eq_ok.1 hp
  obtain ⟨db₂, ha, hp⟩ := bind_eq_ok.1 hp
  obtain ⟨rfl, -⟩ := Prod.mk.inj (Except.ok.inj hp)
  obtain ⟨segs, hsys⟩ := hpass .system
  obtain ⟨segs', happ⟩ := hpass .application
  obtain ⟨f, hsys', hle⟩ := hsys.record hs
  rw [← recordFrontier_other hs (by decide : Source.application ≠ .system)] at happ
  obtain ⟨f', happ', hle'⟩ := happ.record ha
  rw [← recordFrontier_other ha (by decide : Source.system ≠ .application)] at hsys'
  refine ⟨fun s => if s = .system then f else f', fun source => ?_, fun source => ?_⟩
  · cases source with
    | system => exact ⟨segs, hsys'⟩
    | application => exact ⟨segs', happ'⟩
  · cases source with
    | system => exact hle
    | application => exact hle'

/-- The log cutoff of a pass, if it has one, lies before the year 10000. -/
def Op.Representable (age : Duration) : Op → Prop
  | .prune cutoff _ _ _ => ∀ c ∈ logCutoffOf age cutoff, c < maxInstant
  | _ => True

theorem committed_log {env : CommitEnv} {db : Database} {b : Batch}
    (h : committed age env db b = some db') :
    Nonempty (Committed age (db.log b.source) b (db'.log b.source)) ∧
      ∀ s ≠ b.source, db'.log s = db.log s := by
  unfold committed at h
  split_ifs at h
  rw [toOption_eq_some, commitLogBatch] at h
  split_ifs at h
  obtain ⟨t, ht, h⟩ := bind_eq_ok.1 h
  dsimp only at h
  split_ifs at h
  obtain rfl := Except.ok.inj h
  refine ⟨?_, fun s hs => Function.update_of_ne hs _ _⟩
  rw [Database.setLog]
  dsimp only
  rw [Function.update_self]
  exact commitLogTables_ok ht

variable {w : World}

/-- **One call keeps the invariant**, and no frontier moves back. -/
theorem step_inv (h : StoreInv age w recorded) {op : Op} (hop : op.Representable age) :
    ∃ recorded', StoreInv age (step age w op) recorded' ∧
      ∀ source, ∀ f ∈ recorded source, ∃ f' ∈ recorded' source, f ≤ f' := by
  have hsame : ∀ source, ∀ f ∈ recorded source, ∃ f' ∈ recorded source, f ≤ f' :=
    fun _ f hf => ⟨f, hf, le_rfl⟩
  cases op with
  | commit b env =>
    unfold step
    dsimp only
    cases hc : committed age env w.db b with
    | none => exact ⟨recorded, h, hsame⟩
    | some db =>
      obtain ⟨⟨c⟩, hothers⟩ := committed_log hc
      refine ⟨recorded, fun source => ?_, hsame⟩
      obtain ⟨segs, hs⟩ := h source
      by_cases heq : b.source = source
      · subst heq
        obtain ⟨segs', hs', -⟩ := hs.commit rfl c
        exact ⟨segs', hs'⟩
      · refine ⟨segs, ?_⟩
        dsimp only
        rw [hothers source (Ne.symm heq)]
        exact hs.other heq
  | prune cutoff batchSize ready outcome =>
    unfold step
    dsimp only
    cases hp : pruned age ready outcome batchSize w.db cutoff with
    | none => exact ⟨recorded, h, hsame⟩
    | some db =>
      unfold pruned at hp
      split_ifs at hp
      obtain ⟨⟨db', dropped⟩, hs, rfl⟩ := Option.map_eq_some_iff.1 hp
      exact pruneShared_inv h hop (toOption_eq_some.1 hs)
  | host samples rollups => exact ⟨recorded, h, hsame⟩

theorem run_inv (h : StoreInv age w recorded) {ops : List Op}
    (hops : ∀ op ∈ ops, op.Representable age) :
    ∃ recorded', StoreInv age (run age w ops) recorded' ∧
      ∀ source, ∀ f ∈ recorded source, ∃ f' ∈ recorded' source, f ≤ f' := by
  induction ops generalizing w recorded with
  | nil => exact ⟨recorded, h, fun _ f hf => ⟨f, hf, le_rfl⟩⟩
  | cons op ops ih =>
    obtain ⟨recorded₁, h₁, hle₁⟩ := step_inv h (hops op (by simp))
    obtain ⟨recorded₂, h₂, hle₂⟩ := ih h₁ fun op' hop' => hops op' (by simp [hop'])
    refine ⟨recorded₂, h₂, fun source f hf => ?_⟩
    obtain ⟨f₁, hf₁, hf₁le⟩ := hle₁ source f hf
    obtain ⟨f₂, hf₂, hf₂le⟩ := hle₂ source f₁ hf₁
    exact ⟨f₂, hf₂, hf₁le.trans hf₂le⟩

theorem storeInv_init (age : Duration) : StoreInv age {} fun _ => none := fun source =>
  ⟨[], SourceInv.init age source⟩

/-! ## The guarantee -/

/-- The recorded eviction frontier. -/
def evictionFrontier (t : LogTables) : Option Instant :=
  t.evictedBefore.bind fun text => (decodeLogTime text).toOption

/-- The counts of the row of the minute `m`; a missing row counts nothing. -/
def storedMinute (t : LogTables) (m : Instant) : BucketCounts :=
  ((t.minutes.find? fun r => (decodeLogTime r.minute).toOption = some m).map (·.counts)).getD 0

/-- The coverage rows of a source are valid, sorted and disjoint, no positive one
    contains an instant before the frontier, and the minutes from the frontier on
    hold what the committed batches brought. -/
structure Vouched (age : Duration) (w : World) (source : Source) : Prop where
  coverage : ∃ segs, decodeCoverage none (w.db.log source).coverage = .ok segs ∧
    (∀ s ∈ segs, validLogSegment s = true) ∧ segs.Pairwise (fun a b => a.stop ≤ b.start) ∧
    ∀ s ∈ segs, s.label = none → ∀ u, s.Contains u →
      ∀ f ∈ evictionFrontier (w.db.log source), f ≤ u
  counts : ∀ m, (∀ f ∈ evictionFrontier (w.db.log source), f ≤ m) →
    storedMinute (w.db.log source) m = minuteTotal age w.batches source m

theorem HasFrontier.eq (h : HasFrontier t frontier) : evictionFrontier t = frontier := by
  rw [evictionFrontier, h.1]
  cases frontier with
  | none => rfl
  | some f =>
    rw [Option.map_some, Option.bind_some, decode_text (h.2 f rfl)]
    rfl

theorem storedMinute_eq (h : Minutes t.minutes) :
    storedMinute t m = if ClockReading m then countsAt t.minutes (formatNanos m) else 0 := by
  have hiff : ∀ r ∈ t.minutes, (decodeLogTime r.minute).toOption = some m ↔
      ClockReading m ∧ r.minute = formatNanos m := by
    intro r hr
    obtain ⟨n, hn, -, hname⟩ := h.named r hr
    rw [hname, decode_text hn]
    constructor
    · intro heq
      obtain rfl := Option.some.inj heq
      exact ⟨hn, rfl⟩
    · rintro ⟨hm, heq⟩
      rw [(text_inj hn hm).1 heq]
      rfl
  rw [storedMinute]
  split_ifs with hm
  · rw [countsAt, Keyed.find]
    congr 2
    refine List.find?_congr fun r hr => ?_
    simp [hiff r hr, hm]
  · rw [List.find?_eq_none.2 fun r hr => by simp [hiff r hr, hm]]
    rfl

theorem SourceInv.minuteTotal_eq_zero (h : SourceInv age batches source t frontier pending segs)
    (hm : ¬ClockReading m) : minuteTotal age batches source m = 0 := by
  rw [minuteTotal]
  refine List.sum_eq_zero fun c hc => ?_
  obtain ⟨b, hb, rfl⟩ := List.mem_map.1 hc
  obtain ⟨hb, hs⟩ := List.mem_filter.1 hb
  rw [minuteEntries, List.filter_eq_nil_iff.2]
  · rfl
  · intro e he
    simp only [Bool.and_eq_true, decide_eq_true_eq, not_and]
    rintro hle rfl
    exact hm (h.dated b hb (of_decide_eq_true hs) e he hle)

theorem SourceInv.vouched
    (h : SourceInv age w.batches source (w.db.log source) frontier none segs) :
    Vouched age w source where
  coverage := by
    refine ⟨segs, ?_, h.evidence.valid, h.evidence.ordered.apart, fun s hs hlabel u hu f hf => ?_⟩
    · rw [h.evidence.rows_eq]
      exact decodeCoverage_rows h.evidence.ordered h.evidence.valid
        fun p (hp : p ∈ none) => absurd hp (by simp)
    · rw [h.recorded.eq] at hf
      exact (h.positive s hs hlabel f (Or.inl hf)).trans hu.1
  counts m hf := by
    rw [h.recorded.eq] at hf
    rw [storedMinute_eq h.minutes]
    split_ifs with hm
    · exact h.counts m hm fun f hf' => hf f (hf'.resolve_right (by simp))
    · exact (h.minuteTotal_eq_zero hm).symm

/-- **Coverage proof never outlives the counts it vouches for**, in every run whose
    log cutoffs lie before the year 10000; and no frontier ever moves back. -/
theorem proof_never_outlives_counts (age : Duration) (ops later : List Op)
    (hops : ∀ op ∈ ops ++ later, op.Representable age) (source : Source) :
    Vouched age (run age {} ops) source ∧
    ∀ f ∈ evictionFrontier ((run age {} ops).db.log source),
      ∃ f' ∈ evictionFrontier ((run age {} (ops ++ later)).db.log source), f ≤ f' := by
  obtain ⟨recorded, h, -⟩ := run_inv (storeInv_init age)
    fun op (hop : op ∈ ops) => hops op (by simp [hop])
  obtain ⟨recorded', h', hle⟩ := run_inv h
    fun op (hop : op ∈ later) => hops op (by simp [hop])
  obtain ⟨segs, hs⟩ := h source
  obtain ⟨segs', hs'⟩ := h' source
  refine ⟨hs.vouched, ?_⟩
  have happend : run age {} (ops ++ later) = run age (run age {} ops) later :=
    List.foldl_append
  rw [happend, hs.recorded.eq, hs'.recorded.eq]
  exact hle source

/-- A batch of the system log that has caught up. -/
def caughtUpBatch (revision : UInt64) (q : Instant) (events : List Event) : Batch where
  kind := .normal
  source := .system
  expectedRevision := revision
  queryStartedAt := q
  startedAt := q
  finishedAt := q
  supportState := .supported
  collectionState := .ok
  reasonCode := none
  events := events
  discards := []
  examinedCount := events.length
  probeCount := 0
  discardedCount := 0
  deferred := false
  caughtUp := true
  nextOpaque := if events.length = 0 then [] else ascii "cursor"

def sampleEvent (t : Instant) : Event := ⟨t, .system, .warn, ascii "SYSTEMD_PRIORITY_4"⟩

/-- An event is committed; a pass shortens the coverage up to its cutoff and
    removes the counts before it. -/
def sampleRetention : List Op :=
  [.commit (caughtUpBatch 0 (yearStart 2026) [sampleEvent (yearStart 2026 - 90 * second)]) {},
    .prune (some (yearStart 2026 - minute)) 2 true .done]

theorem sampleRetention_vouched :
    ((run (7 * day) {} sampleRetention).db.log .system).minutes = [] ∧
    evictionFrontier ((run (7 * day) {} sampleRetention).db.log .system) =
      some (yearStart 2026 - minute) ∧
    Vouched (7 * day) (run (7 * day) {} sampleRetention) .system := by
  refine ⟨by decide, by decide,
    (proof_never_outlives_counts (7 * day) sampleRetention [] ?_ .system).1⟩
  intro op hop
  simp only [sampleRetention, List.append_nil, List.mem_cons, List.not_mem_nil, or_false] at hop
  rcases hop with rfl | rfl
  · trivial
  · intro c hc
    obtain rfl := Option.mem_some_iff.1 hc
    decide

/-- A pass with a cutoff in the year 10001 and a budget of one mutation. -/
def farCutoff : List Op :=
  [.commit (caughtUpBatch 0 (yearStart 2026) []) {}, .prune (some (yearStart 10001)) 1 true .done]

/-- The text of the cutoff sorts before the end of the row, so the row is not
    removed but moved to a start that is no stored time. -/
theorem farCutoff_breaks_row : ¬Vouched (7 * day) (run (7 * day) {} farCutoff) .system := by
  intro h
  obtain ⟨segs, hsegs, -⟩ := h.coverage
  have herror : (decodeCoverage none
      ((run (7 * day) {} farCutoff).db.log .system).coverage).toOption = none := by decide
  rw [hsegs] at herror
  cases herror

end History

end HomeLab
