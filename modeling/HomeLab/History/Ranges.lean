/-
  Ranges of stored times.

  The queries on the log tables compare times as texts.  A text is read as a
  time exactly if it is the text of that time, and such texts sort as the times,
  so each comparison selects the rows whose times satisfy it: the window of
  `queryLogMinuteCounts`, the window of `loadLogCoverage` and the order of the
  rows that retention goes by are those of the times.
-/
import HomeLab.History.Evidence
import HomeLab.LogObs.Summary

namespace HomeLab

namespace History

open LogObs

/-! ## The counts of a window -/

/-- Add counts that are consistent to a bucket, as long as all sums are safe. -/
def addLogCounts (target source : BucketCounts) : Except LogError BucketCounts :=
  if sumSafe source.severity.values 0 ≠ some source.captured then .error .unavailable
  else if (List.zipWith addSafe (target.captured :: target.discarded :: target.severity.values)
      (source.captured :: source.discarded :: source.severity.values)).any Option.isNone then
    .error .unavailable
  else .ok (target + source)

/-- Add each row to the bucket of its minute. -/
def countLogMinutes (q : SummaryQuery) :
    List MinuteRow → List BucketCounts → Except LogError (List BucketCounts)
  | [], result => .ok result
  | r :: rows, result => do
    let t ← decodeLogTime r.minute
    -- the division of durations rounds towards zero
    let index := (timeSub t q.windowStart).tdiv q.bucketInterval
    if t ≠ truncate t minute || index < 0 then .error .unavailable
    else
      match result[index.toNat]? with
      | none => .error .unavailable
      | some counts =>
        let counts ← addLogCounts counts r.counts
        countLogMinutes q rows (result.set index.toNat counts)

/-- `WHERE minute>=? AND minute<? ORDER BY minute LIMIT 10081` -/
def queryLogMinuteCounts (table : List MinuteRow) (q : SummaryQuery) :
    Except LogError (List BucketCounts) := do
  let start ← encodeLogTime q.windowStart
  let stop ← encodeLogTime q.windowEnd
  let rows := table.filter fun r => start ≤ r.minute && r.minute < stop
  countLogMinutes q (rows.take 10081) (List.replicate q.bucketCount.toNat 0)

/-! ## Comparisons -/

/-- The time that a text stands for. -/
def timeOf (text : Bytes) : Option Instant := (decodeLogTime text).toOption

variable {a b u v : Instant} {s t x y : Bytes}

theorem encodeLogTime_of_clock (h : ClockReading a) : encodeLogTime a = .ok (formatNanos a) := by
  rw [encodeLogTime, validLogTime_iff.2 h]
  rfl

theorem timeOf_eq_some : timeOf x = some u ↔ decodeLogTime x = .ok u := toOption_eq_some

/-- A text is read as a time exactly if the time is written as the text. -/
theorem decodeLogTime_iff : decodeLogTime x = .ok u ↔ encodeLogTime u = .ok x := by
  constructor
  · intro h
    obtain ⟨hclock, rfl⟩ := decodeLogTime_ok h
    exact encodeLogTime_of_clock hclock
  · intro h
    obtain ⟨hclock, rfl⟩ := encodeLogTime_ok h
    exact decode_text hclock

theorem timeOf_lt_iff (hx : timeOf x = some u) (hy : timeOf y = some v) : x < y ↔ u < v := by
  obtain ⟨hu, rfl⟩ := decodeLogTime_ok (timeOf_eq_some.1 hx)
  obtain ⟨hv, rfl⟩ := decodeLogTime_ok (timeOf_eq_some.1 hy)
  exact text_lt_iff hu hv

theorem timeOf_le_iff (hx : timeOf x = some u) (hy : timeOf y = some v) : x ≤ y ↔ u ≤ v := by
  rw [← not_lt, ← not_lt, timeOf_lt_iff hy hx]

/-! ## Selections -/

/-- The segments of the rows that a query returns. -/
def segmentsOf (rows : List CoverageRow) : Except LogError (List LogCoverageSegment) := do
  let segments ← decodeCoverage none (rows.take (maxLogCoverageRows + 1))
  if maxLogCoverageRows < segments.length then .error .unavailable else .ok segments

theorem queryLogMinuteCounts_window (hs : timeOf s = some a) (ht : timeOf t = some b)
    {table : List MinuteRow} (interval : Duration) (count : ℤ)
    (htable : ∀ r ∈ table, (timeOf r.minute).isSome = true) :
    queryLogMinuteCounts table ⟨a, b, interval, count⟩ =
      countLogMinutes ⟨a, b, interval, count⟩
        ((table.filter fun r => (timeOf r.minute).any fun m => a ≤ m && m < b).take 10081)
        (List.replicate count.toNat 0) := by
  have hrows : (table.filter fun r => decide (s ≤ r.minute) && decide (r.minute < t)) =
      table.filter fun r => (timeOf r.minute).any fun m => a ≤ m && m < b := by
    refine List.filter_congr fun r hr => ?_
    obtain ⟨m, hm⟩ := Option.isSome_iff_exists.1 (htable r hr)
    simp only [hm, Option.any_some, timeOf_le_iff hs hm, timeOf_lt_iff hm ht]
  simp only [queryLogMinuteCounts, decodeLogTime_iff.1 (timeOf_eq_some.1 hs),
    decodeLogTime_iff.1 (timeOf_eq_some.1 ht), ok_bind, hrows]

theorem loadLogCoverage_window (hs : timeOf s = some a) (ht : timeOf t = some b)
    {table : List CoverageRow}
    (htable : ∀ r ∈ table, (timeOf r.startAt).isSome = true ∧ (timeOf r.endAt).isSome = true) :
    loadLogCoverage table a b = segmentsOf
      (table.filter fun r => (timeOf r.endAt).any (a < ·) && (timeOf r.startAt).any (· < b)) := by
  have hrows : (table.filter fun r => decide (s < r.endAt) && decide (r.startAt < t)) =
      table.filter fun r => (timeOf r.endAt).any (a < ·) && (timeOf r.startAt).any (· < b) := by
    refine List.filter_congr fun r hr => ?_
    obtain ⟨l, hl⟩ := Option.isSome_iff_exists.1 (htable r hr).1
    obtain ⟨m, hm⟩ := Option.isSome_iff_exists.1 (htable r hr).2
    simp only [hl, hm, Option.any_some, timeOf_lt_iff hs hm, timeOf_lt_iff hl ht]
  simp only [loadLogCoverage, decodeLogTime_iff.1 (timeOf_eq_some.1 hs),
    decodeLogTime_iff.1 (timeOf_eq_some.1 ht), ok_bind, hrows]
  rfl

/-- **Stored times sort as instants.**  The texts of valid times are in byte
    order exactly if the times are in order, each is read back as its time, and
    no other text is read.  So any two texts that can be read, the minutes, the
    ends of the coverage rows, the frontier and the cutoff of retention, compare
    as their times, and the windows of a summary and of a commit are those of
    the times. -/
theorem log_times_sort_as_instants {a b : Instant} (ha : validLogTime a = true)
    (hb : validLogTime b = true) :
    ∃ s t, encodeLogTime a = .ok s ∧ encodeLogTime b = .ok t ∧ (s < t ↔ a < b) ∧
      decodeLogTime s = .ok a ∧
      (∀ text u, decodeLogTime text = .ok u → encodeLogTime u = .ok text) ∧
      (∀ x y u v, timeOf x = some u → timeOf y = some v → ((x < y ↔ u < v) ∧ (x ≤ y ↔ u ≤ v))) ∧
      (∀ table interval count, (∀ r ∈ table, (timeOf r.minute).isSome = true) →
        queryLogMinuteCounts table ⟨a, b, interval, count⟩ =
          countLogMinutes ⟨a, b, interval, count⟩
            ((table.filter fun r => (timeOf r.minute).any fun m => a ≤ m && m < b).take 10081)
            (List.replicate count.toNat 0)) ∧
      (∀ table, (∀ r ∈ table, (timeOf r.startAt).isSome = true ∧ (timeOf r.endAt).isSome = true) →
        loadLogCoverage table a b = segmentsOf (table.filter fun r =>
          (timeOf r.endAt).any (a < ·) && (timeOf r.startAt).any (· < b))) ∧
      ∀ tables : LogTables,
        loadLogEvictionFrontier { tables with evictedBefore := some s } = .ok (some a) := by
  have ha' := encodeLogTime_of_clock (validLogTime_iff.1 ha)
  have hb' := encodeLogTime_of_clock (validLogTime_iff.1 hb)
  have hread := decodeLogTime_iff.2 ha'
  have hs := timeOf_eq_some.2 hread
  have ht := timeOf_eq_some.2 (decodeLogTime_iff.2 hb')
  refine ⟨_, _, ha', hb', timeOf_lt_iff hs ht, hread, fun _ _ => decodeLogTime_iff.1,
    fun _ _ _ _ hx hy => ⟨timeOf_lt_iff hx hy, timeOf_le_iff hx hy⟩,
    fun _ interval count => queryLogMinuteCounts_window hs ht interval count,
    fun _ => loadLogCoverage_window hs ht, fun tables => ?_⟩
  simp only [loadLogEvictionFrontier, hread, ok_bind]

theorem log_times_sort_as_instants_second :
    ∃ s t, encodeLogTime second = .ok s ∧ encodeLogTime (2 * second) = .ok t ∧ s < t := by
  obtain ⟨s, t, hs, ht, hlt, -⟩ :=
    log_times_sort_as_instants (a := second) (b := 2 * second) (by decide) (by decide)
  exact ⟨s, t, hs, ht, hlt.2 (by decide)⟩

/-! ## What the buckets hold -/

/-- The bucket of the minute of a row. -/
def minuteBucket (q : SummaryQuery) (r : MinuteRow) : Option ℕ :=
  (timeOf r.minute).map fun m => ((timeSub m q.windowStart).tdiv q.bucketInterval).toNat

/-- What the rows of a bucket hold together. -/
def shareOf (q : SummaryQuery) (rows : List MinuteRow) (i : ℕ) : BucketCounts :=
  ((rows.filter fun r => minuteBucket q r = some i).map MinuteRow.counts).sum

theorem addLogCounts_ok {target source counts : BucketCounts}
    (h : addLogCounts target source = .ok counts) : counts = target + source := by
  unfold addLogCounts at h
  split_ifs at h
  exact (Except.ok.inj h).symm

/-- Every row goes to one bucket, and every bucket gets the rows that are its own. -/
theorem countLogMinutes_ok {q : SummaryQuery} {rows : List MinuteRow}
    {result buckets : List BucketCounts} (h : countLogMinutes q rows result = .ok buckets) :
    buckets.length = result.length ∧ (∀ r ∈ rows, ∃ i < result.length, minuteBucket q r = some i) ∧
      ∀ i c, result[i]? = some c → buckets[i]? = some (c + shareOf q rows i) := by
  induction rows generalizing result with
  | nil =>
    obtain rfl := Except.ok.inj h
    exact ⟨rfl, by simp, fun i c hc => by simpa [shareOf] using hc⟩
  | cons r rows ih =>
    rw [countLogMinutes] at h
    obtain ⟨t, ht, h⟩ := bind_eq_ok.1 h
    have hbucket : minuteBucket q r =
        some ((timeSub t q.windowStart).tdiv q.bucketInterval).toNat := by
      rw [minuteBucket, timeOf_eq_some.2 ht]
      rfl
    dsimp only at h
    generalize ((timeSub t q.windowStart).tdiv q.bucketInterval).toNat = n at h hbucket
    split_ifs at h
    split at h
    · cases h
    rename_i counts hcounts
    obtain ⟨sum, hsum, h⟩ := bind_eq_ok.1 h
    obtain rfl := addLogCounts_ok hsum
    have hn := (List.getElem?_eq_some_iff.1 hcounts).1
    obtain ⟨hlength, hrows, hshare⟩ := ih h
    rw [List.length_set] at hlength hrows
    refine ⟨hlength, List.forall_mem_cons.2 ⟨⟨n, hn, hbucket⟩, hrows⟩, fun i c hc => ?_⟩
    by_cases hi : n = i
    · subst hi
      obtain rfl := Option.some.inj (hcounts.symm.trans hc)
      rw [hshare n _ (List.getElem?_set_self hn), add_assoc]
      simp [shareOf, hbucket]
    · rw [hshare i c ((List.getElem?_set_ne hi).trans hc)]
      simp [shareOf, hbucket, hi]

/-- **A summary loses no count.**  Every row that the query returns goes to one of
    the buckets asked for, and each bucket is the sum of its rows. -/
theorem minute_counts_conserved {table : List MinuteRow} {q : SummaryQuery}
    {buckets : List BucketCounts} (h : queryLogMinuteCounts table q = .ok buckets) :
    ∃ start stop, encodeLogTime q.windowStart = .ok start ∧ encodeLogTime q.windowEnd = .ok stop ∧
      let rows := (table.filter fun r => start ≤ r.minute && r.minute < stop).take 10081
      buckets.length = q.bucketCount.toNat ∧
      (∀ r ∈ rows, ∃ i < buckets.length, minuteBucket q r = some i) ∧
      ∀ i < buckets.length, buckets[i]? = some (shareOf q rows i) := by
  unfold queryLogMinuteCounts at h
  obtain ⟨start, hstart, h⟩ := bind_eq_ok.1 h
  obtain ⟨stop, hstop, h⟩ := bind_eq_ok.1 h
  obtain ⟨hlength, hrows, hshare⟩ := countLogMinutes_ok h
  rw [List.length_replicate] at hlength hrows
  refine ⟨start, stop, hstart, hstop, hlength, by rwa [hlength], fun i hi => ?_⟩
  rw [hshare i 0 (List.getElem?_replicate_of_lt (hlength ▸ hi)), zero_add]

/-- Four minutes, of which the last is after the window of two buckets. -/
def sampleMinutes : List MinuteRow :=
  [⟨formatNanos minute, { discarded := 1 }⟩,
    ⟨formatNanos (2 * minute), { captured := 3, severity := { warn := 3 } }⟩,
    ⟨formatNanos (4 * minute), { captured := 5, severity := { info := 4, error := 1 } }⟩,
    ⟨formatNanos (5 * minute), { captured := 7, severity := { info := 7 } }⟩]

theorem minute_counts_conserved_minutes :
    ∃ start stop, encodeLogTime minute = .ok start ∧ encodeLogTime (5 * minute) = .ok stop ∧
      let rows := (sampleMinutes.filter fun r => start ≤ r.minute && r.minute < stop).take 10081
      let q : SummaryQuery := ⟨minute, 5 * minute, 2 * minute, 2⟩
      shareOf q rows 0 = ⟨3, 1, { warn := 3 }⟩ ∧ shareOf q rows 1 = ⟨5, 0, { info := 4, error := 1 }⟩ := by
  have h : queryLogMinuteCounts sampleMinutes ⟨minute, 5 * minute, 2 * minute, 2⟩ =
      .ok [⟨3, 1, { warn := 3 }⟩, ⟨5, 0, { info := 4, error := 1 }⟩] := by decide +kernel
  obtain ⟨start, stop, hstart, hstop, -, -, hshare⟩ := minute_counts_conserved h
  exact ⟨start, stop, hstart, hstop, (Option.some.inj (hshare 0 (by decide))).symm,
    (Option.some.inj (hshare 1 (by decide))).symm⟩

end History

end HomeLab
