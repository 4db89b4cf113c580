/-
  What the rows of the log tables stand for.

  Texts of valid times are read back and sort as the times, so a coverage table
  whose rows are those of ordered valid segments (`Evidence`) is loaded as these
  segments, and the delta that a commit writes leaves exactly the segments
  outside its window and the new ones.  The counts of a minute are read by its
  text (`countsAt`); every write adds to them.
-/
import HomeLab.History.Maintenance

namespace HomeLab

namespace History

open LogObs Segment

/-! ## Texts -/

variable {a b t : Instant}

theorem clock_years (h : ClockReading t) : 0 ≤ year t ∧ year t ≤ 9999 := by
  have := (clockReading_iff t).1 h
  exact ⟨by linarith [this.2.1], this.2.2⟩

theorem text_lt_iff (ha : ClockReading a) (hb : ClockReading b) :
    formatNanos a < formatNanos b ↔ a < b :=
  formatNanos_lt_iff (clock_years ha).1 (clock_years ha).2 (clock_years hb).1 (clock_years hb).2

theorem text_inj (ha : ClockReading a) (hb : ClockReading b) :
    formatNanos a = formatNanos b ↔ a = b := by
  refine ⟨fun h => ?_, fun h => by rw [h]⟩
  have hparse := congrArg parseRFC3339 h
  rw [parse_formatNanos (clock_years ha).1 (clock_years ha).2,
    parse_formatNanos (clock_years hb).1 (clock_years hb).2] at hparse
  exact Option.some.inj hparse

theorem decode_text (h : ClockReading t) : decodeLogTime (formatNanos t) = .ok t := by
  rw [decodeLogTime, parse_formatNanos (clock_years h).1 (clock_years h).2]
  simp [validLogTime_iff.2 h]

theorem decodeLogTime_ok {text : Bytes} (h : decodeLogTime text = .ok t) :
    ClockReading t ∧ text = formatNanos t := by
  rw [decodeLogTime] at h
  cases hp : parseRFC3339 text with
  | none => simp [hp] at h
  | some u =>
    rw [hp] at h
    dsimp only at h
    split_ifs at h with hc
    obtain rfl := Except.ok.inj h
    simp only [Bool.or_eq_true, Bool.not_eq_true', decide_eq_true_eq, not_or, Bool.not_eq_false,
      ne_eq, not_not] at hc
    exact ⟨validLogTime_iff.1 hc.1, hc.2.symm⟩

theorem encodeLogTime_ok {text : Bytes} (h : encodeLogTime t = .ok text) :
    ClockReading t ∧ text = formatNanos t := by
  rw [encodeLogTime] at h
  split_ifs at h with hc
  exact ⟨validLogTime_iff.1 (by simpa using hc), (Except.ok.inj h).symm⟩

/-! ## Coverage rows -/

/-- The rows are those of the ordered valid segments. -/
structure Evidence (rows : List CoverageRow) (segs : List LogCoverageSegment) : Prop where
  rows_eq : rows = segs.map coverageRow
  ordered : Ordered segs
  valid : ∀ s ∈ segs, validLogSegment s = true

variable {rows table : List CoverageRow} {segs old next : List LogCoverageSegment}
  {s : LogCoverageSegment}

theorem clock_start (h : validLogSegment s = true) : ClockReading s.start :=
  (validLogSegment_iff.1 h).1

theorem clock_stop (h : validLogSegment s = true) : ClockReading s.stop :=
  (validLogSegment_iff.1 h).2.1

theorem sorted_coverageRow (hord : Ordered segs) (hvalid : ∀ s ∈ segs, validLogSegment s = true) :
    Keyed.Sorted CoverageRow.startAt (segs.map coverageRow) := by
  refine List.pairwise_map.2 (hord.sorted.imp_of_mem fun ha hb hlt => ?_)
  exact (text_lt_iff (clock_start (hvalid _ ha)) (clock_start (hvalid _ hb))).2 hlt

theorem Evidence.sorted (h : Evidence rows segs) : Keyed.Sorted CoverageRow.startAt rows :=
  h.rows_eq ▸ sorted_coverageRow h.ordered h.valid

/-- Sorted rows are the rows of the segments if they have the same members. -/
theorem Evidence.of_mem (hsorted : Keyed.Sorted CoverageRow.startAt rows) (hord : Ordered segs)
    (hvalid : ∀ s ∈ segs, validLogSegment s = true)
    (hmem : ∀ r, r ∈ rows ↔ ∃ s ∈ segs, coverageRow s = r) : Evidence rows segs :=
  ⟨hsorted.ext (sorted_coverageRow hord hvalid) fun r => by rw [hmem, List.mem_map], hord, hvalid⟩

variable {r : CoverageRow} {floor q : Instant} {frontier : Option Instant}

theorem Evidence.mem (h : Evidence rows segs) :
    r ∈ rows ↔ ∃ s ∈ segs, coverageRow s = r := by
  rw [h.rows_eq, List.mem_map]

theorem decodeCoverage_rows {previous : Option Instant} (hord : Ordered segs)
    (hvalid : ∀ s ∈ segs, validLogSegment s = true)
    (hprev : ∀ p ∈ previous, ∀ s ∈ segs, p ≤ s.start) :
    decodeCoverage previous (segs.map coverageRow) = .ok segs := by
  induction segs generalizing previous with
  | nil => rfl
  | cons s segs ih =>
    have hs := hvalid s (by simp)
    have hafter : ∀ p ∈ some s.stop, ∀ a ∈ segs, p ≤ a.start := fun p hp a ha =>
      Option.mem_some_iff.1 hp ▸ (List.pairwise_cons.1 hord.apart).1 a ha
    have hany : previous.any (fun p => decide (s.start < p)) = false := by
      cases previous with
      | none => rfl
      | some p => simpa using hprev p rfl s (by simp)
    have hcheck : (!validLogSegment ⟨s.start, s.stop, s.label⟩ ||
        previous.any fun p => decide (s.start < p)) = false := by
      simp [hs, hany]
    have hrest := ih hord.tail (fun a ha => hvalid a (by simp [ha])) hafter
    rw [List.map_cons, decodeCoverage]
    simp only [coverageRow, decode_text (clock_start hs), decode_text (clock_stop hs), ok_bind,
      hcheck, Bool.false_eq_true, if_false] at hrest ⊢
    rw [hrest, ok_bind]

theorem filter_coverageRow (hfloor : ClockReading floor) (hq : ClockReading q)
    (hvalid : ∀ s ∈ segs, validLogSegment s = true) :
    ((segs.map coverageRow).filter fun r =>
      decide (formatNanos floor < r.endAt) && decide (r.startAt < formatNanos q)) =
    (segs.filter fun s => decide (floor < s.stop) && decide (s.start < q)).map coverageRow := by
  rw [List.filter_map]
  refine congrArg _ (List.filter_congr fun s hs => ?_)
  simp only [Function.comp_apply, coverageRow, text_lt_iff hfloor (clock_stop (hvalid s hs)),
    text_lt_iff (clock_start (hvalid s hs)) hq]

theorem loadLogCoverage_ok (h : Evidence table segs)
    (hload : loadLogCoverage table floor q = .ok old) :
    ClockReading floor ∧ ClockReading q ∧
      old = segs.filter fun s => decide (floor < s.stop) && decide (s.start < q) := by
  rw [loadLogCoverage] at hload
  obtain ⟨left, hl, hload⟩ := bind_eq_ok.1 hload
  obtain ⟨right, hr, hload⟩ := bind_eq_ok.1 hload
  obtain ⟨hfloor, rfl⟩ := encodeLogTime_ok hl
  obtain ⟨hq, rfl⟩ := encodeLogTime_ok hr
  refine ⟨hfloor, hq, ?_⟩
  dsimp only at hload
  rw [h.rows_eq, filter_coverageRow hfloor hq h.valid, ← List.map_take] at hload
  set window := segs.filter fun s => decide (floor < s.stop) && decide (s.start < q) with hw
  have hsub : (window.take (maxLogCoverageRows + 1)).Sublist segs :=
    (List.take_sublist _ _).trans List.filter_sublist
  rw [decodeCoverage_rows (h.ordered.sublist hsub) (fun s hs => h.valid s (hsub.subset hs))
    (fun p (hp : p ∈ none) => absurd hp (by simp)), ok_bind] at hload
  split_ifs at hload with hlen
  obtain rfl := Except.ok.inj hload
  have hle : window.length ≤ maxLogCoverageRows + 1 := by
    by_contra hgt
    rw [List.length_take, min_eq_left (by omega)] at hlen
    omega
  exact List.take_of_length_le hle

/-! ### Writing the difference -/

variable {table' : List CoverageRow}

theorem deleteCoverage_ok (h : deleteCoverage next old table = .ok table')
    (hsorted : Keyed.Sorted CoverageRow.startAt table) :
    Keyed.Sorted CoverageRow.startAt table' ∧
    ∀ r, r ∈ table' ↔ r ∈ table ∧
      ∀ s ∈ old, r.startAt = formatNanos s.start → ∃ n ∈ next, n.start = s.start := by
  induction old generalizing table with
  | nil =>
    obtain rfl := Except.ok.inj h
    exact ⟨hsorted, by simp⟩
  | cons s old ih =>
    rw [deleteCoverage] at h
    by_cases hn : next.any (fun n => decide (n.start = s.start)) = true
    · rw [if_pos hn] at h
      obtain ⟨hs, hmem⟩ := ih h hsorted
      refine ⟨hs, fun r => ?_⟩
      rw [hmem, List.forall_mem_cons]
      have : ∃ n ∈ next, n.start = s.start := by simpa using hn
      tauto
    · rw [if_neg hn] at h
      obtain ⟨key, he, h⟩ := bind_eq_ok.1 h
      obtain ⟨-, rfl⟩ := encodeLogTime_ok he
      obtain ⟨hs, hmem⟩ := ih h (Keyed.sorted_erase hsorted _)
      refine ⟨hs, fun r => ?_⟩
      have hno : ¬∃ n ∈ next, n.start = s.start := by simpa using hn
      rw [hmem, List.forall_mem_cons, Keyed.mem_erase, and_assoc]
      exact and_congr_right fun _ => and_congr_left fun _ => (imp_iff_not hno).symm

theorem mem_of_unchanged (h : unchanged old s = true) : s ∈ old :=
  List.mem_reverse.1 (List.mem_of_find?_eq_some (of_decide_eq_true h))

theorem mem_upsertCoverage {r' : CoverageRow} :
    r' ∈ upsertCoverage table r ↔ r' = r ∨ r' ∈ table ∧ r'.startAt ≠ r.startAt := by
  rw [upsertCoverage, Keyed.mem_insert, Keyed.mem_erase]

theorem sorted_upsertCoverage (hsorted : Keyed.Sorted CoverageRow.startAt table) :
    Keyed.Sorted CoverageRow.startAt (upsertCoverage table r) :=
  Keyed.sorted_insert (Keyed.sorted_erase hsorted _) fun _ hb => (Keyed.mem_erase.1 hb).2

theorem insertCoverage_ok (h : insertCoverage old next table = .ok table') (hnext : Ordered next)
    (hvalid : ∀ n ∈ next, validLogSegment n = true)
    (hsorted : Keyed.Sorted CoverageRow.startAt table) :
    Keyed.Sorted CoverageRow.startAt table' ∧
    ∀ r, r ∈ table' ↔ (∃ n ∈ next, unchanged old n = false ∧ coverageRow n = r) ∨
      r ∈ table ∧ ∀ n ∈ next, unchanged old n = false → r.startAt ≠ formatNanos n.start := by
  induction next generalizing table with
  | nil =>
    obtain rfl := Except.ok.inj h
    exact ⟨hsorted, by simp⟩
  | cons s next ih =>
    have hvalid' : ∀ n ∈ next, validLogSegment n = true := fun n hn => hvalid n (by simp [hn])
    rw [insertCoverage] at h
    by_cases hu : unchanged old s = true
    · rw [if_pos hu] at h
      obtain ⟨hs, hmem⟩ := ih h hnext.tail hvalid' hsorted
      refine ⟨hs, fun r => ?_⟩
      rw [hmem]
      simp [hu]
    · rw [if_neg hu] at h
      obtain ⟨start, hl, h⟩ := bind_eq_ok.1 h
      obtain ⟨stop, hr, h⟩ := bind_eq_ok.1 h
      obtain ⟨hclock, rfl⟩ := encodeLogTime_ok hl
      obtain ⟨-, rfl⟩ := encodeLogTime_ok hr
      dsimp only at h
      split_ifs at h
      obtain ⟨hs, hmem⟩ := ih h hnext.tail hvalid' (sorted_upsertCoverage hsorted)
      have hfalse : unchanged old s = false := by simpa using hu
      have hdistinct : ∀ n ∈ next, unchanged old n = false →
          (coverageRow s).startAt ≠ formatNanos n.start := fun n hn _ heq => by
        have hlt := (hnext.proper s (by simp)).trans_le
          ((List.pairwise_cons.1 hnext.apart).1 n hn)
        exact hlt.ne ((text_inj hclock (clock_start (hvalid' n hn))).1 heq)
      refine ⟨hs, fun r => ?_⟩
      rw [hmem, mem_upsertCoverage]
      simp only [List.mem_cons, exists_eq_or_imp, forall_eq_or_imp, hfalse, true_and,
        forall_const]
      constructor
      · rintro (hn | ⟨rfl | ⟨hr, hne⟩, hall⟩)
        · exact Or.inl (Or.inr hn)
        · exact Or.inl (Or.inl rfl)
        · exact Or.inr ⟨hr, hne, hall⟩
      · rintro ((rfl | hn) | ⟨hr, hne, hall⟩)
        · exact Or.inr ⟨Or.inl rfl, hdistinct⟩
        · exact Or.inl hn
        · exact Or.inr ⟨Or.inr ⟨hr, hne⟩, hall⟩

theorem eq_of_start_text (hord : Ordered segs) (hvalid : ∀ s ∈ segs, validLogSegment s = true)
    {s s' : LogCoverageSegment} (hs : s ∈ segs) (hs' : s' ∈ segs)
    (heq : formatNanos s.start = formatNanos s'.start) : s = s' := by
  by_contra hne
  have := (text_inj (clock_start (hvalid _ hs)) (clock_start (hvalid _ hs'))).1 heq
  rcases hord.before_or_after hs hs' hne with hle | hle
  · exact absurd (hord.proper _ hs) (not_lt.2 (this ▸ hle))
  · exact absurd (hord.proper _ hs') (not_lt.2 (this ▸ hle))

/-- **The delta write.**  The table keeps its segments outside `old`, and has the
    new ones for the old ones. -/
theorem writeLogCoverage_ok (h : Evidence table segs) (hold : ∀ s ∈ old, s ∈ segs)
    (hnext : Ordered next) (hvalid : ∀ n ∈ next, validLogSegment n = true)
    (hapart : ∀ s ∈ segs, s ∉ old → ∀ n ∈ next, s.start ≠ n.start)
    (hw : writeLogCoverage table old next = .ok table') :
    Keyed.Sorted CoverageRow.startAt table' ∧
    ∀ r, r ∈ table' ↔ ∃ s, (s ∈ segs ∧ s ∉ old ∨ s ∈ next) ∧ coverageRow s = r := by
  rw [writeLogCoverage] at hw
  obtain ⟨kept, hd, hw⟩ := bind_eq_ok.1 hw
  obtain ⟨hsorted, hkept⟩ := deleteCoverage_ok hd h.sorted
  obtain ⟨hsorted', hmem⟩ := insertCoverage_ok hw hnext hvalid hsorted
  have hinj : ∀ {s s' : LogCoverageSegment}, s ∈ segs → s' ∈ segs →
      formatNanos s.start = formatNanos s'.start → s = s' :=
    eq_of_start_text h.ordered h.valid
  refine ⟨hsorted', fun r => ?_⟩
  rw [hmem, hkept]
  constructor
  · rintro (⟨n, hn, -, rfl⟩ | ⟨⟨hr, hdel⟩, hins⟩)
    · exact ⟨n, Or.inr hn, rfl⟩
    · obtain ⟨s, hs, rfl⟩ := h.mem.1 hr
      by_cases ho : s ∈ old
      · obtain ⟨n, hn, heq⟩ := hdel s ho rfl
        have hu : unchanged old n = true := by
          by_contra hu
          exact hins n hn (by simpa using hu) (by rw [heq]; rfl)
        have hsn : s = n := hinj hs (hold n (mem_of_unchanged hu)) (by rw [heq])
        exact ⟨s, Or.inr (hsn ▸ hn), rfl⟩
      · exact ⟨s, Or.inl ⟨hs, ho⟩, rfl⟩
  · rintro ⟨s, ⟨hs, ho⟩ | hn, rfl⟩
    · refine Or.inr ⟨⟨h.mem.2 ⟨s, hs, rfl⟩, fun s' hs' heq => ?_⟩, fun n hn _ heq => ?_⟩
      · exact absurd (hinj hs (hold s' hs') heq ▸ hs') ho
      · exact hapart s hs ho n hn
          ((text_inj (clock_start (h.valid s hs)) (clock_start (hvalid n hn))).1 heq)
    · cases hu : unchanged old s with
      | false => exact Or.inl ⟨s, hn, hu, rfl⟩
      | true =>
        have hs := hold s (mem_of_unchanged hu)
        refine Or.inr ⟨⟨h.mem.2 ⟨s, hs, rfl⟩, fun s' hs' heq => ?_⟩, fun n hn' hu' heq => ?_⟩
        · exact ⟨s, hn, by rw [hinj hs (hold s' hs') heq]⟩
        · rw [← eq_of_start_text hnext hvalid hn hn' heq, hu] at hu'
          cases hu'

theorem lookup_filter {p : LogCoverageSegment → Bool} {t : Instant}
    (h : ∀ s ∈ segs, p s = false → ¬s.Contains t) : lookup (segs.filter p) t = lookup segs t := by
  induction segs with
  | nil => rfl
  | cons s segs ih =>
    have hrest := ih fun a ha => h a (by simp [ha])
    cases hp : p s with
    | true => rw [List.filter_cons_of_pos hp, lookup_cons, lookup_cons, hrest]
    | false =>
      rw [List.filter_cons_of_neg (by simp [hp]), hrest, lookup_cons, if_neg (h s (by simp) hp)]

/-- The eviction frontier as an instant. -/
def HasFrontier (t : LogTables) (frontier : Option Instant) : Prop :=
  t.evictedBefore = frontier.map formatNanos ∧ ∀ f ∈ frontier, ClockReading f

theorem HasFrontier.load {t : LogTables} (h : HasFrontier t frontier) :
    loadLogEvictionFrontier t = .ok frontier := by
  rw [loadLogEvictionFrontier, h.1]
  cases frontier with
  | none => rfl
  | some f =>
    dsimp only [Option.map_some]
    rw [decode_text (h.2 f rfl), ok_bind]

theorem le_raisedFloor (floor : Instant) (frontier : Option Instant) :
    floor ≤ raisedFloor floor frontier := by
  cases frontier with
  | none => exact le_rfl
  | some f =>
    rw [raisedFloor]
    split_ifs with h
    · exact h.le
    · exact le_rfl

theorem frontier_le_raisedFloor {f : Instant} (hf : f ∈ frontier) :
    f ≤ raisedFloor floor frontier := by
  obtain rfl := hf
  rw [raisedFloor]
  split_ifs with h
  · exact le_rfl
  · exact not_lt.1 h

/-- The segments of the window, whether it is empty or not. -/
theorem windowSegments_ok {addition segments : List LogCoverageSegment} (hfloor : 0 < floor)
    (hq : ClockReading q) (hspan : q - floor ≤ logRetention) (hold : Ordered old)
    (holdv : ∀ s ∈ old, validLogSegment s = true) (hadd : Ordered addition)
    (haddv : ∀ s ∈ addition, validLogSegment s = true)
    (hlen : addition.length ≤ maxCoverageSegmentsPerCommit)
    (h : windowSegments old addition floor q = .ok segments) :
    InWindow floor q segments ∧ (∀ s ∈ segments, validLogSegment s = true) ∧
      ∀ u, floor ≤ u → u < q → lookup segments u = overlay (lookup old u) (lookup addition u) := by
  rw [windowSegments] at h
  split_ifs at h with hlt
  · have hfloor' : ClockReading floor := ⟨hfloor, hlt.trans hq.2⟩
    obtain ⟨result, hr, hwin, hlook⟩ :=
      mergeLogCoverage_spec hfloor' hq hlt hspan hold holdv haddv hlen
    obtain rfl := Except.ok.inj (hr.symm.trans h)
    refine ⟨hwin, hwin.valid hfloor' hq, fun u h1 h2 => ?_⟩
    rw [hlook u h1 h2, foldl_overlay hadd]
  · obtain rfl := Except.ok.inj h
    exact ⟨.nil, by simp, fun u h1 h2 => absurd (h1.trans_lt h2) hlt⟩

/-- **Coverage after a commit.**  The rows are those of ordered segments again;
    those that are new start at the raised floor or later, and from there on the
    addition is laid over what was known. -/
theorem commitLogCoverage_ok {t : LogTables} {addition : List LogCoverageSegment}
    {rows : List CoverageRow} (h : Evidence t.coverage segs) (hstop : ∀ s ∈ segs, s.stop ≤ q)
    (hfrontier : HasFrontier t frontier) (hspan : q - floor ≤ logRetention)
    (hadd : Ordered addition) (haddv : ∀ s ∈ addition, validLogSegment s = true)
    (hlen : addition.length ≤ maxCoverageSegmentsPerCommit)
    (hc : commitLogCoverage t addition floor q = .ok rows) :
    ∃ segs', Evidence rows segs' ∧ (∀ s ∈ segs', s.stop ≤ q) ∧
      (∀ s ∈ segs', s ∈ segs ∨ raisedFloor floor frontier ≤ s.start) ∧
      ∀ u, raisedFloor floor frontier ≤ u → u < q →
        lookup segs' u = overlay (lookup segs u) (lookup addition u) := by
  rw [commitLogCoverage, hfrontier.load] at hc
  obtain ⟨old, hl, hc⟩ := bind_eq_ok.1 hc
  rw [ok_bind] at hc
  obtain ⟨segments, hw, hc⟩ := bind_eq_ok.1 hc
  split_ifs at hc
  obtain ⟨hfloor, hq, hold⟩ := loadLogCoverage_ok h hl
  have hle := le_raisedFloor floor frontier
  have holdsub : old.Sublist segs := hold ▸ List.filter_sublist
  -- the segments that are not loaded end at the floor
  have hkept : ∀ s ∈ segs, s ∉ old → s.stop ≤ floor := fun s hs hno => by
    have hstart : s.start < q := (h.ordered.proper s hs).trans_le (hstop s hs)
    simpa [hold, hs, hstart] using hno
  obtain ⟨hwin, hvalid, hlook⟩ := windowSegments_ok (hfloor.1.trans_le hle) hq
    ((sub_le_sub_left hle q).trans hspan) (h.ordered.sublist holdsub)
    (fun s hs => h.valid s (holdsub.subset hs)) hadd haddv hlen hw
  have hbefore : ∀ s ∈ segs, s ∉ old → ∀ n ∈ segments, s.stop ≤ n.start := fun s hs hno n hn =>
    (hkept s hs hno).trans (hle.trans (hwin.within n hn).1)
  obtain ⟨hsorted, hmem⟩ := writeLogCoverage_ok h (fun s hs => holdsub.subset hs) hwin.ordered
    hvalid (fun s hs hno n hn => ((h.ordered.proper s hs).trans_le (hbefore s hs hno n hn)).ne) hc
  have hfilter : ∀ {s}, s ∈ segs.filter (fun s => decide (s ∉ old)) ↔ s ∈ segs ∧ s ∉ old := by
    simp
  refine ⟨segs.filter (fun s => decide (s ∉ old)) ++ segments, .of_mem hsorted ?_ ?_ ?_, ?_, ?_,
    ?_⟩
  · refine ⟨fun s hs => ?_, List.pairwise_append.2
      ⟨h.ordered.apart.sublist List.filter_sublist, hwin.ordered.apart, fun s hs n hn => ?_⟩⟩
    · rcases List.mem_append.1 hs with hs | hs
      · exact h.ordered.proper s (hfilter.1 hs).1
      · exact hwin.ordered.proper s hs
    · exact hbefore s (hfilter.1 hs).1 (hfilter.1 hs).2 n hn
  · intro s hs
    rcases List.mem_append.1 hs with hs | hs
    · exact h.valid s (hfilter.1 hs).1
    · exact hvalid s hs
  · intro r
    simp only [hmem, List.mem_append, hfilter]
  · intro s hs
    rcases List.mem_append.1 hs with hs | hs
    · exact hstop s (hfilter.1 hs).1
    · exact (hwin.within s hs).2.1
  · intro s hs
    rcases List.mem_append.1 hs with hs | hs
    · exact Or.inl (hfilter.1 hs).1
    · exact Or.inr (hwin.within s hs).1
  · intro u h1 h2
    have hpast : lookup (segs.filter fun s => decide (s ∉ old)) u = none :=
      lookup_eq_none_of_stop_le fun s hs =>
        (hkept s (hfilter.1 hs).1 (hfilter.1 hs).2).trans (hle.trans h1)
    have hsame : lookup old u = lookup segs u := by
      rw [hold]
      refine lookup_filter fun s hs hp hcontains => ?_
      have hno : s ∉ old := by
        rw [hold]
        simp [hp]
      exact absurd (hcontains.2.trans_le (hkept s hs hno)) (not_lt.2 (hle.trans h1))
    rw [lookup_append, hpast, Option.none_or, hlook u h1 h2, hsame]

/-! ### Removing and trimming rows -/

theorem Evidence.delete (h : Evidence rows segs) (hs : s ∈ segs) :
    Evidence (deleteCoverageRow rows (coverageRow s)) (segs.filter fun a => decide (a ≠ s)) := by
  refine .of_mem (Keyed.sorted_erase h.sorted _) (h.ordered.sublist List.filter_sublist)
    (fun a ha => h.valid a (List.mem_of_mem_filter ha)) fun r => ?_
  rw [deleteCoverageRow, Keyed.mem_erase, h.mem]
  constructor
  · rintro ⟨⟨a, ha, rfl⟩, hne⟩
    refine ⟨a, List.mem_filter.2 ⟨ha, decide_eq_true fun heq => hne (by rw [heq])⟩, rfl⟩
  · rintro ⟨a, ha, rfl⟩
    obtain ⟨ha, hne⟩ := List.mem_filter.1 ha
    exact ⟨⟨a, ha, rfl⟩, fun heq =>
      of_decide_eq_true hne (eq_of_start_text h.ordered h.valid ha hs heq)⟩

theorem Evidence.move (h : Evidence rows segs) (hs : s ∈ segs) {u : Instant} (hu : s.start ≤ u)
    (hstop : u < s.stop) {rows' : List CoverageRow}
    (hm : moveCoverage rows (coverageRow s) (formatNanos u) = .ok rows') :
    Evidence rows' (trim s u segs) := by
  have hclock : ClockReading u :=
    ⟨(clock_start (h.valid s hs)).1.trans_le hu, hstop.trans (clock_stop (h.valid s hs)).2⟩
  have hdel := h.delete hs
  rw [moveCoverage] at hm
  split_ifs at hm with hc
  obtain rfl := Except.ok.inj hm
  simp only [Bool.or_eq_true, not_or, Option.isSome_iff_ne_none, ne_eq, not_not] at hc
  refine .of_mem (Keyed.sorted_insert hdel.sorted fun r hr => Keyed.find_eq_none.1 hc.2 r hr)
    (h.ordered.trim hu hstop) (fun a ha => ?_) fun r => ?_
  · rcases (mem_trim hs).1 ha with rfl | ⟨ha, -⟩
    · obtain ⟨-, h2, -, h4⟩ := validLogSegment_iff.1 (h.valid s hs)
      exact validLogSegment_iff.2 ⟨hclock, h2, hstop, h4⟩
    · exact h.valid a ha
  · rw [Keyed.mem_insert, ← deleteCoverageRow, hdel.mem]
    constructor
    · rintro (rfl | ⟨a, ha, rfl⟩)
      · exact ⟨_, (mem_trim hs).2 (Or.inl rfl), rfl⟩
      · obtain ⟨ha, hne⟩ := List.mem_filter.1 ha
        exact ⟨a, (mem_trim hs).2 (Or.inr ⟨ha, of_decide_eq_true hne⟩), rfl⟩
    · rintro ⟨a, ha, rfl⟩
      rcases (mem_trim hs).1 ha with rfl | ⟨ha, hne⟩
      · exact Or.inl rfl
      · exact Or.inr ⟨a, List.mem_filter.2 ⟨ha, decide_eq_true hne⟩, rfl⟩

/-- No positive segment starts before the one found first. -/
theorem start_le_of_find (h : Evidence rows segs)
    (hf : rows.find? (fun r => decide (r.reason = none)) = some (coverageRow s)) (hs : s ∈ segs)
    {a : LogCoverageSegment} (ha : a ∈ segs) (hlabel : a.label = none) : s.start ≤ a.start := by
  obtain ⟨-, before, after, hrows, hbefore⟩ := List.find?_eq_some_iff_append.1 hf
  have hmem : coverageRow a ∈ rows := h.mem.2 ⟨a, ha, rfl⟩
  have hsorted := h.sorted
  rw [hrows] at hmem hsorted
  rcases List.mem_append.1 hmem with hin | hin
  · exact absurd (hbefore _ hin) (by simp [coverageRow, hlabel])
  · rcases List.mem_cons.1 hin with heq | hin
    · rw [eq_of_start_text h.ordered h.valid ha hs (congrArg CoverageRow.startAt heq)]
    · have hlt := (List.pairwise_cons.1 (List.pairwise_append.1 hsorted).2.1).1 _ hin
      exact ((text_lt_iff (clock_start (h.valid s hs)) (clock_start (h.valid a ha))).1 hlt).le

/-- Trimming finds no positive segment before the frontier, or it shortens or
    removes one. -/
theorem trimPositiveLogProof_ok (h : Evidence rows segs) {frontier : Instant}
    {result : Option (List CoverageRow × Bool)}
    (ht : trimPositiveLogProof rows frontier = .ok result) :
    (result = none ∧ ∀ s ∈ segs, s.label = none → frontier ≤ s.start) ∨
    ∃ rows' removed s, result = some (rows', removed) ∧ s ∈ segs ∧
      (Evidence rows' (segs.filter fun a => decide (a ≠ s)) ∨
        s.start < frontier ∧ frontier < s.stop ∧ Evidence rows' (trim s frontier segs)) := by
  rw [trimPositiveLogProof] at ht
  cases hf : rows.find? (fun r => decide (r.reason = none)) with
  | none =>
    rw [hf] at ht
    obtain rfl := Except.ok.inj ht
    refine Or.inl ⟨rfl, fun s hs hlabel => ?_⟩
    have := List.find?_eq_none.1 hf (coverageRow s) (h.mem.2 ⟨s, hs, rfl⟩)
    exact absurd (decide_eq_true hlabel) this
  | some r =>
    rw [hf] at ht
    obtain ⟨s, hs, rfl⟩ := h.mem.1 (List.mem_of_find?_eq_some hf)
    have hv := h.valid s hs
    have hstart' : decodeLogTime (coverageRow s).startAt = .ok s.start := decode_text (clock_start hv)
    have hstop' : decodeLogTime (coverageRow s).endAt = .ok s.stop := decode_text (clock_stop hv)
    simp only [hstart', hstop', ok_bind] at ht
    split_ifs at ht with hstart hstop
    · obtain rfl := Except.ok.inj ht
      refine Or.inl ⟨rfl, fun a ha hlabel => ?_⟩
      have hge : frontier ≤ s.start := by simpa using hstart
      exact hge.trans (start_le_of_find h hf hs ha hlabel)
    · obtain ⟨rows', hm, ht⟩ := bind_eq_ok.1 ht
      have hev := h.move hs (le_of_lt (by simpa using hstart)) hstop hm
      obtain rfl := Except.ok.inj ht
      exact Or.inr ⟨rows', false, s, rfl, hs, Or.inr ⟨by simpa using hstart, hstop, hev⟩⟩
    · obtain rfl := Except.ok.inj ht
      exact Or.inr ⟨_, true, s, rfl, hs, Or.inl (h.delete hs)⟩

/-! ## Minutes -/

/-- The counts stored under a text. -/
def countsAt (rows : List MinuteRow) (key : Bytes) : BucketCounts :=
  ((Keyed.find MinuteRow.minute key rows).map (·.counts)).getD 0

/-- The rows are sorted and named by minutes. -/
structure Minutes (rows : List MinuteRow) : Prop where
  sorted : Keyed.Sorted MinuteRow.minute rows
  named : ∀ r ∈ rows, ∃ m, ClockReading m ∧ m % minute = 0 ∧ r.minute = formatNanos m

variable {minutes minutes' : List MinuteRow} {key : Bytes} {c : BucketCounts}

theorem Minutes.nil : Minutes [] := ⟨List.Pairwise.nil, by simp⟩

theorem countsAt_of_mem (h : Keyed.Sorted MinuteRow.minute minutes) {r : MinuteRow}
    (hr : r ∈ minutes) : countsAt minutes r.minute = r.counts := by
  rw [countsAt, h.find_eq_some.2 ⟨hr, rfl⟩]
  rfl

theorem countsAt_of_forall_ne (h : ∀ r ∈ minutes, r.minute ≠ key) : countsAt minutes key = 0 := by
  rw [countsAt, Keyed.find_eq_none.2 h]
  rfl

@[simp] theorem countsAt_nil (key : Bytes) : countsAt [] key = 0 := rfl

/-- The counts under a text depend only on the rows with that text. -/
theorem countsAt_congr (h : Keyed.Sorted MinuteRow.minute minutes)
    (h' : Keyed.Sorted MinuteRow.minute minutes')
    (hmem : ∀ r : MinuteRow, r.minute = key → (r ∈ minutes ↔ r ∈ minutes')) :
    countsAt minutes key = countsAt minutes' key := by
  cases hf : Keyed.find MinuteRow.minute key minutes with
  | none =>
    have hne := Keyed.find_eq_none.1 hf
    rw [countsAt_of_forall_ne hne, countsAt_of_forall_ne]
    exact fun r hr hk => hne r ((hmem r hk).2 hr) hk
  | some r =>
    obtain ⟨hr, rfl⟩ := h.find_eq_some.1 hf
    rw [countsAt_of_mem h hr, countsAt_of_mem h' ((hmem r rfl).1 hr)]

theorem sorted_addMinute (h : Keyed.Sorted MinuteRow.minute minutes) (k : Bytes)
    (c : BucketCounts) : Keyed.Sorted MinuteRow.minute (addMinute minutes k c) := by
  rw [addMinute]
  cases hf : Keyed.find MinuteRow.minute k minutes with
  | none => exact Keyed.sorted_insert h (Keyed.find_eq_none.1 hf)
  | some r => exact Keyed.sorted_modify h fun _ ha => ha

theorem countsAt_addMinute (h : Keyed.Sorted MinuteRow.minute minutes) (k key : Bytes)
    (c : BucketCounts) :
    countsAt (addMinute minutes k c) key = countsAt minutes key + if k = key then c else 0 := by
  have hsorted := sorted_addMinute h k c
  rw [addMinute] at hsorted ⊢
  cases hf : Keyed.find MinuteRow.minute k minutes with
  | none =>
    rw [hf] at hsorted
    dsimp only at hsorted ⊢
    by_cases hk : k = key
    · subst hk
      have hnew := countsAt_of_mem hsorted (Keyed.mem_insert.2 (Or.inl rfl))
      rw [if_pos rfl, countsAt_of_forall_ne (Keyed.find_eq_none.1 hf), zero_add]
      exact hnew
    · rw [if_neg hk, add_zero]
      refine countsAt_congr hsorted h fun r hr => ?_
      rw [Keyed.mem_insert, or_iff_right]
      rintro rfl
      exact hk hr
  | some r =>
    rw [hf] at hsorted
    dsimp only at hsorted ⊢
    obtain ⟨hr, rfl⟩ := h.find_eq_some.1 hf
    by_cases hk : r.minute = key
    · subst hk
      have hnew := countsAt_of_mem hsorted ((h.mem_modify hr).2 (Or.inl rfl))
      rw [if_pos rfl, countsAt_of_mem h hr]
      exact hnew
    · rw [if_neg hk, add_zero]
      refine countsAt_congr hsorted h fun b hb => ?_
      rw [h.mem_modify hr]
      constructor
      · rintro (rfl | hb')
        · exact absurd hb hk
        · exact hb'.1
      · exact fun hb' => Or.inr ⟨hb', fun heq => hk (heq.symm.trans hb)⟩

theorem mem_addMinute {r : MinuteRow} {k : Bytes} (hr : r ∈ addMinute minutes k c) :
    r.minute = k ∨ ∃ r' ∈ minutes, r'.minute = r.minute := by
  rw [addMinute] at hr
  cases hf : Keyed.find MinuteRow.minute k minutes with
  | none =>
    rw [hf] at hr
    rcases Keyed.mem_insert.1 hr with rfl | hr
    · exact Or.inl rfl
    · exact Or.inr ⟨r, hr, rfl⟩
  | some r' =>
    rw [hf] at hr
    obtain ⟨b, hb, rfl⟩ := List.mem_map.1 hr
    split_ifs with hk
    · exact Or.inl hk
    · exact Or.inr ⟨b, hb, rfl⟩

theorem Minutes.addMinute (h : Minutes minutes) {m : Instant} (hm : ClockReading m)
    (halign : m % minute = 0) : Minutes (addMinute minutes (formatNanos m) c) := by
  refine ⟨sorted_addMinute h.sorted _ _, fun r hr => ?_⟩
  rcases mem_addMinute hr with hk | ⟨r', hr', hk⟩
  · exact ⟨m, hm, halign, hk⟩
  · obtain ⟨m', hm', halign', hk'⟩ := h.named r' hr'
    exact ⟨m', hm', halign', hk ▸ hk'⟩

theorem truncate_emod (t : Instant) : truncate t minute % minute = 0 := by
  rw [truncate, Int.sub_emod, Int.emod_emod, sub_self, Int.zero_emod]

/-- What the entries of a minute from the floor on add up to. -/
def entriesAt (floor : Instant) (entries : List (Instant × BucketCounts)) (key : Bytes) :
    BucketCounts :=
  ((entries.filter fun e => floor ≤ e.1 && formatNanos (truncate e.1 minute) = key).map Prod.snd).sum

theorem gatherMinutes_ok {entries : List (Instant × BucketCounts)}
    (h : gatherMinutes floor entries minutes = .ok minutes') (hm : Minutes minutes) :
    Minutes minutes' ∧
    (∀ key, countsAt minutes' key = countsAt minutes key + entriesAt floor entries key) ∧
    ∀ e ∈ entries, floor ≤ e.1 → ClockReading (truncate e.1 minute) := by
  induction entries generalizing minutes with
  | nil =>
    obtain rfl := Except.ok.inj h
    exact ⟨hm, fun key => by simp [entriesAt], by simp⟩
  | cons e entries ih =>
    obtain ⟨t, c⟩ := e
    rw [gatherMinutes] at h
    split_ifs at h with hlt
    · obtain ⟨hm', hcounts, hclock⟩ := ih h hm
      refine ⟨hm', fun key => ?_, fun e he hle => ?_⟩
      · rw [hcounts, entriesAt, entriesAt, List.filter_cons_of_neg (by simp [hlt])]
      · rcases List.mem_cons.1 he with rfl | he
        · exact absurd hlt (not_lt.2 hle)
        · exact hclock e he hle
    · obtain ⟨k, he, h⟩ := bind_eq_ok.1 h
      obtain ⟨ht, rfl⟩ := encodeLogTime_ok he
      obtain ⟨hm', hcounts, hclock⟩ := ih h (hm.addMinute ht (truncate_emod t))
      refine ⟨hm', fun key => ?_, fun e he hle => ?_⟩
      · rw [hcounts, countsAt_addMinute hm.sorted, add_assoc]
        congr 1
        rw [entriesAt, entriesAt]
        by_cases hk : formatNanos (truncate t minute) = key
        · rw [if_pos hk, List.filter_cons_of_pos (by simp [hk, not_lt.1 hlt])]
          simp
        · rw [if_neg hk, List.filter_cons_of_neg (by simp [hk]), zero_add]
      · rcases List.mem_cons.1 he with rfl | he
        · exact ht
        · exact hclock e he hle

theorem upsertMinutes_ok {rows : List MinuteRow} (hrows : Minutes rows)
    (h : upsertMinutes rows minutes = .ok minutes') (hm : Minutes minutes) :
    Minutes minutes' ∧
    ∀ key, countsAt minutes' key = countsAt minutes key + countsAt rows key := by
  induction rows generalizing minutes with
  | nil =>
    obtain rfl := Except.ok.inj h
    exact ⟨hm, fun key => by rw [countsAt_nil, add_zero]⟩
  | cons r rows ih =>
    obtain ⟨hlt, hsorted⟩ := List.pairwise_cons.1 hrows.sorted
    obtain ⟨m, hclock, halign, hk⟩ := hrows.named r (by simp)
    rw [upsertMinutes] at h
    split_ifs at h
    have hadd := hm.addMinute (c := r.counts) hclock halign
    rw [← hk] at hadd
    obtain ⟨hm', hcounts⟩ := ih ⟨hsorted, fun b hb => hrows.named b (by simp [hb])⟩ h hadd
    refine ⟨hm', fun key => ?_⟩
    rw [hcounts, countsAt_addMinute hm.sorted, add_assoc]
    congr 1
    by_cases heq : r.minute = key
    · subst heq
      rw [if_pos rfl, countsAt_of_forall_ne fun b hb => (hlt b hb).ne', add_zero,
        countsAt_of_mem hrows.sorted (by simp)]
    · rw [if_neg heq, zero_add, countsAt, countsAt]
      simp [Keyed.find, heq]

/-- **A commit adds its entries to the minutes.** -/
theorem writeLogMinutes_ok {batch : Batch} (h : writeLogMinutes minutes batch floor = .ok minutes')
    (hm : Minutes minutes) :
    Minutes minutes' ∧
    (∀ key, countsAt minutes' key =
      countsAt minutes key + entriesAt floor batch.contributions key) ∧
    ∀ e ∈ batch.contributions, floor ≤ e.1 → ClockReading (truncate e.1 minute) := by
  rw [writeLogMinutes] at h
  obtain ⟨rows, hg, h⟩ := bind_eq_ok.1 h
  obtain ⟨hrows, hcounts, hclock⟩ := gatherMinutes_ok hg Minutes.nil
  obtain ⟨hm', hcounts'⟩ := upsertMinutes_ok hrows h hm
  refine ⟨hm', fun key => ?_, hclock⟩
  rw [hcounts', hcounts, countsAt_nil, zero_add]

end History

end HomeLab
