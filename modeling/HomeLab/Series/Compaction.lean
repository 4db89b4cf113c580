/-
  Compaction does not change the published series.

  The rows of a window, raw or rolled up, stand for the samples of the window
  (`Shows`): the grid of the series starts at a multiple of the rollup buckets,
  so that no rollup row crosses the start of the window or a bucket of the grid.
  A bucket and the latest time are determined by the samples they stand for, so
  any two states of the tables that show the same samples publish the same.
-/
import HomeLab.Series.Build

namespace HomeLab

namespace Series

open History

/-! ## Rows as entries of the grid -/

/-- A row with its place on the grid. -/
abbrev Entry := Instant × Tally Instant ℚ

def entries (raw : List Sample) (rollups : List Rollup) : List Entry :=
  (raw.map fun s => (s.instant, s.tally)) ++ rollups.map fun r => (r.bucketStart, r.tally)

section
variable {start : Instant} {resolution : Duration}

theorem bucketsOf_eq (count : ℕ) (raw : List Sample) (rollups : List Rollup) :
    bucketsOf start resolution count raw rollups =
      (entries raw rollups).foldl (fun bs e => add start resolution bs e.1 e.2)
        (List.replicate count {}) := by
  rw [entries, List.foldl_append, List.foldl_map, List.foldl_map]
  rfl

theorem latestOf_eq (raw : List Sample) (rollups : List Rollup) :
    latestOf raw rollups = (entries raw rollups).foldl (fun t e => later t e.2.lastAt) 0 := by
  rw [entries, List.foldl_append, List.foldl_map, List.foldl_map]
  rfl

/-- The entries that go to the bucket `i`. -/
def goesTo (start : Instant) (resolution : Duration) (i : ℕ) (e : Entry) : Bool :=
  bucketIndex start resolution e.1 = i && 1 ≤ e.2.count

theorem getElem?_add (bs : List Bucket) (e : Entry) (i : ℕ) :
    (add start resolution bs e.1 e.2)[i]? =
      if goesTo start resolution i e then bs[i]?.map fun b => b.take e.2 else bs[i]? := by
  unfold add goesTo
  dsimp only
  generalize bucketIndex start resolution e.1 = index
  by_cases hi : i < bs.length
  · split_ifs with hout hto hto
    · simp only [Bool.and_eq_true, decide_eq_true_eq] at hto
      omega
    · rfl
    · simp only [Bool.and_eq_true, decide_eq_true_eq] at hto
      have hindex : index.toNat = i := by omega
      rw [List.getElem?_modify]
      simp only [hindex, if_true]
      rfl
    · simp only [Bool.and_eq_true, decide_eq_true_eq, not_and, not_le] at hto
      have hindex : index.toNat ≠ i := by omega
      rw [List.getElem?_modify]
      simp [hindex]
  · have hnone : bs[i]? = none := List.getElem?_eq_none (not_lt.1 hi)
    have hlen : (if index < 0 ∨ (bs.length : ℤ) ≤ index ∨ e.2.count < 1 then bs
        else bs.modify index.toNat fun b => b.take e.2).length = bs.length := by
      split_ifs <;> simp
    rw [List.getElem?_eq_none (by omega), hnone]
    simp

theorem getElem?_foldl_add (es : List Entry) (bs : List Bucket) (i : ℕ) :
    (es.foldl (fun bs e => add start resolution bs e.1 e.2) bs)[i]? =
      bs[i]?.map ((es.filter (goesTo start resolution i)).foldl fun b e => b.take e.2) := by
  induction es generalizing bs with
  | nil => simp
  | cons e es ih =>
    rw [List.foldl_cons, ih, getElem?_add]
    by_cases hto : goesTo start resolution i e = true
    · rw [if_pos hto, List.filter_cons_of_pos hto, Option.map_map]
      rfl
    · rw [if_neg hto, List.filter_cons_of_neg hto]

end

/-! ## Buckets are determined by their samples -/

def Bucket.tally (b : Bucket) : Tally Instant ℚ := ⟨b.count, b.sum, b.lastAt, b.last⟩

/-- The bucket stands for the samples `g`. -/
def Bucket.For (b : Bucket) (g : List Sample) : Prop :=
  (g = [] ∧ b = {}) ∨ b.lastAt ≠ 0 ∧ Describes b.tally g

/-- The row stands for the samples `g`, all of them of its bucket in the grid. -/
def EntryFor (start : Instant) (resolution : Duration) (e : Entry) (g : List Sample) : Prop :=
  Describes e.2 g ∧ e.2.lastAt ≠ 0 ∧
    ∀ s ∈ g, bucketIndex start resolution s.instant = bucketIndex start resolution e.1

variable {b : Bucket} {t : Instant} {range : Range} {ns : ℤ}

theorem Bucket.For.take {g share : List Sample} {row : Tally Instant ℚ} (hb : b.For g)
    (hrow : Describes row share) (hat : row.lastAt ≠ 0) :
    (b.take row).For (g ++ share) := by
  rcases hb with ⟨rfl, rfl⟩ | ⟨hne, hb⟩
  · refine Or.inr ⟨by simpa [Bucket.take] using hat, ?_⟩
    simpa [Bucket.take, Bucket.tally] using hrow
  · refine Or.inr ⟨?_, hb.merge hrow rfl rfl ?_⟩
    · rw [Bucket.take]
      dsimp only
      split_ifs
      · exact hat
      · exact hne
    · by_cases hlt : b.lastAt < row.lastAt
      · exact Or.inr ⟨hlt.le, by simp [Bucket.tally, Bucket.take, hlt],
          by simp [Bucket.tally, Bucket.take, hlt]⟩
      · exact Or.inl ⟨not_lt.1 hlt, by simp [Bucket.tally, Bucket.take, hlt, hne],
          by simp [Bucket.tally, Bucket.take, hlt, hne]⟩

theorem Bucket.For.perm {g h : List Sample} (hb : b.For g) (hp : g.Perm h) :
    b.For h := by
  rcases hb with ⟨rfl, rfl⟩ | ⟨hne, hb⟩
  · exact Or.inl ⟨hp.nil_eq.symm, rfl⟩
  · exact Or.inr ⟨hne, hb.perm hp⟩

/-- One time has one value among the samples. -/
def OneValue (g : List Sample) : Prop :=
  ∀ s ∈ g, ∀ t ∈ g, s.instant = t.instant → s.value = t.value

theorem Bucket.For.unique {c : Bucket} {g : List Sample} (hg : OneValue g) (hb : b.For g)
    (hc : c.For g) : b = c := by
  rcases hb with ⟨rfl, rfl⟩ | ⟨-, hb⟩
  · rcases hc with ⟨-, rfl⟩ | ⟨-, hc⟩
    · rfl
    · exact absurd rfl hc.ne_nil
  · rcases hc with ⟨rfl, -⟩ | ⟨-, hc⟩
    · exact absurd rfl hb.ne_nil
    · have htally : b.tally = c.tally := hb.unique hg hc
      cases b
      cases c
      simp_all [Bucket.tally]

/-- The latest time among the samples, zero if there are none. -/
def LatestFor (t : Instant) (g : List Sample) : Prop :=
  (g = [] ∧ t = 0) ∨ (∃ s ∈ g, s.instant = t) ∧ ∀ s ∈ g, s.instant ≤ t

theorem LatestFor.perm {g h : List Sample} (ht : LatestFor t g) (hp : g.Perm h) :
    LatestFor t h := by
  rcases ht with ⟨rfl, rfl⟩ | ⟨⟨s, hs, hst⟩, hle⟩
  · exact Or.inl ⟨hp.nil_eq.symm, rfl⟩
  · exact Or.inr ⟨⟨s, hp.subset hs, hst⟩, fun u hu => hle u (hp.symm.subset hu)⟩

theorem LatestFor.later {g share : List Sample} {row : Tally Instant ℚ} (ht : LatestFor t g)
    (hrow : Describes row share) (hat : 0 < row.lastAt) :
    LatestFor (later t row.lastAt) (g ++ share) := by
  obtain ⟨y, hy, hyt, -⟩ := hrow.last
  rcases ht with ⟨rfl, rfl⟩ | ⟨⟨s, hs, hst⟩, hle⟩
  · rw [Series.later, if_pos hat]
    exact Or.inr ⟨⟨y, hy, hyt⟩, hrow.latest⟩
  · rw [Series.later]
    split_ifs with hlt
    · refine Or.inr ⟨⟨y, List.mem_append_right _ hy, hyt⟩, fun u hu => ?_⟩
      rcases List.mem_append.1 hu with hu | hu
      · exact (hle u hu).trans hlt.le
      · exact hrow.latest u hu
    · refine Or.inr ⟨⟨s, List.mem_append_left _ hs, hst⟩, fun u hu => ?_⟩
      rcases List.mem_append.1 hu with hu | hu
      · exact hle u hu
      · exact (hrow.latest u hu).trans (not_lt.1 hlt)

theorem LatestFor.unique {u : Instant} {g : List Sample} (ht : LatestFor t g) (hu : LatestFor u g) :
    t = u := by
  rcases ht with ⟨rfl, rfl⟩ | ⟨⟨s, hs, rfl⟩, hle⟩
  · rcases hu with ⟨-, rfl⟩ | ⟨⟨s, hs, -⟩, -⟩
    · rfl
    · cases hs
  · rcases hu with ⟨rfl, -⟩ | ⟨⟨v, hv, rfl⟩, hle'⟩
    · cases hs
    · exact le_antisymm (hle' s hs) (hle v hv)

/-! ## Tables that show the same samples publish the same -/

/-- The rows read in a window are all of them, and stand for the samples `g`. -/
structure Shows (db : Database) (metric : MetricID) (start stop : Instant)
    (resolution : Duration) (g : List Sample) : Prop where
  raw : (sampleRows db metric start stop).length < 10000
  rollups : (rollupRows db metric start stop).length < 10000
  holds : Holds (EntryFor start resolution)
    (entries (sampleRows db metric start stop) (rollupRows db metric start stop)) g

section
variable {start stop : Instant} {resolution : Duration} {metric : MetricID} {g : List Sample}

variable {es : List Entry}

theorem bucket_for (h : Holds (EntryFor start resolution) es g) (i : ℕ) :
    Bucket.For ((es.filter (goesTo start resolution i)).foldl (fun b e => b.take e.2) {})
      (g.filter fun s => bucketIndex start resolution s.instant = i) := by
  have hi : Holds (EntryFor start resolution) (es.filter (goesTo start resolution i))
      (g.filter fun s => bucketIndex start resolution s.instant = i) := by
    refine h.filter fun e share he s hs => ?_
    rw [goesTo, decide_eq_true he.1.one_le, Bool.and_true, he.2.2 s hs]
  have hfold := hi.foldl (P := Bucket.For) (fun b g g' hb hp => hb.perm hp)
    (fun b g e share hb he => hb.take he.1 he.2.1) (Or.inl ⟨rfl, rfl⟩)
  rwa [List.nil_append] at hfold

theorem latest_for (h : Holds (EntryFor start resolution) es g) (hpos : ∀ s ∈ g, 0 < s.instant) :
    LatestFor (es.foldl (fun t e => later t e.2.lastAt) 0) g := by
  have hrows := h.and_forall hpos
  have hstep : ∀ t g' e share, LatestFor t g' →
      (EntryFor start resolution e share ∧ ∀ s ∈ share, 0 < s.instant) →
      LatestFor (later t e.2.lastAt) (g' ++ share) := by
    intro t g' e share ht he
    obtain ⟨y, hy, hyt, -⟩ := he.1.1.last
    exact ht.later he.1.1 (hyt ▸ he.2 y hy)
  have hfold := hrows.foldl (P := LatestFor) (fun t g g' ht hp => ht.perm hp) hstep
    (Or.inl ⟨rfl, rfl⟩)
  rwa [List.nil_append] at hfold

theorem entries_eq_nil (h : Holds (EntryFor start resolution) es g) :
    es = [] ↔ g = [] := by
  obtain ⟨shares, hs, hp⟩ := h
  cases hs with
  | nil => exact ⟨fun _ => hp.nil_eq.symm, fun _ => rfl⟩
  | @cons e share es shares he _ =>
    refine ⟨fun h => absurd h (List.cons_ne_nil _ _), fun h => ?_⟩
    rw [h, List.flatten_cons] at hp
    exact absurd (List.append_eq_nil_iff.1 hp.eq_nil).1 he.1.ne_nil

theorem Shows.buildMetric_eq {db db' : Database} (hone : OneValue g)
    (hpos : ∀ s ∈ g, 0 < s.instant) (h : Shows db metric start stop resolution g)
    (h' : Shows db' metric start stop resolution g) :
    buildMetric db metric start stop resolution =
      buildMetric db' metric start stop resolution := by
  have hread : ∀ {db : Database}, Shows db metric start stop resolution g →
      readMetric db metric start stop 10000 =
        (sampleRows db metric start stop, rollupRows db metric start stop) := by
    intro db h
    rw [readMetric, querySamples, queryRollups, List.take_of_length_le h.raw.le,
      List.take_of_length_le h.rollups.le]
  have hempty : ∀ {db : Database}, Shows db metric start stop resolution g →
      ((sampleRows db metric start stop).isEmpty && (rollupRows db metric start stop).isEmpty) =
        decide (g = []) := by
    intro db h
    have hnil := entries_eq_nil h.holds
    rw [entries, List.append_eq_nil_iff, List.map_eq_nil_iff, List.map_eq_nil_iff] at hnil
    rw [Bool.eq_iff_iff]
    simpa using hnil
  -- a bucket is determined by the values that fall into it, compacted or not
  have hbuckets : ∀ count,
      bucketsOf start resolution count (sampleRows db metric start stop)
          (rollupRows db metric start stop) =
        bucketsOf start resolution count (sampleRows db' metric start stop)
          (rollupRows db' metric start stop) := by
    intro count
    refine List.ext_getElem? fun i => ?_
    rw [bucketsOf_eq, bucketsOf_eq, getElem?_foldl_add, getElem?_foldl_add, List.getElem?_replicate]
    split_ifs
    · have hone' : OneValue (g.filter fun s => bucketIndex start resolution s.instant = i) :=
        fun s hs t ht => hone s (List.mem_of_mem_filter hs) t (List.mem_of_mem_filter ht)
      exact congrArg some ((bucket_for h.holds i).unique hone' (bucket_for h'.holds i))
    · rfl
  have hlatest : latestOf (sampleRows db metric start stop) (rollupRows db metric start stop) =
      latestOf (sampleRows db' metric start stop) (rollupRows db' metric start stop) := by
    rw [latestOf_eq, latestOf_eq]
    exact (latest_for h.holds hpos).unique (latest_for h'.holds hpos)
  have htruncated : ∀ {db : Database}, Shows db metric start stop resolution g →
      (decide ((sampleRows db metric start stop).length = 10000) ||
        decide ((rollupRows db metric start stop).length = 10000)) = false := by
    intro db h
    simp [h.raw.ne, h.rollups.ne]
  unfold buildMetric
  rw [hread h, hread h']
  dsimp only
  rw [hempty h, hempty h', hbuckets, hlatest, htruncated h, htruncated h']

end

/-! ## The grid of the window -/

/-- The start of a window lies on the grid of every resolution that divides five
    minutes. -/
theorem dvd_windowStart {d : Duration} (hd : d ∣ 5 * minute)
    (hr : range = .hours24 ∨ range = .days7) (now : Instant) :
    d ∣ (ranges range).resolution ∧ d ∣ windowStart range now - unixEpoch := by
  have hres : (5 * minute : ℤ) ∣ (ranges range).resolution := by
    rcases hr with rfl | rfl <;> decide
  have hdur : (5 * minute : ℤ) ∣ (ranges range).duration := by
    rcases hr with rfl | rfl <;> decide
  have hepoch : (5 * minute : ℤ) ∣ unixEpoch := by decide
  have htrunc : (5 * minute : ℤ) ∣ truncate now (ranges range).resolution :=
    hres.trans Int.dvd_self_sub_emod
  exact ⟨hd.trans hres, hd.trans ((htrunc.sub hdur).sub hepoch)⟩

theorem windowStart_span (hr : range = .hours24 ∨ range = .days7) (now : Instant) :
    0 < (ranges range).resolution ∧ now - 8 * day ≤ windowStart range now ∧
      windowStart range now ≤ now := by
  have hcases : ∀ R D : ℤ, 0 < R → R ≤ day → 0 ≤ D → D ≤ 7 * day →
      now - 8 * day ≤ now - now % R - D ∧ now - now % R - D ≤ now := by
    intro R D hR hRd hD hDd
    have h0 := Int.emod_nonneg now hR.ne'
    have h1 := Int.emod_lt_of_pos now hR
    constructor <;> linarith
  rcases hr with rfl | rfl
  · exact ⟨by decide, hcases _ _ (by decide) (by decide) (by decide) (by decide)⟩
  · exact ⟨by decide, hcases _ _ (by decide) (by decide) (by decide) (by decide)⟩

theorem bucketOf_spec {d : Duration} (hd : 0 < d) (hns : 0 ≤ ns) :
    bucketOf d ns = ns - ns % d ∧ d ∣ bucketOf d ns ∧ bucketOf d ns ≤ ns ∧
      ns < bucketOf d ns + d := by
  have heq : bucketOf d ns = ns - ns % d := by rw [bucketOf, Int.tmod_eq_emod_of_nonneg hns]
  have h0 := Int.emod_nonneg ns hd.ne'
  have h1 := Int.emod_lt_of_pos ns hd
  rw [heq]
  exact ⟨rfl, Int.dvd_self_sub_emod, by linarith, by linarith⟩

/-- Rounding down to a grid does not cross a point of it. -/
theorem le_bucketOf_iff {d : Duration} (hd : 0 < d) {lo : ℤ} (hns : 0 ≤ ns) (hlo : d ∣ lo) :
    lo ≤ bucketOf d ns ↔ lo ≤ ns := by
  obtain ⟨-, ⟨b, hb⟩, hle, hlt⟩ := bucketOf_spec hd hns
  obtain ⟨a, rfl⟩ := hlo
  refine ⟨fun h => h.trans hle, fun h => ?_⟩
  rw [hb] at hlt ⊢
  have hab : d * a < d * (b + 1) := by linarith
  exact mul_le_mul_of_nonneg_left (Int.lt_add_one_iff.1 (lt_of_mul_lt_mul_left hab hd.le)) hd.le

theorem sub_emod_ediv {d R : ℤ} (hd : 0 < d) (hdR : d ∣ R) (x : ℤ) : (x - x % d) / R = x / R := by
  obtain ⟨k, rfl⟩ := hdR
  have hsub : x - x % d = d * (x / d) := by linarith [Int.emod_add_mul_ediv x d]
  rw [← Int.ediv_ediv_of_nonneg hd.le, ← Int.ediv_ediv_of_nonneg hd.le, hsub,
    Int.mul_ediv_cancel_left _ hd.ne']

/-- A rollup bucket lies in one bucket of the grid. -/
theorem bucketIndex_bucketOf {d resolution : Duration} (hd : 0 < d) (hdR : d ∣ resolution)
    {start : Instant} (hstart : d ∣ start - unixEpoch) (hns : 0 ≤ ns) (hlo : start - unixEpoch ≤ ns)
    (hhi : unixEpoch + ns - start ≤ maxDuration) :
    bucketIndex start resolution (unixEpoch + ns) =
      bucketIndex start resolution (unixEpoch + bucketOf d ns) := by
  have hle := (le_bucketOf_iff hd hns hstart).2 hlo
  obtain ⟨heq, -, hb, -⟩ := bucketOf_spec hd hns
  have hmod : (unixEpoch + ns - start) % d = ns % d := by
    obtain ⟨k, hk⟩ := hstart
    have : unixEpoch + ns - start = ns + d * (-k) := by linarith
    rw [this, Int.add_mul_emod_self_left]
  have hsub : unixEpoch + bucketOf d ns - start =
      (unixEpoch + ns - start) - (unixEpoch + ns - start) % d := by
    rw [hmod, heq]
    ring
  rw [bucketIndex, bucketIndex, timeSub_eq (by linarith) hhi,
    timeSub_eq (by linarith) (by linarith), Int.tdiv_eq_ediv_of_nonneg (by linarith),
    Int.tdiv_eq_ediv_of_nonneg (by linarith), hsub, sub_emod_ediv hd hdR]

/-! ## What the tables show -/

/-- A window whose bounds are read as they are, and whose start lies on the grid. -/
structure Window (d : Duration) (start stop : Instant) (resolution : Duration) : Prop where
  pos : 0 < d
  grid : d ∣ resolution
  aligned : d ∣ start - unixEpoch
  opens : unixNano start = start - unixEpoch
  closes : unixNano stop = stop - unixEpoch
  span : stop - start ≤ maxDuration

/-- The samples that a window shows. -/
def windowSamples (metric : MetricID) (start stop : Instant) (all : List Sample) : List Sample :=
  all.filter fun s => inWindow metric start stop s.metric s.observedAtNs

section
variable {d resolution : Duration} {start stop : Instant} {metric : MetricID} {all : List Sample}

/-- A sample that the end of the window does not cut off. -/
def Recorded (stop : Instant) (s : Sample) : Prop := 0 ≤ s.observedAtNs ∧ s.instant ≤ stop

variable {s : Sample}

theorem Recorded.pos (hs : Recorded stop s) : 0 < s.instant := by
  have h : (0 : ℤ) < unixEpoch := by decide
  have := hs.1
  rw [Sample.instant]
  linarith

/-- A rollup row is in the window when its samples are. -/
theorem inWindow_rollup (metric : MetricID) (hw : Window d start stop resolution) {r : Rollup}
    {g : List Sample} (hr : r.For d g) (hg : ∀ s ∈ g, Recorded stop s) (hs : s ∈ g) :
    inWindow metric start stop s.metric s.observedAtNs =
      inWindow metric start stop r.metric r.bucketStartNs := by
  obtain ⟨hm, hb⟩ := hr.2 s hs
  obtain ⟨h0, h1⟩ := hg s hs
  have hstop : s.observedAtNs ≤ unixNano stop := by
    rw [hw.closes]
    rw [Sample.instant] at h1
    linarith
  obtain ⟨-, -, hle, -⟩ := bucketOf_spec hw.pos h0
  rw [inWindow, inWindow, hm, ← hb, decide_eq_true hstop, decide_eq_true (hle.trans hstop),
    hw.opens, decide_eq_decide.2 (le_bucketOf_iff hw.pos h0 hw.aligned)]

theorem entryFor_rollup (hw : Window d start stop resolution) {r : Rollup} {g : List Sample}
    (hr : r.For d g) (hg : ∀ s ∈ g, Recorded stop s)
    (hin : ∀ s ∈ g, inWindow metric start stop s.metric s.observedAtNs = true) :
    EntryFor start resolution (r.bucketStart, r.tally) g := by
  refine ⟨hr.1, ?_, fun s hs => ?_⟩
  · obtain ⟨y, hy, hyt, -⟩ := hr.1.last
    exact hyt ▸ (hg y hy).pos.ne'
  · have hlo := hin s hs
    simp only [inWindow, Bool.and_eq_true, decide_eq_true_eq] at hlo
    have hstop := (hg s hs).2
    have hspan := hw.span
    rw [Sample.instant] at hstop
    rw [Rollup.bucketStart, ← (hr.2 s hs).2, Sample.instant]
    exact bucketIndex_bucketOf hw.pos hw.grid hw.aligned (hg s hs).1 (hw.opens ▸ hlo.1.2)
      (by linarith)

theorem entryFor_sample (hs : Recorded stop s) :
    EntryFor start resolution (s.instant, s.tally) [s] := by
  refine ⟨Tally.describes_singleton _ _ s, hs.pos.ne', fun t ht => ?_⟩
  rw [List.mem_singleton.1 ht]

theorem shows_of_compacted {db : Database} (h : Compacted d all db)
    (hw : Window d start stop resolution) (hall : ∀ s ∈ all, Recorded stop s)
    (hraw : (sampleRows db metric start stop).length < 10000)
    (hrollups : (rollupRows db metric start stop).length < 10000) :
    Shows db metric start stop resolution (windowSamples metric start stop all) := by
  obtain ⟨rolled, hrolled, hperm⟩ := h.rolled
  have hsamples : ∀ s ∈ db.samples, Recorded stop s :=
    fun s hs => hall s (hperm.subset (List.mem_append_left _ hs))
  have hrec : ∀ s ∈ rolled, Recorded stop s :=
    fun s hs => hall s (hperm.subset (List.mem_append_right _ hs))
  have hr1 : Holds (EntryFor start resolution)
      ((sampleRows db metric start stop).map fun s => (s.instant, s.tally))
      (windowSamples metric start stop db.samples) := by
    have hone : Holds (fun (s : Sample) g => g = [s] ∧ Recorded stop s)
        (sampleRows db metric start stop) (sampleRows db metric start stop) :=
      Holds.singletons fun s hs => ⟨rfl, hsamples s (List.mem_of_mem_filter hs)⟩
    refine hone.map fun s g hg => ?_
    rw [hg.1]
    exact entryFor_sample hg.2
  have hr2 : Holds (EntryFor start resolution)
      ((rollupRows db metric start stop).map fun r => (r.bucketStart, r.tally))
      (windowSamples metric start stop rolled) := by
    have hfilter := (hrolled.holds.and_forall hrec).filter
      fun r g hr s hs => inWindow_rollup metric hw hr.1 hr.2 hs
    refine (hfilter.and_forall fun s hs => (List.mem_filter.1 hs).2).map fun r g hr => ?_
    exact entryFor_rollup hw hr.1.1 hr.1.2 hr.2
  refine ⟨hraw, hrollups, (hr1.append hr2).perm ?_⟩
  rw [windowSamples, windowSamples, ← List.filter_append]
  exact hperm.filter _

end

/-! ## Compaction -/

theorem bmod_int64 {x : ℤ} (h0 : -2 ^ 63 ≤ x) (h1 : x < 2 ^ 63) : x.bmod (2 ^ 64) = x :=
  Int.bmod_eq_of_le (by norm_num; linarith) (by norm_num; linarith)

theorem unixNano_eq (h0 : -2 ^ 63 ≤ t - unixEpoch) (h1 : t - unixEpoch < 2 ^ 63) :
    unixNano t = t - unixEpoch :=
  bmod_int64 h0 h1

theorem window_of_now {d : Duration} (hd : 0 < d) (h5 : d ∣ 5 * minute)
    (hr : range = .hours24 ∨ range = .days7) {now : Instant} (h0 : unixEpoch ≤ now)
    (hnow : now - unixEpoch < 2 ^ 63) :
    Window d (windowStart range now) now (ranges range).resolution := by
  obtain ⟨hgrid, haligned⟩ := dvd_windowStart h5 hr now
  obtain ⟨-, hlo, hhi⟩ := windowStart_span hr now
  have hday : 8 * day ≤ maxDuration := by decide
  have hday' : (8 * day : ℤ) ≤ 2 ^ 63 := by decide
  exact ⟨hd, hgrid, haligned, unixNano_eq (by linarith) (by linarith),
    unixNano_eq (by linarith) hnow, by linarith⟩

theorem oneValue_windowSamples {samples : List Sample} (h : Keyed.Sorted Sample.key samples)
    (metric : MetricID) (start stop : Instant) :
    OneValue (windowSamples metric start stop samples) := by
  intro s hs t ht hst
  obtain ⟨hs, hsw⟩ := List.mem_filter.1 hs
  obtain ⟨ht, htw⟩ := List.mem_filter.1 ht
  simp only [inWindow, Bool.and_eq_true, decide_eq_true_eq] at hsw htw
  have hns : s.observedAtNs = t.observedAtNs := by
    rw [Sample.instant, Sample.instant] at hst
    linarith
  have hkey : s.key = t.key := by rw [Sample.key, Sample.key, hns, hsw.1.1, htw.1.1]
  rw [h.eq_of_key hs ht hkey]

/-- **Compaction does not change the published series.**  Samples at or after the
    epoch, one per metric and time, are published alike before and after any
    passes, for a window that ends after them and before the 64-bit Unix
    nanoseconds do, and whose rows are all read. -/
theorem compaction_keeps_series {d : Duration} (hd : 0 < d) (h5 : d ∣ 5 * minute) {db : Database}
    (hsorted : Keyed.Sorted Sample.key db.samples) (hrollups : db.rollups = [])
    (hepoch : ∀ s ∈ db.samples, 0 ≤ s.observedAtNs) {range : Range}
    (hr : range = .hours24 ∨ range = .days7) {now : Instant}
    (hnow : now - unixEpoch < 2 ^ 63) (hend : ∀ s ∈ db.samples, s.instant ≤ now)
    (earlier passes : List (ℤ × ℕ)) (metric : MetricID)
    (hrows : ∀ state ∈ [compact d db earlier, compact d db (earlier ++ passes)],
      (sampleRows state metric (windowStart range now) now).length < 10000 ∧
        (rollupRows state metric (windowStart range now) now).length < 10000) :
    buildMetric (compact d db (earlier ++ passes)) metric (windowStart range now) now
        (ranges range).resolution =
      buildMetric (compact d db earlier) metric (windowStart range now) now
        (ranges range).resolution := by
  by_cases h0 : unixEpoch ≤ now
  · have hw := window_of_now hd h5 hr h0 hnow
    have hall : ∀ s ∈ db.samples, Recorded now s := fun s hs => ⟨hepoch s hs, hend s hs⟩
    have hinit := compacted_init d hsorted hrollups
    have hshows : ∀ ps, (sampleRows (compact d db ps) metric (windowStart range now) now).length <
          10000 ∧ (rollupRows (compact d db ps) metric (windowStart range now) now).length < 10000 →
        Shows (compact d db ps) metric (windowStart range now) now (ranges range).resolution
          (windowSamples metric (windowStart range now) now db.samples) :=
      fun ps h => shows_of_compacted (hinit.compact ps) hw hall h.1 h.2
    refine Shows.buildMetric_eq (oneValue_windowSamples hsorted _ _ _) ?_
      (hshows _ (hrows _ (by simp))) (hshows _ (hrows _ (by simp)))
    exact fun s hs => (hall s (List.mem_of_mem_filter hs)).pos
  · -- before the epoch there is nothing to compact
    have hnone : db.samples = [] := by
      refine List.eq_nil_iff_forall_not_mem.2 fun s hs => h0 ?_
      have h1 := hepoch s hs
      have h2 := hend s hs
      rw [Sample.instant] at h2
      linarith
    rw [compact_of_no_samples hnone, compact_of_no_samples hnone]

/-- Two samples of one rollup bucket and a later one. -/
def sampleMetrics : Database :=
  { samples := [⟨.cpuUtilization, 10 * second, 2⟩, ⟨.cpuUtilization, 20 * second, 4⟩,
      ⟨.cpuUtilization, 400 * second, 6⟩] }

theorem sampleMetrics_compacted :
    buildMetric (compact (5 * minute) sampleMetrics ([] ++ [(30 * second, 1), (30 * second, 7)]))
        .cpuUtilization (windowStart .hours24 (unixEpoch + 600 * second))
        (unixEpoch + 600 * second) (ranges .hours24).resolution =
      buildMetric (compact (5 * minute) sampleMetrics []) .cpuUtilization
        (windowStart .hours24 (unixEpoch + 600 * second)) (unixEpoch + 600 * second)
        (ranges .hours24).resolution :=
  compaction_keeps_series (by decide) (dvd_refl _)
    (by simp [sampleMetrics, Keyed.Sorted, Sample.key, Prod.Lex.toLex_lt_toLex, second])
    rfl (by simp [sampleMetrics, second]) (Or.inl rfl) (by decide)
    (by simp [sampleMetrics, second, Sample.instant]) _ _ _ (by decide)

/-- A sample in the first minute of 1970. -/
def earlySample : Database := { samples := [⟨.cpuUtilization, 27 * second, 1⟩] }

/-- The end of a window in 2554, whose start wraps to 26 seconds after the epoch. -/
def farNow : Instant := unixEpoch + 61489147 * (5 * minute) + 24 * hour

/-- Once the bounds of a window wrap, they are off the grid of the rollups: the
    row of a bucket is outside of the window and its sample was inside. -/
theorem farWindow_changes_series :
    Keyed.Sorted Sample.key earlySample.samples ∧ earlySample.rollups = [] ∧
    (∀ s ∈ earlySample.samples, 0 ≤ s.observedAtNs ∧ s.instant ≤ farNow) ∧
    (∀ state ∈ [earlySample, compact (5 * minute) earlySample [(28 * second, 1)]],
      (sampleRows state .cpuUtilization (windowStart .hours24 farNow) farNow).length < 10000 ∧
        (rollupRows state .cpuUtilization (windowStart .hours24 farNow) farNow).length < 10000) ∧
    buildMetric (compact (5 * minute) earlySample [(28 * second, 1)]) .cpuUtilization
        (windowStart .hours24 farNow) farNow (ranges .hours24).resolution ≠
      buildMetric earlySample .cpuUtilization (windowStart .hours24 farNow) farNow
        (ranges .hours24).resolution := by
  refine ⟨List.pairwise_singleton _ _, rfl, ?_, by decide, ?_⟩
  · simp [earlySample, second, Sample.instant, farNow, minute, hour, unixEpoch]
  · decide +kernel

end Series

end HomeLab
