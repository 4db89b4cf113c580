/-
  Rollups conserve the samples.

  `writeSamples` stores raw rows and `rollupBatch` compacts some of them, in any
  interleaving.  Every sample written is a raw row or stands behind exactly one
  rollup row, and the figures of a rollup row are those of the samples compacted
  into it (`rollups_conserve`).  Samples of a bucket that are compacted in
  several passes, in any order, give the same row.

  Times are stored as 64-bit nanoseconds since 1970, so this is about samples
  less than 2^63 nanoseconds after 1970; two later ones can share a row.
-/
import Mathlib.Order.Bounds.Basic
import HomeLab.History.Rollups

namespace HomeLab

namespace History

/-! ## Writing samples -/

/-- A sample as a caller hands it over. -/
structure MetricSample where
  metric : MetricID
  takenAt : Instant
  value : ℚ
  deriving DecidableEq

def MetricSample.validate (s : MetricSample) : Bool :=
  s.takenAt ≠ 0 && 0 ≤ s.value &&
  match s.metric with
  | .cpuUtilization | .memoryUtilization | .filesystemUtilization => s.value ≤ 100
  | .processCount => s.value.den = 1
  | .networkReceiveRate | .networkTransmitRate => true

def MetricSample.row (s : MetricSample) : Sample := ⟨s.metric, unixNano s.takenAt, s.value⟩

/-- `insertSample`: a row of the same metric and time gets the new value. -/
def insertSample (table : List Sample) (row : Sample) : List Sample :=
  match Keyed.find Sample.key row.key table with
  | some _ => Keyed.modify Sample.key row.key (fun r => { r with value := row.value }) table
  | none => Keyed.insert Sample.key row table

/-- The number of metrics. -/
def allowedMetrics : ℕ := 6

/-- The effect of a write that commits, if it is accepted. -/
def writeSamples (db : Database) (samples : List MetricSample) : Option Database :=
  if samples.isEmpty then some db
  else if allowedMetrics < samples.length then none
  else if !samples.all MetricSample.validate then none
  else some { db with
    samples := (samples.map MetricSample.row).foldl insertSample db.samples }

/-- A write or a pass of the rollup, and whether its transaction takes effect. -/
inductive MetricOp where
  | write (samples : List MetricSample) (applied : Bool)
  | rollup (before : Instant) (batchSize : ℕ) (applied : Bool)

def metricStep (resolution : Duration) (db : Database) : MetricOp → Database
  | .write samples applied => if applied then (writeSamples db samples).getD db else db
  | .rollup before batchSize applied =>
    if applied then rollupBatch resolution db (unixNano before) batchSize else db

def metricRun (resolution : Duration) (db : Database) (ops : List MetricOp) : Database :=
  ops.foldl (metricStep resolution) db

/-- The samples that an operation stores. -/
def MetricOp.written : MetricOp → List MetricSample
  | .write samples applied =>
    if applied ∧ samples.length ≤ allowedMetrics ∧ samples.all MetricSample.validate then samples
    else []
  | .rollup .. => []

def written (ops : List MetricOp) : List MetricSample := ops.flatMap MetricOp.written

/-! ## Figures -/

/-- What a rollup says about its samples. -/
structure Figures where
  count : ℕ
  total : ℚ
  minimum : ℚ
  maximum : ℚ
  last : ℚ
  lastAt : ℤ
  deriving DecidableEq

/-- The figures are those of the samples. -/
structure Figures.Of (f : Figures) (g : List Sample) : Prop where
  count : f.count = g.length
  total : f.total = (g.map Sample.value).sum
  minimum : IsLeast {v | ∃ s ∈ g, s.value = v} f.minimum
  maximum : IsGreatest {v | ∃ s ∈ g, s.value = v} f.maximum
  lastAt : IsGreatest {t | ∃ s ∈ g, s.observedAtNs = t} f.lastAt
  last : ∃ s ∈ g, s.observedAtNs = f.lastAt ∧ s.value = f.last

def Figures.merge (f f' : Figures) : Figures where
  count := f.count + f'.count
  total := f.total + f'.total
  minimum := min f.minimum f'.minimum
  maximum := max f.maximum f'.maximum
  last := if f.lastAt ≤ f'.lastAt then f'.last else f.last
  lastAt := max f.lastAt f'.lastAt

def Sample.figures (s : Sample) : Figures := ⟨1, s.value, s.value, s.value, s.value, s.observedAtNs⟩

def RollupAccumulator.figures (a : RollupAccumulator) : Figures :=
  ⟨a.count, a.sum, a.min, a.max, a.last, a.lastAt⟩

def Rollup.figures (r : Rollup) : Figures :=
  ⟨r.sampleCount, r.total, r.minimum, r.maximum, r.lastValue, r.lastAtNs⟩

theorem setOf_append {α : Type} (f : Sample → α) (g h : List Sample) :
    {v | ∃ s ∈ g ++ h, f s = v} = {v | ∃ s ∈ g, f s = v} ∪ {v | ∃ s ∈ h, f s = v} := by
  ext v
  simp only [List.mem_append, Set.mem_ofPred_eq, Set.mem_union, or_and_right, exists_or]

theorem Sample.figures_of (s : Sample) : s.figures.Of [s] where
  count := rfl
  total := by simp [Sample.figures]
  minimum := ⟨⟨s, by simp, rfl⟩, fun v ⟨s', hs', hv⟩ => by simp_all [Sample.figures]⟩
  maximum := ⟨⟨s, by simp, rfl⟩, fun v ⟨s', hs', hv⟩ => by simp_all [Sample.figures]⟩
  lastAt := ⟨⟨s, by simp, rfl⟩, fun v ⟨s', hs', hv⟩ => by simp_all [Sample.figures]⟩
  last := ⟨s, by simp, rfl, rfl⟩

variable {g g' : List Sample} {f : Figures}

theorem Figures.Of.merge {f' : Figures} (h : f.Of g) (h' : f'.Of g') :
    (f.merge f').Of (g ++ g') where
  count := by rw [Figures.merge, h.count, h'.count, List.length_append]
  total := by rw [Figures.merge, h.total, h'.total, List.map_append, List.sum_append]
  minimum := by
    rw [setOf_append]
    exact h.minimum.union h'.minimum
  maximum := by
    rw [setOf_append]
    exact h.maximum.union h'.maximum
  lastAt := by
    rw [setOf_append]
    exact h.lastAt.union h'.lastAt
  last := by
    by_cases hle : f.lastAt ≤ f'.lastAt
    · obtain ⟨s, hs, hat, hv⟩ := h'.last
      refine ⟨s, List.mem_append_right _ hs, ?_, ?_⟩
      · simp [Figures.merge, hle, hat]
      · simp [Figures.merge, hle, hv]
    · obtain ⟨s, hs, hat, hv⟩ := h.last
      refine ⟨s, List.mem_append_left _ hs, ?_, ?_⟩
      · simp [Figures.merge, (not_le.1 hle).le, hat]
      · simp [Figures.merge, hle, hv]

theorem Figures.Of.perm (h : f.Of g) (hp : g.Perm g') :
    f.Of g' := by
  have hmem : ∀ {α : Type} (e : Sample → α),
      {v | ∃ s ∈ g', e s = v} = {v | ∃ s ∈ g, e s = v} := by
    intro α e
    ext v
    simp only [Set.mem_ofPred_eq, hp.mem_iff]
  refine ⟨h.count.trans hp.length_eq, h.total.trans (hp.map _).sum_eq, ?_, ?_, ?_, ?_⟩
  · rw [hmem]
    exact h.minimum
  · rw [hmem]
    exact h.maximum
  · rw [hmem]
    exact h.lastAt
  · obtain ⟨s, hs, hv⟩ := h.last
    exact ⟨s, hp.subset hs, hv⟩

theorem Figures.Of.unique {f' : Figures}
    (hg : ∀ s ∈ g, ∀ s' ∈ g, s.observedAtNs = s'.observedAtNs → s = s') (h : f.Of g) (h' : f'.Of g) :
    f = f' := by
  have hlastAt : f.lastAt = f'.lastAt := h.lastAt.unique h'.lastAt
  have hlast : f.last = f'.last := by
    obtain ⟨s, hs, hat, hv⟩ := h.last
    obtain ⟨s', hs', hat', hv'⟩ := h'.last
    rw [← hv, ← hv', hg s hs s' hs' (by rw [hat, hat', hlastAt])]
  have hcount := h.count.trans h'.count.symm
  have htotal := h.total.trans h'.total.symm
  have hminimum := h.minimum.unique h'.minimum
  have hmaximum := h.maximum.unique h'.maximum
  cases f
  cases f'
  simp_all

/-! ## Rows stand for their samples -/

section
variable {resolution : Duration}

def RollupAccumulator.Exact (resolution : Duration) (a : RollupAccumulator) (g : List Sample) :
    Prop :=
  a.figures.Of g ∧ InBucket resolution a.metric a.bucket g

/-- The row has the figures of samples of its bucket. -/
def Rollup.Exact (resolution : Duration) (r : Rollup) (g : List Sample) : Prop :=
  r.figures.Of g ∧ InBucket resolution r.metric r.bucketStartNs g ∧
    r.resolutionSeconds = resolution.tdiv second

theorem RollupAccumulator.figures_add (a : RollupAccumulator) (row : Sample) :
    (a.add row).figures = a.figures.merge row.figures := by
  have hmin : (if row.value < a.min then row.value else a.min) = Min.min a.min row.value := by
    rw [min_comm, min_def_lt]
  have hmax : (if a.max < row.value then row.value else a.max) = Max.max a.max row.value := by
    rw [max_def_lt]
  have hlast : (if a.lastAt ≤ row.observedAtNs then row.observedAtNs else a.lastAt) =
      Max.max a.lastAt row.observedAtNs := by
    rw [max_def]
  simp only [RollupAccumulator.figures, RollupAccumulator.add, Figures.merge, Sample.figures, hmin,
    hmax, hlast]
  rfl

theorem newAccumulator_figures (row : Sample) (bucket : ℤ) :
    ((newAccumulator row bucket).add row).figures = row.figures := by
  simp [RollupAccumulator.figures, RollupAccumulator.add, newAccumulator, Sample.figures]

theorem gathers_exact : Gathers resolution (RollupAccumulator.Exact resolution) where
  new := by
    intro row
    refine ⟨?_, inBucket_singleton rfl rfl⟩
    rw [newAccumulator_figures]
    exact row.figures_of
  add := by
    intro a g row h hm hb
    refine ⟨?_, h.2.append (inBucket_singleton hm hb)⟩
    rw [RollupAccumulator.figures_add]
    exact h.1.merge row.figures_of

variable {r : Rollup} {db db' : Database} {all all' : List Sample} {metric : MetricID} {bucket : ℤ}

theorem Rollup.Exact.merge {excluded : Rollup} {h : List Sample} (hr : r.Exact resolution g)
    (he : excluded.Exact resolution h) (hk : r.key = excluded.key) :
    (r.merge excluded).Exact resolution (g ++ h) := by
  have hk' : (r.bucketStartNs, toLex (r.metric, r.resolutionSeconds)) =
      (excluded.bucketStartNs, toLex (excluded.metric, excluded.resolutionSeconds)) := hk
  have hb : r.bucketStartNs = excluded.bucketStartNs := congrArg Prod.fst hk'
  have hm : r.metric = excluded.metric := congrArg (fun k => (ofLex k.2).1) hk'
  refine ⟨hr.1.merge he.1, hr.2.1.append fun s hs => ?_, hr.2.2⟩
  have := he.2.1 s hs
  exact ⟨this.1.trans hm.symm, this.2.trans hb.symm⟩

theorem Rollup.Exact.perm (h : r.Exact resolution g) (hp : g.Perm g') : r.Exact resolution g' :=
  ⟨h.1.perm hp, fun s hs => h.2.1 s (hp.symm.subset hs), h.2.2⟩

/-! ## Every run conserves the samples -/

/-- The raw samples, and those compacted into the rollup rows, are together `all`. -/
structure Conserved (resolution : Duration) (all : List Sample) (db : Database) : Prop where
  samples : Keyed.Sorted Sample.key db.samples
  rollups : Keyed.Sorted Rollup.key db.rollups
  rolled : ∃ rolled, Holds (Rollup.Exact resolution) db.rollups rolled ∧
    (db.samples ++ rolled).Perm all

theorem Conserved.rollupBatch (h : Conserved resolution all db) (before : ℤ) (batchSize : ℕ) :
    Conserved resolution all (rollupBatch resolution db before batchSize) := by
  obtain ⟨rolled, hrolled, hall⟩ := h.rolled
  obtain ⟨new, hsamples, hsorted, hholds, hsplit⟩ := rollupBatch_holds gathers_exact
    Rollup.Exact.merge (fun a g ha => ⟨ha.1, ha.2, rfl⟩) h.samples h.rollups hrolled before batchSize
  refine ⟨hsamples, hsorted, rolled ++ new, hholds, ?_⟩
  refine List.Perm.trans ?_ ((hsplit.append_right rolled).trans hall)
  rw [List.append_assoc]
  exact List.perm_append_comm.append_left _

theorem Conserved.insertSample (h : Conserved resolution all db) {row : Sample}
    (hnew : ∀ s ∈ all, s.key ≠ row.key) :
    Conserved resolution (all ++ [row]) { db with samples := insertSample db.samples row } := by
  obtain ⟨rolled, hrolled, hall⟩ := h.rolled
  have hraw : ∀ s ∈ db.samples, s.key ≠ row.key :=
    fun s hs => hnew s (hall.subset (List.mem_append_left _ hs))
  have hinsert : History.insertSample db.samples row = Keyed.insert Sample.key row db.samples := by
    rw [History.insertSample, Keyed.find_eq_none.2 hraw]
  refine ⟨?_, h.rollups, rolled, hrolled, ?_⟩
  · rw [hinsert]
    exact Keyed.sorted_insert h.samples hraw
  · rw [hinsert]
    refine ((List.perm_orderedInsert _ _ _).append_right rolled).trans ?_
    exact (hall.cons row).trans (List.perm_append_singleton row all).symm

theorem Conserved.inserts {rows : List Sample} (h : Conserved resolution all db)
    (hkeys : (all ++ rows).Pairwise fun a b => a.key ≠ b.key) :
    Conserved resolution (all ++ rows)
      { db with samples := rows.foldl History.insertSample db.samples } := by
  induction rows generalizing all db with
  | nil => simpa using h
  | cons row rows ih =>
    have hnew : ∀ s ∈ all, s.key ≠ row.key :=
      fun s hs => (List.pairwise_append.1 hkeys).2.2 s hs row (by simp)
    have := ih (h.insertSample hnew) (by simpa using hkeys)
    simpa using this

/-- A write stores all samples or none. -/
theorem writeSamples_getD (db : Database) (samples : List MetricSample) :
    (writeSamples db samples).getD db =
      if samples.length ≤ allowedMetrics ∧ samples.all MetricSample.validate then
        { db with samples := (samples.map MetricSample.row).foldl History.insertSample db.samples }
      else db := by
  rw [writeSamples]
  cases samples with
  | nil => simp
  | cons s samples =>
    rw [if_neg (by simp)]
    by_cases hlen : (s :: samples).length ≤ allowedMetrics
    · rw [if_neg (not_lt.2 hlen)]
      by_cases hvalid : (s :: samples).all MetricSample.validate = true
      · rw [if_neg (by simp only [hvalid, Bool.not_true, Bool.false_eq_true, not_false_iff]),
          if_pos ⟨hlen, hvalid⟩]
        rfl
      · rw [if_pos (by rw [Bool.eq_false_iff.2 hvalid]; rfl), if_neg fun h => hvalid h.2]
        rfl
    · rw [if_pos (not_le.1 hlen), if_neg fun h => hlen h.1]
      rfl

theorem Conserved.step (h : Conserved resolution all db) (op : MetricOp)
    (hkeys : (all ++ op.written.map MetricSample.row).Pairwise fun a b => a.key ≠ b.key) :
    Conserved resolution (all ++ op.written.map MetricSample.row) (metricStep resolution db op) := by
  cases op with
  | rollup before batchSize applied =>
    rw [metricStep, MetricOp.written, List.map_nil, List.append_nil]
    split_ifs
    · exact h.rollupBatch _ _
    · exact h
  | write samples applied =>
    rw [MetricOp.written] at hkeys ⊢
    rw [metricStep, writeSamples_getD]
    cases applied with
    | false => simpa using h
    | true =>
      simp only [if_true, true_and] at hkeys ⊢
      split_ifs at hkeys ⊢
      · exact h.inserts hkeys
      · simpa using h

theorem Conserved.run (h : Conserved resolution all db) (ops : List MetricOp)
    (hkeys : (all ++ (written ops).map MetricSample.row).Pairwise fun a b => a.key ≠ b.key) :
    Conserved resolution (all ++ (written ops).map MetricSample.row)
      (metricRun resolution db ops) := by
  induction ops generalizing all db with
  | nil => simpa [written, metricRun] using h
  | cons op ops ih =>
    have hsplit : (written (op :: ops)).map MetricSample.row =
        op.written.map MetricSample.row ++ (written ops).map MetricSample.row := by
      rw [written, List.flatMap_cons, List.map_append, written]
    rw [hsplit, ← List.append_assoc] at hkeys ⊢
    exact ih (h.step op (List.pairwise_append.1 hkeys).1) hkeys

/-! ## What a rollup row says -/

/-- The samples of a bucket that are no longer raw. -/
def compactedIn (resolution : Duration) (db : Database) (all : List Sample) (metric : MetricID)
    (bucket : ℤ) : List Sample :=
  all.filter fun s =>
    s ∉ db.samples ∧ s.metric = metric ∧ bucketOf resolution s.observedAtNs = bucket

/-- The rollup rows of a bucket. -/
def rollupsIn (db : Database) (metric : MetricID) (bucket : ℤ) : List Rollup :=
  db.rollups.filter fun r => r.metric = metric ∧ r.bucketStartNs = bucket

theorem Conserved.raw_mem (h : Conserved resolution all db) {s : Sample} (hs : s ∈ db.samples) :
    s ∈ all := by
  obtain ⟨rolled, -, hall⟩ := h.rolled
  exact hall.subset (List.mem_append_left _ hs)

/-- The rows of a bucket stand for its compacted samples. -/
theorem Conserved.holds_compactedIn (h : Conserved resolution all db)
    (hkeys : all.Pairwise fun a b => a.key ≠ b.key) (metric : MetricID) (bucket : ℤ) :
    Holds (Rollup.Exact resolution) (rollupsIn db metric bucket)
      (compactedIn resolution db all metric bucket) := by
  obtain ⟨rolled, hrolled, hall⟩ := h.rolled
  have hpair := hall.symm.pairwise hkeys fun hne => hne.symm
  have hrest : (all.filter fun s => s ∉ db.samples).Perm rolled := by
    refine (hall.symm.filter _).trans ?_
    rw [List.filter_append, List.filter_eq_nil_iff.2 (by simp), List.nil_append,
      List.filter_eq_self.2 fun s hs => ?_]
    simp only [decide_eq_true_eq]
    exact fun hraw => (List.pairwise_append.1 hpair).2.2 s hraw s hs rfl
  have hsplit : compactedIn resolution db all metric bucket =
      (all.filter fun s => s ∉ db.samples).filter fun s =>
        s.metric = metric ∧ bucketOf resolution s.observedAtNs = bucket := by
    rw [compactedIn, List.filter_filter]
    refine List.filter_congr fun s _ => ?_
    simp only [← Bool.decide_and]
    exact decide_eq_decide.2 and_comm
  rw [hsplit]
  refine Holds.perm (hrolled.filter fun r g hr s hs => ?_) (hrest.symm.filter _)
  obtain ⟨hm, hb⟩ := hr.2.1 s hs
  rw [hm, hb]

theorem Conserved.rollupsIn_unique (h : Conserved resolution all db) {r' : Rollup}
    (hr : r ∈ rollupsIn db metric bucket) (hr' : r' ∈ rollupsIn db metric bucket) : r = r' := by
  obtain ⟨rolled, hrolled, -⟩ := h.rolled
  have hseconds := hrolled.forall_rows fun r g hr => hr.2.2
  simp only [rollupsIn, List.mem_filter, decide_eq_true_eq] at hr hr'
  refine h.rollups.eq_of_key hr.1 hr'.1 ?_
  rw [Rollup.key, Rollup.key, hr.2.1, hr.2.2, hr'.2.1, hr'.2.2, hseconds r hr.1, hseconds r' hr'.1]

/-- A bucket has no row if none of its samples is compacted, and otherwise one row
    with the figures of those that are. -/
theorem Conserved.rollupsIn_cases (h : Conserved resolution all db)
    (hkeys : all.Pairwise fun a b => a.key ≠ b.key) (metric : MetricID) (bucket : ℤ) :
    (compactedIn resolution db all metric bucket = [] ∧ rollupsIn db metric bucket = []) ∨
      ∃ r, rollupsIn db metric bucket = [r] ∧
        r.Exact resolution (compactedIn resolution db all metric bucket) := by
  obtain ⟨shares, hshares, hperm⟩ := h.holds_compactedIn hkeys metric bucket
  have hunique : ∀ r ∈ rollupsIn db metric bucket, ∀ r' ∈ rollupsIn db metric bucket, r = r' :=
    fun r hr r' hr' => h.rollupsIn_unique hr hr'
  have hnodup : (rollupsIn db metric bucket).Nodup :=
    (h.rollups.imp fun hlt heq => absurd (congrArg Rollup.key heq) hlt.ne).filter _
  cases hrows : rollupsIn db metric bucket with
  | nil =>
    rw [hrows] at hshares
    cases hshares
    exact .inl ⟨List.nil_perm.1 hperm, rfl⟩
  | cons r rows =>
    rw [hrows] at hshares hunique hnodup
    cases rows with
    | cons r' rows =>
      have heq := hunique r (by simp) r' (by simp)
      rw [heq] at hnodup
      exact absurd hnodup (by simp)
    | nil =>
      cases hshares with
      | cons hr hrest =>
        cases hrest
        refine .inr ⟨r, rfl, hr.perm ?_⟩
        simpa using hperm

/-! ## Independence of passes and of the order of writes -/

/-- Runs that compacted the same samples of a bucket have the same row for it. -/
theorem Conserved.rollupsIn_congr (h : Conserved resolution all db)
    (h' : Conserved resolution all' db') (hkeys : all.Pairwise fun a b => a.key ≠ b.key)
    (hkeys' : all'.Pairwise fun a b => a.key ≠ b.key) (hperm : (compactedIn resolution db all metric
      bucket).Perm (compactedIn resolution db' all' metric bucket)) :
    rollupsIn db metric bucket = rollupsIn db' metric bucket := by
  rcases h.rollupsIn_cases hkeys metric bucket with ⟨hnil, hrows⟩ | ⟨r, hrows, hr⟩
  · rcases h'.rollupsIn_cases hkeys' metric bucket with ⟨-, hrows'⟩ | ⟨r', -, hr'⟩
    · rw [hrows, hrows']
    · rw [hnil] at hperm
      rw [List.nil_perm.1 hperm] at hr'
      obtain ⟨s, hs, -⟩ := hr'.1.last
      exact absurd hs List.not_mem_nil
  · rcases h'.rollupsIn_cases hkeys' metric bucket with ⟨hnil', -⟩ | ⟨r', hrows', hr'⟩
    · rw [hnil'] at hperm
      rw [List.perm_nil.1 hperm] at hr
      obtain ⟨s, hs, -⟩ := hr.1.last
      exact absurd hs List.not_mem_nil
    · have hdistinct : ∀ s ∈ compactedIn resolution db all metric bucket,
          ∀ s' ∈ compactedIn resolution db all metric bucket,
          s.observedAtNs = s'.observedAtNs → s = s' := by
        intro s hs s' hs' hat
        have hm := (hr.2.1 s hs).1.trans (hr.2.1 s' hs').1.symm
        have hnodup : (all.map Sample.key).Nodup := List.pairwise_map.2 hkeys
        refine List.inj_on_of_nodup_map hnodup (List.mem_of_mem_filter hs)
          (List.mem_of_mem_filter hs') ?_
        rw [Sample.key, Sample.key, hat, hm]
      have hfigures := Figures.Of.unique hdistinct hr.1 (hr'.1.perm hperm.symm)
      have hmem : r ∈ rollupsIn db metric bucket := by simp [hrows]
      have hmem' : r' ∈ rollupsIn db' metric bucket := by simp [hrows']
      simp only [rollupsIn, List.mem_filter, decide_eq_true_eq] at hmem hmem'
      have hmetric := hmem.2.1.trans hmem'.2.1.symm
      have hbucket := hmem.2.2.trans hmem'.2.2.symm
      have hseconds := hr.2.2.trans hr'.2.2.symm
      rw [hrows, hrows']
      cases r
      cases r'
      simp_all [Rollup.figures]

theorem rollups_filter_congr (h : Conserved resolution all db) (h' : Conserved resolution all' db')
    (p : Rollup → Bool) (hrows : ∀ r, p r = true → rollupsIn db r.metric r.bucketStartNs = rollupsIn
      db' r.metric r.bucketStartNs) :
    db.rollups.filter p = db'.rollups.filter p := by
  have hself : ∀ {db : Database} {r : Rollup},
      r ∈ db.rollups ↔ r ∈ rollupsIn db r.metric r.bucketStartNs := by simp [rollupsIn]
  refine Keyed.Sorted.ext (h.rollups.filter _) (h'.rollups.filter _) fun r => ?_
  rw [List.mem_filter, List.mem_filter]
  refine and_congr_left fun hp => ?_
  rw [hself, hself, hrows r hp]

theorem lt_of_bucketOf (hresolution : 0 < resolution) {ns : ℤ} (h : bucketOf resolution ns = bucket) :
    ns < bucket + resolution := by
  have hlt := Int.tmod_lt_of_pos ns hresolution
  rw [bucketOf] at h
  linarith

theorem MetricSample.observedAtNs_row {s : MetricSample} (h0 : unixEpoch ≤ s.takenAt)
    (h1 : s.takenAt < unixEpoch + 2 ^ 63) : s.row.observedAtNs = s.takenAt - unixEpoch := by
  rw [MetricSample.row, unixNano, Int.bmod_eq_of_le] <;> norm_num <;> linarith

/-- Samples of distinct metrics and times have rows with distinct keys. -/
theorem rows_distinct {samples : List MetricSample}
    (hdistinct : (samples.map fun s => (s.metric, s.takenAt)).Nodup)
    (hrange : ∀ s ∈ samples, unixEpoch ≤ s.takenAt ∧ s.takenAt < unixEpoch + 2 ^ 63) :
    (samples.map MetricSample.row).Pairwise fun a b => a.key ≠ b.key := by
  refine List.pairwise_map.2 ((List.pairwise_map.1 hdistinct).imp_of_mem fun {a b} ha hb hne => ?_)
  intro hkey
  have hkey' : (a.row.observedAtNs, a.metric) = (b.row.observedAtNs, b.metric) := hkey
  obtain ⟨hat, hmetric⟩ := Prod.ext_iff.1 hkey'
  rw [MetricSample.observedAtNs_row (hrange a ha).1 (hrange a ha).2,
    MetricSample.observedAtNs_row (hrange b hb).1 (hrange b hb).2] at hat
  exact hne (Prod.ext hmetric (by linarith))

theorem conserved_init (hsamples : db.samples = []) (hrollups : db.rollups = []) :
    Conserved resolution [] db := by
  refine ⟨?_, ?_, [], ?_, ?_⟩
  · rw [hsamples]
    exact .nil
  · rw [hrollups]
    exact .nil
  · rw [hrollups]
    exact .nil
  · rw [hsamples]
    exact .refl _

/-- Where the same samples of a bucket are raw, the same samples are compacted. -/
theorem compactedIn_perm (hall : all.Perm all') (h : ∀ s ∈ all, s.metric = metric → bucketOf
      resolution s.observedAtNs = bucket → (s ∈ db.samples ↔ s ∈ db'.samples)) :
    (compactedIn resolution db all metric bucket).Perm
      (compactedIn resolution db' all' metric bucket) := by
  have hsame : compactedIn resolution db all metric bucket =
      compactedIn resolution db' all metric bucket := by
    refine List.filter_congr fun s hs => decide_eq_decide.2 ?_
    constructor
    · rintro ⟨hraw, hm, hb⟩
      exact ⟨fun hraw' => hraw ((h s hs hm hb).2 hraw'), hm, hb⟩
    · rintro ⟨hraw, hm, hb⟩
      exact ⟨fun hraw' => hraw ((h s hs hm hb).1 hraw'), hm, hb⟩
  rw [hsame]
  exact hall.filter _

/-- **Rollups conserve the samples.**  In every run of writes, of distinct metrics and
    times less than 2^63 nanoseconds after 1970, and passes, every sample written is
    a raw row or one of the samples compacted into a rollup, and the one row of a
    bucket has the figures of its compacted samples.  Two runs that wrote the same
    samples and compacted all of them before a cutoff have the same rows for the
    buckets before it, and the same rows altogether if they compacted no others. -/
theorem rollups_conserve (hresolution : 0 < resolution) {db : Database} (hsamples : db.samples = [])
    (hrollups : db.rollups = []) (ops : List MetricOp)
    (hdistinct : ((written ops).map fun s => (s.metric, s.takenAt)).Nodup)
    (hrange : ∀ s ∈ written ops, unixEpoch ≤ s.takenAt ∧ s.takenAt < unixEpoch + 2 ^ 63) :
    (∀ s ∈ written ops, s.row.observedAtNs = s.takenAt - unixEpoch) ∧
    ((written ops).map MetricSample.row).Nodup ∧ (metricRun resolution db ops).samples.Nodup ∧
    (∀ row ∈ (metricRun resolution db ops).samples, row ∈ (written ops).map MetricSample.row) ∧
    (∀ metric bucket,
      (compactedIn resolution (metricRun resolution db ops) ((written ops).map MetricSample.row)
          metric bucket = [] ∧ rollupsIn (metricRun resolution db ops) metric bucket = []) ∨
      ∃ r, rollupsIn (metricRun resolution db ops) metric bucket = [r] ∧
        r.figures.Of (compactedIn resolution (metricRun resolution db ops)
          ((written ops).map MetricSample.row) metric bucket)) ∧
    ∀ ops', (written ops').Perm (written ops) → ∀ cutoff,
      (∀ s ∈ written ops, s.takenAt < cutoff → s.row ∉ (metricRun resolution db ops).samples ∧
        s.row ∉ (metricRun resolution db ops').samples) →
      ((metricRun resolution db ops).rollups.filter fun r => r.bucketStart + resolution ≤ cutoff) =
        ((metricRun resolution db ops').rollups.filter fun r =>
          r.bucketStart + resolution ≤ cutoff) ∧
      ((∀ s ∈ written ops, cutoff ≤ s.takenAt → s.row ∈ (metricRun resolution db ops).samples ∧
        s.row ∈ (metricRun resolution db ops').samples) →
        (metricRun resolution db ops).rollups = (metricRun resolution db ops').rollups) := by
  have hkeys := rows_distinct hdistinct hrange
  have hinit : Conserved resolution [] db := conserved_init hsamples hrollups
  have hrun := hinit.run ops (by simpa using hkeys)
  rw [List.nil_append] at hrun
  refine ⟨fun s hs => MetricSample.observedAtNs_row (hrange s hs).1 (hrange s hs).2,
    hkeys.imp fun hne heq => hne (congrArg Sample.key heq),
    hrun.samples.imp fun hlt heq => hlt.ne (congrArg Sample.key heq), fun row => hrun.raw_mem,
    fun metric bucket => ?_, fun ops' hperm cutoff hcompacted => ?_⟩
  · rcases hrun.rollupsIn_cases hkeys metric bucket with hnone | ⟨r, hr, hexact⟩
    · exact .inl hnone
    · exact .inr ⟨r, hr, hexact.1⟩
  · have hkeys' := rows_distinct ((hperm.map _).nodup_iff.2 hdistinct)
      fun s hs => hrange s (hperm.subset hs)
    have hrun' := hinit.run ops' (by simpa using hkeys')
    rw [List.nil_append] at hrun'
    have hrows := hperm.symm.map MetricSample.row
    -- up to the cutoff both runs have compacted everything
    constructor
    · refine rollups_filter_congr hrun hrun' _ fun r hr => ?_
      refine hrun.rollupsIn_congr hrun' hkeys hkeys' (compactedIn_perm hrows fun row hrow _ hb => ?_)
      obtain ⟨s, hs, rfl⟩ := List.mem_map.1 hrow
      have hlt := lt_of_bucketOf hresolution hb
      rw [MetricSample.observedAtNs_row (hrange s hs).1 (hrange s hs).2] at hlt
      have hend : unixEpoch + r.bucketStartNs + resolution ≤ cutoff := of_decide_eq_true hr
      have := hcompacted s hs (by linarith)
      exact iff_of_false this.1 this.2
    · intro hraw
      have hall := rollups_filter_congr hrun hrun' (fun _ => true) fun r _ => ?_
      · simpa using hall
      refine hrun.rollupsIn_congr hrun' hkeys hkeys' (compactedIn_perm hrows fun row hrow _ _ => ?_)
      obtain ⟨s, hs, rfl⟩ := List.mem_map.1 hrow
      rcases lt_or_ge s.takenAt cutoff with hlt | hge
      · have := hcompacted s hs hlt
        exact iff_of_false this.1 this.2
      · have := hraw s hs hge
        exact iff_of_true this.1 this.2

end

/-- Two samples of one bucket, the older of which comes after the bucket was compacted. -/
def lateSample : List MetricOp :=
  [.write [⟨.processCount, unixEpoch + 2, 3⟩] true, .rollup (unixEpoch + minute) 1 true,
    .write [⟨.processCount, unixEpoch + 1, 5⟩] true, .rollup (unixEpoch + minute) 1 true]

/-- The same samples, compacted in one pass. -/
def onePass : List MetricOp :=
  [.write [⟨.processCount, unixEpoch + 1, 5⟩] true,
    .write [⟨.processCount, unixEpoch + 2, 3⟩] true, .rollup (unixEpoch + minute) 9 true]

theorem lateSample_conserved :
    ((metricRun minute {} lateSample).rollups.filter fun r =>
        r.bucketStart + minute ≤ unixEpoch + minute) =
      (metricRun minute {} onePass).rollups.filter fun r =>
        r.bucketStart + minute ≤ unixEpoch + minute := by
  have hempty : ({} : Database).samples = [] := rfl
  obtain ⟨-, -, -, -, -, hcongr⟩ := rollups_conserve (show 0 < minute by decide) hempty rfl
    lateSample (by decide) (by decide)
  exact (hcongr onePass (by decide) (unixEpoch + minute) (by decide)).1

/-- Of two samples 2^64 nanoseconds apart the first one is lost. -/
theorem distant_samples_collide :
    (written [.write [⟨.processCount, unixEpoch, 3⟩] true,
        .write [⟨.processCount, unixEpoch + 2 ^ 64, 5⟩] true]) =
      [⟨.processCount, unixEpoch, 3⟩, ⟨.processCount, unixEpoch + 2 ^ 64, 5⟩] ∧
    (metricRun minute {} [.write [⟨.processCount, unixEpoch, 3⟩] true,
        .write [⟨.processCount, unixEpoch + 2 ^ 64, 5⟩] true]).samples =
      [⟨.processCount, 0, 5⟩] ∧
    (metricRun minute {} [.write [⟨.processCount, unixEpoch, 3⟩] true,
        .write [⟨.processCount, unixEpoch + 2 ^ 64, 5⟩] true]).rollups = [] := by
  decide

end History

end HomeLab
