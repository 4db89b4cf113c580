/-
  Compaction of host metrics.

  `rollupBatch` takes the oldest raw samples before a cutoff, gathers them by
  metric and bucket, merges each bucket into its rollup row, and deletes the
  samples; `readMetric` reads the rows of both tables in a window.  `Compacted` is
  what every sequence of such passes keeps: raw samples and the samples behind the
  rollup rows are together the samples once stored.
-/
import HomeLab.Lib.Tally
import HomeLab.History.Store

namespace HomeLab

namespace History

/-! ## The pass -/

structure RollupAccumulator where
  metric : MetricID
  bucket : ℤ
  count : ℕ := 0
  min : ℚ
  max : ℚ
  sum : ℚ := 0
  last : ℚ
  lastAt : ℤ

/-- The start of the bucket of a time; Go's `%` truncates. -/
def bucketOf (resolution : Duration) (ns : ℤ) : ℤ := ns - ns.tmod resolution

def RollupAccumulator.key (a : RollupAccumulator) : MetricID × ℤ := (a.metric, a.bucket)

def newAccumulator (row : Sample) (bucket : ℤ) : RollupAccumulator :=
  { metric := row.metric, bucket := bucket, min := row.value, max := row.value, last := row.value,
    lastAt := row.observedAtNs }

def RollupAccumulator.add (a : RollupAccumulator) (row : Sample) : RollupAccumulator :=
  { a with
    count := a.count + 1
    sum := a.sum + row.value
    min := if row.value < a.min then row.value else a.min
    max := if a.max < row.value then row.value else a.max
    last := if a.lastAt ≤ row.observedAtNs then row.value else a.last
    lastAt := if a.lastAt ≤ row.observedAtNs then row.observedAtNs else a.lastAt }

/-- One row of the input: its group is made at the end if it is missing. -/
def accumulate (resolution : Duration) (groups : List RollupAccumulator) (row : Sample) :
    List RollupAccumulator :=
  let bucket := bucketOf resolution row.observedAtNs
  if groups.any fun a => a.key = (row.metric, bucket) then
    groups.map fun a => if a.key = (row.metric, bucket) then a.add row else a
  else groups ++ [(newAccumulator row bucket).add row]

def RollupAccumulator.row (resolution : Duration) (a : RollupAccumulator) : Rollup where
  metric := a.metric
  bucketStartNs := a.bucket
  resolutionSeconds := resolution.tdiv second
  sampleCount := a.count
  minimum := a.min
  maximum := a.max
  total := a.sum
  lastValue := a.last
  lastAtNs := a.lastAt

/-- `DO UPDATE` of the upsert. -/
def Rollup.merge (r excluded : Rollup) : Rollup :=
  { r with
    sampleCount := r.sampleCount + excluded.sampleCount
    minimum := min r.minimum excluded.minimum
    maximum := max r.maximum excluded.maximum
    total := r.total + excluded.total
    lastValue := if r.lastAtNs ≤ excluded.lastAtNs then excluded.lastValue else r.lastValue
    lastAtNs := max r.lastAtNs excluded.lastAtNs }

def upsertRollup (table : List Rollup) (excluded : Rollup) : List Rollup :=
  match Keyed.find Rollup.key excluded.key table with
  | some _ => Keyed.modify Rollup.key excluded.key (fun r => r.merge excluded) table
  | none => Keyed.insert Rollup.key excluded table

/-- The samples that a pass takes: the oldest before the cutoff. -/
def rollupInput (before : ℤ) (batchSize : ℕ) (db : Database) : List Sample :=
  (db.samples.filter fun s => s.observedAtNs < before).take batchSize

/-- The effect of a pass that commits; `before` is the cutoff in Unix
    nanoseconds. -/
def rollupBatch (resolution : Duration) (db : Database) (before : ℤ) (batchSize : ℕ) : Database :=
  let input := rollupInput before batchSize db
  if input.isEmpty then db
  else
    let groups := input.foldl (accumulate resolution) []
    { db with
      samples := input.foldl (fun table row => Keyed.erase Sample.key row.key table) db.samples
      rollups := (groups.map (RollupAccumulator.row resolution)).foldl upsertRollup db.rollups }

/-- Passes with their cutoffs and batch sizes. -/
def compact (resolution : Duration) (db : Database) (passes : List (ℤ × ℕ)) : Database :=
  passes.foldl (fun db p => rollupBatch resolution db p.1 p.2) db

/-! ## Reading a metric -/

/-- `UnixNano`: the nanoseconds since 1970 as a 64-bit integer, which wraps for
    times after 2262. -/
def unixNano (t : Instant) : ℤ := (t - unixEpoch).bmod (2 ^ 64)

def inWindow (metric : MetricID) (start stop : Instant) (m : MetricID) (ns : ℤ) : Bool :=
  m = metric && unixNano start ≤ ns && ns ≤ unixNano stop

/-- The raw rows of the metric in a window, oldest first. -/
def sampleRows (db : Database) (metric : MetricID) (start stop : Instant) : List Sample :=
  db.samples.filter fun s => inWindow metric start stop s.metric s.observedAtNs

/-- The rollup rows of the metric in a window, oldest first. -/
def rollupRows (db : Database) (metric : MetricID) (start stop : Instant) : List Rollup :=
  db.rollups.filter fun r => inWindow metric start stop r.metric r.bucketStartNs

def querySamples (db : Database) (metric : MetricID) (start stop : Instant) (limit : ℕ) :
    List Sample :=
  (sampleRows db metric start stop).take limit

def queryRollups (db : Database) (metric : MetricID) (start stop : Instant) (limit : ℕ) :
    List Rollup :=
  (rollupRows db metric start stop).take limit

def readMetric (db : Database) (metric : MetricID) (start stop : Instant) (limit : ℕ) :
    List Sample × List Rollup :=
  (querySamples db metric start stop limit, queryRollups db metric start stop limit)

/-! ## What a row stands for -/

def Sample.instant (s : Sample) : Instant := unixEpoch + s.observedAtNs

def Rollup.bucketStart (r : Rollup) : Instant := unixEpoch + r.bucketStartNs

def Rollup.lastAt (r : Rollup) : Instant := unixEpoch + r.lastAtNs

def RollupAccumulator.tally (a : RollupAccumulator) : Tally Instant ℚ :=
  ⟨a.count, a.sum, unixEpoch + a.lastAt, a.last⟩

def Rollup.tally (r : Rollup) : Tally Instant ℚ :=
  ⟨r.sampleCount, r.total, r.lastAt, r.lastValue⟩

def Sample.tally (s : Sample) : Tally Instant ℚ := ⟨1, s.value, s.instant, s.value⟩

abbrev Describes (d : Tally Instant ℚ) (g : List Sample) : Prop :=
  d.Describes Sample.instant Sample.value g

def InBucket (resolution : Duration) (metric : MetricID) (bucket : ℤ) (g : List Sample) : Prop :=
  ∀ s ∈ g, s.metric = metric ∧ bucketOf resolution s.observedAtNs = bucket

/-- The accumulator stands for the samples `g` of its bucket. -/
def RollupAccumulator.For (resolution : Duration) (a : RollupAccumulator) (g : List Sample) :
    Prop :=
  Describes a.tally g ∧ InBucket resolution a.metric a.bucket g

/-- The rollup row stands for the samples `g` of its bucket. -/
def Rollup.For (resolution : Duration) (r : Rollup) (g : List Sample) : Prop :=
  Describes r.tally g ∧ InBucket resolution r.metric r.bucketStartNs g

section
variable {resolution : Duration}

variable {g rolled : List Sample} {ok : Rollup → List Sample → Prop} {db : Database}

theorem InBucket.append {metric : MetricID} {bucket : ℤ} {h : List Sample}
    (hg : InBucket resolution metric bucket g) (hh : InBucket resolution metric bucket h) :
    InBucket resolution metric bucket (g ++ h) := by
  intro s hs
  rcases List.mem_append.1 hs with hs | hs
  · exact hg s hs
  · exact hh s hs

theorem inBucket_singleton {metric : MetricID} {bucket : ℤ} {row : Sample}
    (hm : row.metric = metric) (hb : bucketOf resolution row.observedAtNs = bucket) :
    InBucket resolution metric bucket [row] := by
  intro s hs
  rw [List.mem_singleton.1 hs]
  exact ⟨hm, hb⟩

theorem RollupAccumulator.For.add {a : RollupAccumulator} {row : Sample} (ha : a.For resolution g)
    (hm : row.metric = a.metric) (hb : bucketOf resolution row.observedAtNs = a.bucket) :
    (a.add row).For resolution (g ++ [row]) := by
  refine ⟨ha.1.merge (Tally.describes_singleton _ _ row) rfl rfl ?_,
    ha.2.append (inBucket_singleton hm hb)⟩
  by_cases hle : a.lastAt ≤ row.observedAtNs
  · refine Or.inr ⟨(Int.add_le_add_iff_left unixEpoch).2 hle, ?_, ?_⟩
    · simp [RollupAccumulator.tally, RollupAccumulator.add, hle, Sample.instant]
    · simp [RollupAccumulator.tally, RollupAccumulator.add, hle]
  · refine Or.inl ⟨(Int.add_le_add_iff_left unixEpoch).2 (not_le.1 hle).le, ?_, ?_⟩
    · simp [RollupAccumulator.tally, RollupAccumulator.add, hle]
    · simp [RollupAccumulator.tally, RollupAccumulator.add, hle]

theorem newAccumulator_for (row : Sample) :
    ((newAccumulator row (bucketOf resolution row.observedAtNs)).add row).For resolution [row] := by
  refine ⟨?_, inBucket_singleton rfl rfl⟩
  have hone := Tally.describes_singleton Sample.instant Sample.value row
  simpa [RollupAccumulator.tally, RollupAccumulator.add, newAccumulator, Sample.instant] using hone

/-- Rows may be gathered into groups if what a group stands for follows from its rows. -/
structure Gathers (resolution : Duration) (ok : RollupAccumulator → List Sample → Prop) : Prop where
  new : ∀ row, ok ((newAccumulator row (bucketOf resolution row.observedAtNs)).add row) [row]
  add : ∀ {a g row}, ok a g → row.metric = a.metric →
    bucketOf resolution row.observedAtNs = a.bucket → ok (a.add row) (g ++ [row])

/-- One more row keeps the keys distinct and comes to stand in its group. -/
theorem Gathers.accumulate {ok : RollupAccumulator → List Sample → Prop} (hok : Gathers resolution ok)
    {groups : List RollupAccumulator} {rows : List Sample}
    (hkeys : groups.Pairwise fun a b => a.key ≠ b.key) (hrows : Holds ok groups rows) (row : Sample) :
    (accumulate resolution groups row).Pairwise (fun a b => a.key ≠ b.key) ∧
      Holds ok (accumulate resolution groups row) (rows ++ [row]) := by
  unfold History.accumulate
  dsimp only
  split_ifs with hany
  · simp only [List.any_eq_true, decide_eq_true_eq] at hany
    refine ⟨?_, hrows.modify hkeys hany (fun a g hak ha => ?_) fun a ha => if_neg ha⟩
    · refine List.pairwise_map.2 (hkeys.imp fun {a b} hne => ?_)
      split_ifs <;> exact hne
    · rw [if_pos hak]
      have hm : a.metric = row.metric := congrArg Prod.fst hak
      have hb : a.bucket = bucketOf resolution row.observedAtNs := congrArg Prod.snd hak
      exact hok.add ha hm.symm hb.symm
  · simp only [List.any_eq_true, decide_eq_true_eq, not_exists, not_and] at hany
    refine ⟨?_, hrows.add (hok.new row) (List.perm_append_singleton _ _)⟩
    refine List.pairwise_append.2 ⟨hkeys, List.pairwise_singleton _ _, fun a ha b hb => ?_⟩
    rw [List.mem_singleton.1 hb]
    exact hany a ha

theorem Gathers.foldl {ok : RollupAccumulator → List Sample → Prop} (hok : Gathers resolution ok)
    (rows : List Sample) :
    (rows.foldl (History.accumulate resolution) []).Pairwise (fun a b => a.key ≠ b.key) ∧
      Holds ok (rows.foldl (History.accumulate resolution) []) rows := by
  induction rows using List.reverseRecOn with
  | nil => exact ⟨.nil, .nil⟩
  | append_singleton rows row ih =>
    rw [List.foldl_concat]
    exact hok.accumulate ih.1 ih.2 row

theorem gathers_for : Gathers resolution (RollupAccumulator.For resolution) where
  new := newAccumulator_for
  add := RollupAccumulator.For.add

theorem Rollup.For.merge {r excluded : Rollup} {h : List Sample} (hr : r.For resolution g)
    (he : excluded.For resolution h) (hk : r.key = excluded.key) :
    (r.merge excluded).For resolution (g ++ h) := by
  have hk' : (r.bucketStartNs, toLex (r.metric, r.resolutionSeconds)) =
      (excluded.bucketStartNs, toLex (excluded.metric, excluded.resolutionSeconds)) := hk
  have hb : r.bucketStartNs = excluded.bucketStartNs := congrArg Prod.fst hk'
  have hm : r.metric = excluded.metric := congrArg (fun k => (ofLex k.2).1) hk'
  refine ⟨hr.1.merge he.1 rfl rfl ?_, hr.2.append ?_⟩
  · by_cases hle : r.lastAtNs ≤ excluded.lastAtNs
    · refine Or.inr ⟨(Int.add_le_add_iff_left unixEpoch).2 hle, ?_, ?_⟩
      · simp [Rollup.tally, Rollup.merge, Rollup.lastAt, hle]
      · simp [Rollup.tally, Rollup.merge, hle]
    · refine Or.inl ⟨(Int.add_le_add_iff_left unixEpoch).2 (not_le.1 hle).le, ?_, ?_⟩
      · simp [Rollup.tally, Rollup.merge, Rollup.lastAt, (not_le.1 hle).le]
      · simp [Rollup.tally, Rollup.merge, hle]
  · intro s hs
    have := he.2 s hs
    exact ⟨this.1.trans hm.symm, this.2.trans hb.symm⟩

/-- The rollup table, in the order of its key and at one resolution, stands for
    the samples rolled up. -/
structure RolledUp (resolution : Duration) (table : List Rollup) (rolled : List Sample) : Prop where
  sorted : Keyed.Sorted Rollup.key table
  seconds : ∀ r ∈ table, r.resolutionSeconds = resolution.tdiv second
  holds : Holds (Rollup.For resolution) table rolled

/-- A row that is upserted brings its share, where rows of one key merge. -/
theorem upsertRollup_holds (hmerge : ∀ {r excluded g h}, ok r g → ok excluded h → r.key =
      excluded.key → ok (r.merge excluded) (g ++ h)) {table : List Rollup} {new : List Sample}
    {r : Rollup} (hsorted : Keyed.Sorted Rollup.key table) (h : Holds ok table rolled)
    (hr : ok r new) :
    Keyed.Sorted Rollup.key (upsertRollup table r) ∧
      Holds ok (upsertRollup table r) (rolled ++ new) := by
  rw [upsertRollup]
  cases hf : Keyed.find Rollup.key r.key table with
  | some old =>
    have hold := Keyed.mem_of_find hf
    have hkey := Keyed.key_of_find hf
    refine ⟨Keyed.sorted_modify hsorted fun a ha => ha, ?_⟩
    refine h.modify (hsorted.imp fun hlt => hlt.ne) ⟨old, hold, hkey⟩
      (fun a g hak ha => ?_) fun a ha => if_neg ha
    rw [if_pos hak]
    exact hmerge ha hr hak
  | none =>
    exact ⟨Keyed.sorted_insert hsorted (Keyed.find_eq_none.1 hf),
      h.add hr (List.perm_orderedInsert _ _ _)⟩

/-- The rows of groups, upserted one after the other, bring their shares. -/
theorem upserts_hold {okGroup : RollupAccumulator → List Sample → Prop} (hmerge : ∀ {r excluded g
      h}, ok r g → ok excluded h → r.key = excluded.key → ok (r.merge excluded) (g ++ h))
    (hrow : ∀ a g, okGroup a g → ok (a.row resolution) g) {table : List Rollup} {new : List Sample}
    {groups : List RollupAccumulator} (hsorted : Keyed.Sorted Rollup.key table)
    (h : Holds ok table rolled) (hg : Holds okGroup groups new) :
    Keyed.Sorted Rollup.key
        ((groups.map (RollupAccumulator.row resolution)).foldl upsertRollup table) ∧
      Holds ok ((groups.map (RollupAccumulator.row resolution)).foldl upsertRollup table)
        (rolled ++ new) := by
  refine (hg.map hrow).foldl
    (P := fun table rolled => Keyed.Sorted Rollup.key table ∧ Holds ok table rolled) ?_ ?_
    ⟨hsorted, h⟩
  · exact fun s g g' hs hp => ⟨hs.1, hs.2.perm hp⟩
  · exact fun s g r share hs hr => upsertRollup_holds hmerge hs.1 hs.2 hr

/-! ## Passes keep every sample -/

/-- The raw samples, and those behind the rollup rows, are together `all`. -/
structure Compacted (resolution : Duration) (all : List Sample) (db : Database) : Prop where
  samples : Keyed.Sorted Sample.key db.samples
  rolled : ∃ rolled, RolledUp resolution db.rollups rolled ∧ (db.samples ++ rolled).Perm all

theorem compacted_init (resolution : Duration) (hs : Keyed.Sorted Sample.key db.samples)
    (hr : db.rollups = []) : Compacted resolution db.samples db := by
  refine ⟨hs, [], ⟨?_, ?_, ?_⟩, by rw [List.append_nil]⟩
  · rw [hr]; exact .nil
  · simp [hr]
  · rw [hr]; exact .nil

theorem foldl_erase (input table : List Sample) :
    input.foldl (fun table row => Keyed.erase Sample.key row.key table) table =
      table.filter fun s => ∀ row ∈ input, s.key ≠ row.key := by
  induction input generalizing table with
  | nil => simp
  | cons row input ih =>
    rw [List.foldl_cons, ih, Keyed.erase, List.filter_filter]
    refine List.filter_congr fun s _ => ?_
    rw [Bool.and_comm, ← Bool.decide_and]
    simp

/-- Deleting rows of a table leaves the rest of it. -/
theorem perm_foldl_erase {input table : List Sample} (ht : Keyed.Sorted Sample.key table)
    (hsub : input.Sublist table) :
    (input.foldl (fun table row => Keyed.erase Sample.key row.key table) table ++ input).Perm
      table := by
  have hin : table.filter (fun s => !decide (∀ row ∈ input, s.key ≠ row.key)) = input := by
    symm
    refine Keyed.Sorted.ext (ht.sublist hsub) (ht.filter _) fun s => ?_
    simp only [ne_eq, List.mem_filter, Bool.not_eq_true', decide_eq_false_iff_not, not_forall,
      not_not]
    constructor
    · exact fun hs => ⟨hsub.subset hs, s, hs, rfl⟩
    · rintro ⟨hs, row, hrow, hk⟩
      rw [ht.eq_of_key hs (hsub.subset hrow) hk]
      exact hrow
  have hsplit := List.filter_append_perm (fun s => decide (∀ row ∈ input, s.key ≠ row.key)) table
  rw [hin] at hsplit
  rw [foldl_erase]
  exact hsplit

/-- A pass takes some samples and adds them to what the rollup rows stand for. -/
theorem rollupBatch_holds {okGroup : RollupAccumulator → List Sample → Prop}
    (hgathers : Gathers resolution okGroup) (hmerge : ∀ {r excluded g h}, ok r g → ok excluded h →
      r.key = excluded.key → ok (r.merge excluded) (g ++ h))
    (hrow : ∀ a g, okGroup a g → ok (a.row resolution) g)
    (hsamples : Keyed.Sorted Sample.key db.samples) (hsorted : Keyed.Sorted Rollup.key db.rollups)
    (h : Holds ok db.rollups rolled) (before : ℤ) (batchSize : ℕ) :
    ∃ new, Keyed.Sorted Sample.key (rollupBatch resolution db before batchSize).samples ∧
      Keyed.Sorted Rollup.key (rollupBatch resolution db before batchSize).rollups ∧
      Holds ok (rollupBatch resolution db before batchSize).rollups (rolled ++ new) ∧
      ((rollupBatch resolution db before batchSize).samples ++ new).Perm db.samples := by
  unfold History.rollupBatch
  dsimp only
  split_ifs with hempty
  · exact ⟨[], hsamples, hsorted, by rwa [List.append_nil], by rw [List.append_nil]⟩
  · have hsub : (rollupInput before batchSize db).Sublist db.samples :=
      (List.take_sublist _ _).trans List.filter_sublist
    obtain ⟨hsorted', hholds⟩ := upserts_hold hmerge hrow hsorted h (hgathers.foldl _).2
    refine ⟨rollupInput before batchSize db, ?_, hsorted', hholds, perm_foldl_erase hsamples hsub⟩
    rw [foldl_erase]
    exact hsamples.filter _

theorem Compacted.rollupBatch {all : List Sample} (h : Compacted resolution all db) (before : ℤ)
    (batchSize : ℕ) :
    Compacted resolution all (rollupBatch resolution db before batchSize) := by
  obtain ⟨rolled, hrolled, hall⟩ := h.rolled
  have hrows : Holds (fun r g => r.For resolution g ∧
      r.resolutionSeconds = resolution.tdiv second) db.rollups rolled :=
    hrolled.holds.and_rows hrolled.seconds
  obtain ⟨new, hsamples, hsorted, hholds, hsplit⟩ := rollupBatch_holds gathers_for
    (fun hr he hk => ⟨hr.1.merge he.1 hk, hr.2⟩) (fun a g ha => ⟨ha, rfl⟩) h.samples hrolled.sorted
    hrows before batchSize
  refine ⟨hsamples, rolled ++ new, ⟨hsorted, hholds.forall_rows fun r g hr => hr.2,
    hholds.imp fun r g hr => hr.1⟩, ?_⟩
  refine List.Perm.trans ?_ ((hsplit.append_right rolled).trans hall)
  rw [List.append_assoc]
  exact List.perm_append_comm.append_left _

theorem compact_of_no_samples (h : db.samples = []) (passes : List (ℤ × ℕ)) :
    compact resolution db passes = db := by
  induction passes with
  | nil => rfl
  | cons p passes ih =>
    have hstep : History.rollupBatch resolution db p.1 p.2 = db := by
      simp [History.rollupBatch, rollupInput, h]
    rw [History.compact, List.foldl_cons, hstep]
    exact ih

theorem Compacted.compact {all : List Sample} (h : Compacted resolution all db)
    (passes : List (ℤ × ℕ)) : Compacted resolution all (compact resolution db passes) := by
  induction passes generalizing db with
  | nil => exact h
  | cons p passes ih => exact ih (h.rollupBatch p.1 p.2)

end

end History

end HomeLab
