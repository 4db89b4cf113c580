/-
  Committed attempts tile time.

  Each attempt to read a source speaks about the time since the attempt before
  it, the first one about the five minutes before it.  Without retention passes
  the stored coverage is, from the retention floor on, what the attempts say
  instant by instant (`known`), so that

  `attempts_tile_time`: every retained instant lies in exactly one segment, which
  is positive only where every attempt that speaks about the instant read it, and
  carries the strongest reason given for it otherwise.
-/
import HomeLab.History.Merging
import HomeLab.History.Retention

namespace HomeLab

namespace History

open LogObs Segment

/-! ## Attempts -/

/-- A committed batch with the query time of the one before it. -/
structure Attempt where
  previous : Option Instant
  batch : Batch

/-- The attempts that a list of batches makes, after one at `previous`. -/
def attemptsFrom : Option Instant → List Batch → List Attempt
  | _, [] => []
  | previous, b :: bs => ⟨previous, b⟩ :: attemptsFrom (some b.queryStartedAt) bs

/-- The attempt's window contains the instant. -/
def Attempt.Covers (a : Attempt) (u : Instant) : Prop :=
  attemptStart a.previous a.batch.queryStartedAt ≤ u ∧ u < a.batch.queryStartedAt

/-- A batch that read everything up to its query. -/
def Attempt.CaughtUp (a : Attempt) : Prop := a.batch.kind = .normal ∧ a.batch.caughtUp = true

/-- The reason of the gap that the attempt reports at an instant: an attempt that
    did not catch up reports its whole window, one that did the part of its window
    before its last minute, unless it is the first one. -/
def Attempt.gap (a : Attempt) (u : Instant) : Option ReasonCode :=
  (attemptReason a.previous a.batch u).join

/-- The place of a reason in the order of precedence. -/
def precedence (r : ReasonCode) : ℕ := (historicalReasonRank r).getD 0

theorem attemptsFrom_concat (previous : Option Instant) (bs : List Batch) (b : Batch) :
    attemptsFrom previous (bs ++ [b]) = attemptsFrom previous bs ++
      [⟨(bs.getLast?.map (·.queryStartedAt)).or previous, b⟩] := by
  induction bs generalizing previous with
  | nil => simp [attemptsFrom]
  | cons c bs ih =>
    rw [List.cons_append, attemptsFrom, attemptsFrom, ih, List.cons_append]
    congr 3
    cases bs using List.reverseRecOn with
    | nil => simp
    | append_singleton bs d => simp [List.getLast?_cons]

/-- What the attempts say about an instant. -/
def known (as : List Attempt) (u : Instant) : Option Reason :=
  as.foldl (fun k a => overlay k (attemptReason a.previous a.batch u)) none

theorem known_concat (as : List Attempt) (a : Attempt) (u : Instant) :
    known (as ++ [a]) u = overlay (known as u) (attemptReason a.previous a.batch u) := by
  rw [known, List.foldl_append]
  rfl

/-- What holds of the strongest of what the attempts say. -/
structure Strongest (as : List Attempt) (u : Instant) : Prop where
  silent : known as u = none → ∀ a ∈ as, attemptReason a.previous a.batch u = none
  positive : known as u = some none → ∀ a ∈ as, a.gap u = none
  gap : ∀ r, known as u = some (some r) → (∃ a ∈ as, a.gap u = some r) ∧
    ∀ a ∈ as, ∀ r' ∈ a.gap u, precedence r ≤ precedence r'

variable {u : Instant} {a : Attempt} {b : Batch}

theorem strongest (as : List Attempt) (u : Instant) : Strongest as u := by
  have h : Prevailing (as.filterMap fun a => attemptReason a.previous a.batch u) (known as u) :=
    (show Prevailing [] none from rfl).foldl _ as
  have hgap {a : Attempt} {r : ReasonCode} (ha : a ∈ as) (hr : a.gap u = some r) :
      some r ∈ as.filterMap fun a => attemptReason a.previous a.batch u :=
    List.mem_filterMap.2 ⟨a, ha, Option.join_eq_some_iff.1 hr⟩
  -- positive proof outranks no gap, and a gap only the gaps of a higher rank
  refine ⟨fun hk => ?_, fun hk a ha => ?_, fun r hk => ?_⟩ <;> rw [hk] at h
  · exact List.filterMap_eq_nil_iff.1 h
  · exact Option.eq_none_iff_forall_ne_some.2 fun r hr => h.2 _ (hgap ha hr)
  · obtain ⟨a, ha, hr⟩ := List.mem_filterMap.1 h.1
    exact ⟨⟨a, ha, Option.join_eq_some_iff.2 hr⟩, fun a ha r' hr' => h.2 _ (hgap ha hr')⟩

theorem known_eq_none {as : List Attempt} (h : ∀ a ∈ as, attemptReason a.previous a.batch u = none) :
    known as u = none := by
  induction as using List.reverseRecOn with
  | nil => rfl
  | append_singleton as a ih =>
    rw [known_concat, ih fun b hb => h b (by simp [hb]), h a (by simp)]
    rfl

theorem attemptReason_eq_none_of_le (h : a.batch.queryStartedAt ≤ u) :
    attemptReason a.previous a.batch u = none := by
  rw [attemptReason, if_neg fun hc => absurd hc.2 (not_lt.2 h)]

theorem Attempt.Covers.attemptReason (h : a.Covers u) :
    attemptReason a.previous a.batch u ≠ none := by
  rw [History.attemptReason, if_pos ⟨h.1, h.2⟩]
  split_ifs <;> simp

/-- A batch that has not caught up says why. -/
theorem reason_of_validate (h : b.validate = true) (hc : ¬(b.kind = .normal ∧ b.caughtUp = true)) :
    b.reasonCode.isSome = true := by
  rw [Batch.validate] at h
  simp only [Bool.and_eq_true] at h
  obtain ⟨⟨⟨⟨⟨⟨-, hreason⟩, -⟩, -⟩, -⟩, -⟩, hcounts⟩ := h
  by_cases hok : b.collectionState = .ok
  · exfalso
    cases hs : sumDiscards b.discards 0 with
    | none => simp [hs] at hcounts
    | some discarded =>
      simp only [hs, Bool.and_eq_true] at hcounts
      by_cases hk : b.kind = .normal
      · have := hcounts.2
        simp only [hk, ne_eq, not_true_eq_false, if_false, Batch.validateNormalBatch, hok,
          Bool.and_eq_true, decide_true, Bool.true_and, Bool.not_eq_true', Bool.not_eq_false'] at this
        tauto
      · have := hcounts.2
        rw [if_pos hk, Batch.validateResetBatch, hok] at this
        split_ifs at this <;> simp at this
  · simpa [hok] using hreason

theorem Attempt.Covers.read (h : a.Covers u) (hvalid : a.batch.validate = true)
    (hgap : a.gap u = none) :
    a.CaughtUp ∧ (a.previous = none ∨ a.batch.queryStartedAt - minute ≤ u) := by
  rw [Attempt.gap, History.attemptReason, if_pos ⟨h.1, h.2⟩] at hgap
  by_cases hc : a.CaughtUp
  · refine ⟨hc, ?_⟩
    rw [if_pos (by simp [hc.1, hc.2])] at hgap
    by_contra hno
    rw [not_or, not_le, ← ne_eq, ← Option.isSome_iff_ne_none] at hno
    simp [hno.1, hno.2] at hgap
  · have hsome := reason_of_validate hvalid hc
    rw [if_neg (by simpa [Attempt.CaughtUp] using hc)] at hgap
    cases hr : a.batch.reasonCode with
    | none => simp [hr] at hsome
    | some r => simp [hr] at hgap

theorem mem_attemptsFrom {previous : Option Instant} {bs : List Batch}
    (h : a ∈ attemptsFrom previous bs) : a.batch ∈ bs := by
  induction bs generalizing previous with
  | nil => simp [attemptsFrom] at h
  | cons b bs ih =>
    rcases List.mem_cons.1 h with rfl | h
    · simp
    · exact List.mem_cons_of_mem _ (ih h)

/-- The windows leave no hole between the first and the last attempt. -/
theorem exists_covers {previous : Option Instant} {last : Batch} {bs : List Batch}
    (hlast : last ∈ (b :: bs).getLast?) (hstart : attemptStart previous b.queryStartedAt ≤ u)
    (hstop : u < last.queryStartedAt) : ∃ a ∈ attemptsFrom previous (b :: bs), a.Covers u := by
  induction bs generalizing previous b with
  | nil =>
    obtain rfl : b = last := by simpa using hlast
    exact ⟨⟨previous, b⟩, List.mem_cons_self .., hstart, hstop⟩
  | cons c bs ih =>
    rcases lt_or_ge u b.queryStartedAt with hlt | hge
    · exact ⟨⟨previous, b⟩, List.mem_cons_self .., hstart, hlt⟩
    · have hnext : attemptStart (some b.queryStartedAt) c.queryStartedAt ≤ u := hge
      obtain ⟨a, ha, hcovers⟩ := ih (by simpa using hlast) hnext
      exact ⟨a, List.mem_cons_of_mem _ ha, hcovers⟩

/-! ## The stored coverage -/

/-- The batches committed for a source. -/
def World.batchesOf (w : World) (source : Source) : List Batch :=
  w.batches.filter (·.source = source)

/-- The coverage of a source is what its attempts say, from the floor of the last
    commit on. -/
structure Tiled (age : Duration) (w : World) (source : Source) (segs : List LogCoverageSegment) :
    Prop where
  inv : SourceInv age w.batches source (w.db.log source) none none segs
  previous : (w.db.log source).previousAttempt =
    (w.batchesOf source).getLast?.map (·.queryStartedAt)
  increasing : (w.batchesOf source).Pairwise (·.queryStartedAt < ·.queryStartedAt)
  valid : ∀ b ∈ w.batchesOf source, b.validate = true
  labels : ∀ last ∈ (w.batchesOf source).getLast?, ∀ u, commitFloor age last ≤ u →
    u < last.queryStartedAt → lookup segs u = known (attemptsFrom none (w.batchesOf source)) u

theorem commitFloor_mono {age : Duration} {c : Batch} (h : b.queryStartedAt ≤ c.queryStartedAt) :
    commitFloor age b ≤ commitFloor age c := by
  rw [commitFloor, commitFloor, logRetentionFloor_eq, logRetentionFloor_eq]
  exact max_le_max (sub_le_sub_right h _) le_rfl

variable {age : Duration} {w : World} {source : Source} {segs : List LogCoverageSegment}

theorem Tiled.le_last (h : Tiled age w source segs) {last : Batch} (hb : b ∈ w.batchesOf source)
    (hlast : last ∈ (w.batchesOf source).getLast?) : b.queryStartedAt ≤ last.queryStartedAt := by
  have hinc := h.increasing
  obtain ⟨init, hinit⟩ := List.getLast?_eq_some_iff.1 (Option.mem_def.1 hlast)
  rw [hinit] at hb hinc
  rcases List.mem_append.1 hb with hb | hb
  · exact ((List.pairwise_append.1 hinc).2.2 b hb last (by simp)).le
  · rw [List.mem_singleton.1 hb]

/-- Before the next commit the coverage says what the attempts say from any later
    floor on. -/
theorem Tiled.known_of_floor (h : Tiled age w source segs)
    (hafter : ∀ q ∈ (w.db.log source).previousAttempt, q < b.queryStartedAt)
    (hu : commitFloor age b ≤ u) :
    lookup segs u = known (attemptsFrom none (w.batchesOf source)) u := by
  cases hlast : (w.batchesOf source).getLast? with
  | none =>
    have hnone : (w.db.log source).previousAttempt = none := by rw [h.previous, hlast]; rfl
    rw [List.getLast?_eq_none_iff.1 hlast]
    refine lookup_eq_none.2 fun s hs => ?_
    obtain ⟨q, hq, -⟩ := h.inv.stops s hs
    rw [hnone] at hq
    cases hq
  | some last =>
    have hprev : (w.db.log source).previousAttempt = some last.queryStartedAt := by
      rw [h.previous, hlast]
      rfl
    rcases lt_or_ge u last.queryStartedAt with hlt | hge
    · refine h.labels last hlast u (le_trans ?_ hu) hlt
      exact commitFloor_mono (hafter _ hprev).le
    · rw [known_eq_none fun a ha => attemptReason_eq_none_of_le
        ((h.le_last (mem_attemptsFrom ha) hlast).trans hge)]
      refine lookup_eq_none_of_stop_le fun s hs => ?_
      obtain ⟨q, hq, hle⟩ := h.inv.stops s hs
      rw [hprev] at hq
      exact (hle.trans_eq (Option.mem_some_iff.1 hq).symm).trans hge

theorem Tiled.init (age : Duration) (source : Source) : Tiled age {} source [] where
  inv := SourceInv.init age source
  previous := rfl
  increasing := List.Pairwise.nil
  valid := by simp [World.batchesOf]
  labels last hlast := by simp [World.batchesOf] at hlast

/-- A commit of the source adds its attempt. -/
theorem Tiled.commit (h : Tiled age w source segs) (hsource : b.source = source) {db : Database}
    (c : Committed age (w.db.log source) b (db.log source)) :
    ∃ segs', Tiled age ⟨db, w.batches ++ [b]⟩ source segs' := by
  obtain ⟨segs', hinv, hlook⟩ := h.inv.commit hsource c
  have hbs : (⟨db, w.batches ++ [b]⟩ : World).batchesOf source = w.batchesOf source ++ [b] := by
    simp [World.batchesOf, hsource]
  refine ⟨segs', hinv, ?_, ?_, ?_, ?_⟩
  · rw [hbs, List.getLast?_concat]
    exact c.attempted
  · rw [hbs]
    refine List.pairwise_append.2 ⟨h.increasing, by simp, fun a ha b' hb' => ?_⟩
    rw [List.mem_singleton.1 hb']
    cases hlast : (w.batchesOf source).getLast? with
    | none => simp [List.getLast?_eq_none_iff.1 hlast] at ha
    | some last =>
      refine (h.le_last ha hlast).trans_lt (c.after ?_)
      rw [h.previous, hlast]
      rfl
  · rw [hbs]
    exact List.forall_mem_append.2 ⟨h.valid, by simpa using c.derived.valid⟩
  · rw [hbs, List.getLast?_concat]
    intro last hlast u hfloor hu
    obtain rfl := Option.mem_some_iff.1 hlast
    rw [attemptsFrom_concat, known_concat, hlook u hfloor hu,
      h.known_of_floor (fun q hq => c.after hq) hfloor, h.previous, Option.or_none]

theorem Tiled.other (h : Tiled age w source segs) (hsource : b.source ≠ source) {db : Database}
    (hdb : db.log source = w.db.log source) :
    Tiled age ⟨db, w.batches ++ [b]⟩ source segs := by
  have hbs : (⟨db, w.batches ++ [b]⟩ : World).batchesOf source = w.batchesOf source := by
    simp [World.batchesOf, hsource]
  refine ⟨?_, ?_, ?_, ?_, ?_⟩
  · dsimp only
    rw [hdb]
    exact h.inv.other hsource
  · rw [hbs]
    dsimp only
    rw [hdb]
    exact h.previous
  · rw [hbs]
    exact h.increasing
  · rw [hbs]
    exact h.valid
  · rw [hbs]
    exact h.labels

/-- The call is not a retention pass. -/
def Op.Keeps : Op → Prop
  | .prune _ _ _ _ => False
  | _ => True

theorem Tiled.step (h : Tiled age w source segs) {op : Op} (hop : op.Keeps) :
    ∃ segs', Tiled age (step age w op) source segs' := by
  cases op with
  | commit b env =>
    unfold History.step
    dsimp only
    cases hc : committed age env w.db b with
    | none => exact ⟨segs, h⟩
    | some db =>
      obtain ⟨⟨c⟩, hothers⟩ := committed_log hc
      by_cases heq : b.source = source
      · subst heq
        exact h.commit rfl c
      · exact ⟨segs, h.other heq (hothers source (Ne.symm heq))⟩
  | prune cutoff batchSize ready outcome => exact hop.elim
  | host samples rollups => exact ⟨segs, h.inv, h.previous, h.increasing, h.valid, h.labels⟩

theorem Tiled.run (h : Tiled age w source segs) {ops : List Op} (hops : ∀ op ∈ ops, op.Keeps) :
    ∃ segs', Tiled age (run age w ops) source segs' := by
  induction ops generalizing w segs with
  | nil => exact ⟨segs, h⟩
  | cons op ops ih =>
    obtain ⟨segs₁, h₁⟩ := h.step (hops op (by simp))
    exact ih h₁ fun op' hop' => hops op' (by simp [hop'])

/-- **Committed attempts tile time without holes.**  After commits without a
    retention pass between them, each instant since five minutes before the first
    attempt that is still retained lies in exactly one segment; the segment is
    positive only if all attempts that cover the instant read it, and otherwise it
    carries the strongest of the reasons that they give. -/
theorem attempts_tile_time (age : Duration) (ops : List Op) (hops : ∀ op ∈ ops, op.Keeps)
    (source : Source) :
    ∃ segs, decodeCoverage none ((run age {} ops).db.log source).coverage = .ok segs ∧
      ((run age {} ops).batchesOf source).Pairwise (·.queryStartedAt < ·.queryStartedAt) ∧
      ∀ first ∈ ((run age {} ops).batchesOf source).head?,
      ∀ last ∈ ((run age {} ops).batchesOf source).getLast?, ∀ u,
        first.queryStartedAt - 5 * minute ≤ u →
        last.queryStartedAt - min age logRetention ≤ u → earliestLogTime ≤ u →
        u < last.queryStartedAt →
        ∃ s ∈ segs, s.Contains u ∧ (∀ s' ∈ segs, s'.Contains u → s' = s) ∧
          (s.label = none → ∀ a ∈ attemptsFrom none ((run age {} ops).batchesOf source),
            a.Covers u → a.CaughtUp ∧
              (a.previous = none ∨ a.batch.queryStartedAt - minute ≤ u)) ∧
          ∀ r, s.label = some r →
            (∃ a ∈ attemptsFrom none ((run age {} ops).batchesOf source), a.gap u = some r) ∧
            ∀ a ∈ attemptsFrom none ((run age {} ops).batchesOf source), ∀ r' ∈ a.gap u,
              precedence r ≤ precedence r' := by
  obtain ⟨segs, h⟩ := (Tiled.init age source).run hops
  refine ⟨segs, ?_, h.increasing, fun first hfirst last hlast u hstart hage hearliest hu => ?_⟩
  · rw [h.inv.evidence.rows_eq]
    exact decodeCoverage_rows h.inv.evidence.ordered h.inv.evidence.valid
      fun p (hp : p ∈ none) => absurd hp (by simp)
  have hfloor : commitFloor age last ≤ u := by
    rw [commitFloor, logRetentionFloor_eq]
    exact max_le hage hearliest
  have hlabel := h.labels last hlast u hfloor hu
  set as := attemptsFrom none ((run age {} ops).batchesOf source) with has
  have hvalid : ∀ a ∈ as, a.batch.validate = true := fun a ha => h.valid _ (mem_attemptsFrom ha)
  obtain ⟨rest, hrest⟩ := List.head?_eq_some_iff.1 (Option.mem_def.1 hfirst)
  obtain ⟨a, ha, hcovers⟩ : ∃ a ∈ as, a.Covers u := by
    rw [has, hrest]
    rw [hrest] at hlast
    exact exists_covers hlast hstart hu
  cases hk : known as u with
  | none => exact absurd ((strongest as u).silent hk a ha) hcovers.attemptReason
  | some reason =>
    obtain ⟨s, hs, hcontains, rfl⟩ := exists_of_lookup (hlabel.trans hk)
    refine ⟨s, hs, hcontains, fun s' hs' hc' =>
      h.inv.evidence.ordered.unique hs' hs hc' hcontains, fun hnone a ha hca => ?_, fun r hr => ?_⟩
    · exact hca.read (hvalid a ha) ((strongest as u).positive (by rw [hk, hnone]) a ha)
    · exact (strongest as u).gap r (by rw [hk, hr])

/-- Two attempts three minutes apart. -/
def sampleAttempts : List Op :=
  [.commit (caughtUpBatch 0 (yearStart 2026) []) {},
    .commit (caughtUpBatch 1 (yearStart 2026 + 3 * minute) []) {}]

theorem sampleAttempts_tile :
    (run (7 * day) {} sampleAttempts).batches.length = 2 ∧
    ∃ segs, decodeCoverage none ((run (7 * day) {} sampleAttempts).db.log .system).coverage =
        .ok segs ∧
      ∃ s ∈ segs, s.Contains (yearStart 2026 + minute) := by
  refine ⟨by decide, ?_⟩
  have hops : ∀ op ∈ sampleAttempts, op.Keeps := by
    simp [sampleAttempts, Op.Keeps]
  obtain ⟨segs, hdecode, -, htile⟩ := attempts_tile_time (7 * day) sampleAttempts hops .system
  obtain ⟨s, hs, hcontains, -⟩ := htile (caughtUpBatch 0 (yearStart 2026) []) (by decide)
    (caughtUpBatch 1 (yearStart 2026 + 3 * minute) []) (by decide)
    (yearStart 2026 + minute) (by decide) (by decide) (by decide)
    (by decide)
  exact ⟨segs, hdecode, s, hs, hcontains⟩

end History

end HomeLab
