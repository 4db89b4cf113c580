/-
  Runs of a collector.

  Wherever a run is interrupted, all statuses of the collector are in order, and
  so is what it shows (`Collector.Sound`, `collector_stays_valid`), and the recent
  events are the newest of all events committed (`recent_events_are_newest`).
-/
import HomeLab.Lib.Crash
import HomeLab.LogObs.Collector

namespace HomeLab

namespace LogObs

/-! ## Runs -/

/-- A collector and the batches whose commit was confirmed to it. -/
structure Collecting where
  collector : Collector := {}
  committed : List Batch := []

/-- A new collector. -/
def Collecting.start : Collecting := {}

/-- What the outside answers, call by call. -/
abbrev CollectorAnswers := (c : CollectorCall) → c.Answer

def collecting : (c : CollectorCall) → CollectorAnswers → Collecting → Collecting × c.Answer
  | .recordCommit batch, _, w => (⟨w.collector.recordCommit batch, w.committed ++ [batch]⟩, ())
  | .recordStorageFailure source attemptedAt attempted, _, w =>
    ({ w with collector := w.collector.recordStorageFailure source attemptedAt attempted }, ())
  | .alive, e, w => (w, e .alive)
  | .inTime, e, w => (w, e .inTime)
  | .loadCheckpoint source, e, w => (w, e (.loadCheckpoint source))
  | .now, e, w => (w, e .now)
  | .read request, e, w => (w, e (.read request))
  | .commitBatch batch, e, w => (w, e (.commitBatch batch))

/-- The clock reads non-zero instants of the years 1 to 9999. -/
def ReadsClock (e : CollectorAnswers) : Prop := ClockReading (e .now)

/-! ## The recent events -/

/-- The recent events are the first of all events committed. -/
def Collecting.Recent (w : Collecting) : Prop :=
  w.collector.events = (newestFirst (w.committed.flatMap (·.events))).take maxRecentEvents

theorem recordCommit_events_eq (c : Collector) (batch : Batch) :
    (c.recordCommit batch).events =
      if batch.events.length = 0 then c.events
      else (newestFirst (c.events ++ batch.events)).take maxRecentEvents := by
  have hcut : ∀ l : List Event,
      (if maxRecentEvents < l.length then l.take maxRecentEvents else l) =
        l.take maxRecentEvents := by
    intro l
    split_ifs with hlt
    · rfl
    · exact (List.take_of_length_le (not_lt.1 hlt)).symm
  simp only [Collector.recordCommit, hcut]
  split_ifs <;> rfl

theorem recordCommit_events (c : Collector) (batch : Batch) {events : List Event}
    (h : c.events = (newestFirst events).take maxRecentEvents) :
    (c.recordCommit batch).events =
      (newestFirst (events ++ batch.events)).take maxRecentEvents := by
  rw [recordCommit_events_eq]
  split_ifs with hempty
  · rw [List.length_eq_zero_iff.1 hempty, List.append_nil]
    exact h
  · rw [h]
    exact take_ranked_append _ _ _

theorem Collecting.Recent.perform {w : Collecting} (h : w.Recent) (c : CollectorCall)
    (e : CollectorAnswers) : (collecting c e w).1.Recent := by
  cases c with
  | recordCommit batch =>
    have := recordCommit_events w.collector batch h
    rw [Collecting.Recent]
    simpa [collecting, List.flatMap_append] using this
  | _ => exact h

theorem Collecting.recent_start : Collecting.start.Recent := rfl

theorem collecting_recent {w : Collecting} (h : w.Recent) (p : CollectorProg Unit)
    (es : List CollectorAnswers) : (p.exec collecting w es).1.Recent := by
  have hall : ∀ {w : Collecting} (q : CollectorProg Unit), w.Recent →
      Prog.Endures collecting (fun _ => True) Collecting.Recent (fun w _ => w.Recent) w q := by
    intro w q hw
    induction q generalizing w with
    | ret _ => exact hw
    | call c k ih => exact fun e _ => ⟨hw.perform c e, ih _ (hw.perform c e)⟩
  exact ((hall p h).exec h es fun _ _ => trivial).1

/-- **The recent events are the true top list**, after any sequence of commits and
    at any point of any run of a collector. -/
theorem recent_events_are_newest :
    (∀ batches : List Batch, (batches.foldl Collector.recordCommit {}).events =
      (newestFirst (batches.flatMap (·.events))).take maxRecentEvents) ∧
    (∀ sources n es, ((collect sources n).exec collecting Collecting.start es).1.Recent) ∧
    ∀ events, Ranked Event.observedAt events (newestFirst events) := by
  refine ⟨fun batches => ?_, fun sources n es => collecting_recent Collecting.recent_start _ es, ranked_ranked _⟩
  induction batches using List.reverseRecOn with
  | nil => rfl
  | append_singleton batches batch ih =>
    rw [List.foldl_concat, List.flatMap_append, recordCommit_events _ _ ih]
    simp

/-! ## Statuses in order -/

/-- All statuses of the collector are in order, and so are its events. -/
structure Collector.Sound (c : Collector) : Prop where
  latest : ∀ source, ∀ s ∈ c.latest source, s.validate = true
  overlays : ∀ source, ∀ s ∈ c.overlays source, s.validate = true ∧ s.StorageFailure
  recent : c.events.length ≤ maxRecentEvents
  events : ∀ e ∈ c.events, e.validate = true
  newest : c.events.Pairwise fun a b => b.observedAt ≤ a.observedAt

theorem Collector.sound_init : Collector.Sound {} :=
  ⟨by simp, by simp, by decide, by simp, by simp⟩

variable {c : Collector} {α : Type}

theorem Collector.Sound.recordCommit (h : c.Sound) {batch : Batch} (hb : batch.validate = true) :
    (c.recordCommit batch).Sound := by
  have hstatus := statusAfterBatch_validate hb (h.latest batch.source)
  have hstate : (c.recordCommit batch).latest = Function.update c.latest batch.source
      (some (statusAfterBatch batch (c.latest batch.source))) ∧
      (c.recordCommit batch).overlays = Function.update c.overlays batch.source none := by
    simp only [Collector.recordCommit]
    split_ifs <;> exact ⟨rfl, rfl⟩
  have hranked := ranked_ranked Event.observedAt (c.events ++ batch.events)
  refine ⟨fun s st hst => ?_, fun s st hst => ?_, ?_, fun e he => ?_, ?_⟩
  · rw [hstate.1] at hst
    by_cases hs : s = batch.source
    · subst hs
      simp only [Function.update_self, Option.mem_def, Option.some.injEq] at hst
      rw [← hst]
      exact hstatus
    · rw [Function.update_of_ne hs] at hst
      exact h.latest s st hst
  · rw [hstate.2] at hst
    by_cases hs : s = batch.source
    · subst hs
      simp at hst
    · rw [Function.update_of_ne hs] at hst
      exact h.overlays s st hst
  · rw [recordCommit_events_eq]
    split_ifs
    · exact h.recent
    · exact List.length_take_le _ _
  · rw [recordCommit_events_eq] at he
    split_ifs at he
    · exact h.events e he
    · rcases List.mem_append.1 (hranked.perm.subset (List.mem_of_mem_take he)) with he | he
      · exact h.events e he
      · exact (batch.sound hb).events e he
  · rw [recordCommit_events_eq]
    split_ifs
    · exact h.newest
    · exact hranked.sorted.sublist (List.take_sublist _ _)

theorem Collector.Sound.recordStorageFailure (h : c.Sound) (source : Source) {attemptedAt : Instant}
    (hat : ClockReading attemptedAt) (attempted : Option Batch) :
    (c.recordStorageFailure source attemptedAt attempted).Sound := by
  have hvalid := storageFailureStatus_validate attempted hat (h.latest source)
  have hfailure := storageFailureStatus_storageFailure (c.latest source) attemptedAt attempted
  refine ⟨fun s st hst => ?_, fun s st hst => ?_, h.recent, h.events, h.newest⟩
  · rw [Collector.recordStorageFailure] at hst
    by_cases hs : s = source
    · subst hs
      simp only [Function.update_self, Option.mem_def, Option.some.injEq] at hst
      rw [← hst]
      exact hvalid
    · simp only [Function.update_of_ne hs] at hst
      exact h.latest s st hst
  · rw [Collector.recordStorageFailure] at hst
    by_cases hs : s = source
    · subst hs
      simp only [Function.update_self, Option.mem_def, Option.some.injEq] at hst
      rw [← hst]
      exact ⟨hvalid, hfailure⟩
    · simp only [Function.update_of_ne hs] at hst
      exact h.overlays s st hst

/-- The collector of a run is sound. -/
def Collecting.Sound (w : Collecting) : Prop := w.collector.Sound

/-! ## Collections keep the statuses in order -/

/-- The program keeps the collector sound and returns what `post` allows. -/
abbrev KeepsSound {α : Type} (post : α → Prop) (p : CollectorProg α) : Prop :=
  ∀ w : Collecting, w.Sound →
    p.Endures collecting ReadsClock Collecting.Sound (fun w a => w.Sound ∧ post a) w

theorem KeepsSound.ret {post : α → Prop} {a : α} (h : post a) :
    KeepsSound post (pure a) := fun _ hw => ⟨hw, h⟩

theorem KeepsSound.bind {β : Type} {mid : α → Prop} {post : β → Prop} {p : CollectorProg α}
    {f : α → CollectorProg β} (hp : KeepsSound mid p) (hf : ∀ a, mid a → KeepsSound post (f a)) :
    KeepsSound post (p >>= f) :=
  fun w hw => (hp w hw).bind fun w' a h => hf a h.2 w' h.1

theorem keepsSound_ask {c : CollectorCall} {post : c.Answer → Prop}
    (h : ∀ e w, ReadsClock e → w.Sound →
      (collecting c e w).1.Sound ∧ post (collecting c e w).2) :
    KeepsSound post (Prog.ask (I := collectorInterface) c) :=
  fun w hw e he => ⟨(h e w he hw).1, h e w he hw⟩

theorem alive_sound : KeepsSound (fun _ => True) alive := keepsSound_ask fun _ _ _ hw => ⟨hw, trivial⟩

theorem inTime_sound : KeepsSound (fun _ => True) inTime :=
  keepsSound_ask fun _ _ _ hw => ⟨hw, trivial⟩

theorem now_sound : KeepsSound ClockReading now := keepsSound_ask fun _ _ he hw => ⟨hw, he⟩

theorem loadCheckpoint_sound (source : Source) :
    KeepsSound (fun _ => True) (loadCheckpoint source) :=
  keepsSound_ask fun _ _ _ hw => ⟨hw, trivial⟩

theorem readBatch_sound (request : ReadRequest) : KeepsSound (fun _ => True) (readBatch request) :=
  keepsSound_ask fun _ _ _ hw => ⟨hw, trivial⟩

theorem commitBatch_sound (batch : Batch) : KeepsSound (fun _ => True) (commitBatch batch) :=
  keepsSound_ask fun _ _ _ hw => ⟨hw, trivial⟩

theorem recordCommit_sound {batch : Batch} (hb : batch.validate = true) :
    KeepsSound (fun _ => True) (recordCommit batch) :=
  keepsSound_ask fun _ _ _ hw => ⟨Collector.Sound.recordCommit hw hb, trivial⟩

theorem recordStorageFailure_sound (source : Source) {attemptedAt : Instant}
    (hat : ClockReading attemptedAt) (attempted : Option Batch) :
    KeepsSound (fun _ => True) (recordStorageFailure source attemptedAt attempted) :=
  keepsSound_ask fun _ _ _ hw =>
    ⟨Collector.Sound.recordStorageFailure hw source hat attempted, trivial⟩

theorem readerFailureBatch_sound {request : ReadRequest} (hr : request.validate = true) :
    KeepsSound (fun b => b.validate = true) (readerFailureBatch request) := by
  refine now_sound.bind fun finishedAt hf => .ret ?_
  simp only [ReadRequest.validate, Bool.and_eq_true] at hr
  have hq : validateUTC request.queryStartedAt = true := hr.1.1.2
  have hfinished : ∃ t, (if finishedAt < request.queryStartedAt then request.queryStartedAt
      else finishedAt) = t ∧ validateUTC t = true ∧ request.queryStartedAt ≤ t := by
    split_ifs with hlt
    · exact ⟨_, rfl, hq, le_rfl⟩
    · exact ⟨_, rfl, validateUTC_iff.2 hf, not_lt.1 hlt⟩
  obtain ⟨t, ht, hread, hle⟩ := hfinished
  rw [ht]
  cases request.checkpoint.resetPending <;>
    simp [Batch.validate, validateOrderedTimes, hq, hread, hle, Batch.validateNativeState,
      sumDiscards, Batch.validateNormalBatch, Batch.validateResetBatch]

theorem readSource_sound (source : Source) (checkpoint : Checkpoint) :
    KeepsSound (fun b => ∀ batch ∈ b, batch.validate = true) (readSource source checkpoint) := by
  refine now_sound.bind fun queryStartedAt hq => ?_
  dsimp only
  split_ifs with hrequest
  · refine alive_sound.bind fun alive _ => ?_
    cases alive with
    | true => exact (recordStorageFailure_sound source hq none).bind fun _ _ => .ret (by simp)
    | false => exact .ret (by simp)
  · refine (readBatch_sound _).bind fun batch _ => alive_sound.bind fun alive _ => ?_
    split_ifs
    · exact .ret (by simp)
    · cases hfilter : batch.filter (validBatchForRequest · ⟨source, checkpoint, queryStartedAt⟩) with
      | some b =>
        refine .ret fun b' hb' => ?_
        obtain rfl := Option.some.inj hb'
        have hvalid := (Option.mem_filter_iff.1 hfilter).2
        rw [validBatchForRequest] at hvalid
        split_ifs at hvalid with hbad <;> simp_all
      | none =>
        refine (readerFailureBatch_sound (by simpa using hrequest)).bind fun b hb => .ret ?_
        simpa using hb

theorem commitConfirmed_sound (source : Source) (batch : Batch) :
    KeepsSound (fun _ => True) (commitConfirmed source batch) := by
  have hreload : KeepsSound (fun _ => True) (reloadAfterRetry source batch) := by
    refine inTime_sound.bind fun inTime _ => ?_
    split_ifs
    · exact .ret trivial
    · exact (loadCheckpoint_sound source).bind fun _ _ => .ret trivial
  have hretry : KeepsSound (fun _ => True) (retryCommit source batch) := by
    refine (commitBatch_sound batch).bind fun answer _ => ?_
    cases answer with
    | committed => exact inTime_sound
    | revisionConflict => exact .ret trivial
    | failed => exact hreload
  refine inTime_sound.bind fun inTime _ => ?_
  split_ifs
  · exact .ret trivial
  · refine (commitBatch_sound batch).bind fun answer _ => ?_
    cases answer with
    | committed => exact inTime_sound
    | revisionConflict => exact .ret trivial
    | failed =>
      refine inTime_sound.bind fun inTime _ => ?_
      split_ifs
      · exact .ret trivial
      · refine (loadCheckpoint_sound source).bind fun checkpoint _ => ?_
        cases checkpoint.filter Checkpoint.validate with
        | none => exact .ret trivial
        | some checkpoint =>
          dsimp only
          split_ifs
          · exact .ret trivial
          · exact .ret trivial
          · exact hretry

theorem prepareSources_sound (sources : List Source) :
    KeepsSound (fun _ => True) (prepareSources sources) := by
  induction sources with
  | nil => exact .ret trivial
  | cons source sources ih =>
    refine alive_sound.bind fun alive _ => ?_
    split_ifs
    · exact .ret trivial
    · refine (loadCheckpoint_sound source).bind fun checkpoint _ => ?_
      dsimp only
      split_ifs
      · refine alive_sound.bind fun alive _ => ?_
        cases alive with
        | true =>
          refine now_sound.bind fun t ht => ?_
          exact (recordStorageFailure_sound source ht none).bind fun _ _ =>
            ih.bind fun _ _ => .ret trivial
        | false => exact ih.bind fun _ _ => .ret trivial
      · exact ih.bind fun _ _ => .ret trivial

theorem readSources_sound (prepared : List (Source × Option Checkpoint)) :
    KeepsSound (fun r => ∀ results ∈ r, ∀ p ∈ results, p.2.validate = true)
      (readSources prepared) := by
  induction prepared with
  | nil => exact .ret (by simp)
  | cons p prepared ih =>
    obtain ⟨source, checkpoint⟩ := p
    refine alive_sound.bind fun alive _ => ?_
    split_ifs
    · exact .ret (by simp)
    · cases checkpoint with
      | none => exact ih
      | some checkpoint =>
        refine (readSource_sound source checkpoint).bind fun batch hbatch => ?_
        cases batch with
        | some batch =>
          refine ih.bind fun results hresults => .ret ?_
          rintro _ hr
          obtain ⟨results', hm, rfl⟩ := Option.map_eq_some_iff.1 hr
          exact List.forall_mem_cons.2 ⟨hbatch batch rfl, hresults results' hm⟩
        | none =>
          refine alive_sound.bind fun alive _ => ?_
          split_ifs
          · exact .ret (by simp)
          · exact ih

theorem commitBatches_sound (results : List (Source × Batch))
    (h : ∀ p ∈ results, p.2.validate = true) :
    KeepsSound (fun _ => True) (commitBatches results) := by
  induction results with
  | nil => exact .ret trivial
  | cons p results ih =>
    obtain ⟨source, batch⟩ := p
    have hb : batch.validate = true := h (source, batch) (List.mem_cons_self ..)
    have hrest := ih fun p hp => h p (List.mem_cons_of_mem _ hp)
    refine alive_sound.bind fun alive _ => ?_
    split_ifs
    · exact .ret trivial
    · refine (commitConfirmed_sound source batch).bind fun confirmed _ => ?_
      cases confirmed with
      | true => exact (recordCommit_sound hb).bind fun _ _ => hrest
      | false =>
        refine alive_sound.bind fun alive _ => ?_
        cases alive with
        | true =>
          exact (recordStorageFailure_sound source (batch.sound hb).started (some batch)).bind
            fun _ _ => hrest
        | false => exact hrest

theorem collectOnce_sound (sources : List Source) :
    KeepsSound (fun _ => True) (collectOnce sources) := by
  rw [collectOnce]
  split_ifs
  · exact .ret trivial
  · refine (prepareSources_sound sources).bind fun prepared _ => ?_
    cases prepared with
    | none => exact .ret trivial
    | some prepared =>
      refine (readSources_sound prepared).bind fun results hresults => ?_
      cases results with
      | none => exact .ret trivial
      | some results => exact commitBatches_sound results (hresults results rfl)

theorem collect_sound (sources : List Source) (n : ℕ) :
    KeepsSound (fun _ => True) (collect sources n) := by
  induction n with
  | zero => exact .ret trivial
  | succ n ih => exact (collectOnce_sound sources).bind fun _ _ => ih

/-! ## What a sound collector shows -/

theorem pairwise_zip_tail {r : α → α → Prop} {l : List α} (h : l.Pairwise r) :
    ∀ p ∈ l.zip l.tail, r p.1 p.2 := by
  induction l with
  | nil => simp
  | cons a l ih =>
    cases l with
    | nil => simp
    | cons b l =>
      intro p hp
      rw [List.tail_cons, List.zip_cons_cons] at hp
      rcases List.mem_cons.1 hp with rfl | hp
      · exact (List.pairwise_cons.1 h).1 b (by simp)
      · exact ih h.tail p hp

theorem Collector.Sound.aggregate (h : c.Sound) {sources : List Source}
    (hsources : validSources sources = true) :
    ∃ s, aggregateStatus (c.statuses sources) = some s ∧ s.validate = true := by
  refine aggregateStatus_validate ?_ fun s hs => ?_
  · simp only [validSources, Bool.and_eq_true, Bool.not_eq_true', decide_eq_false_iff_not] at hsources
    rw [Collector.statuses, List.length_map]
    exact not_lt.1 hsources.1
  · obtain ⟨source, -, rfl⟩ := List.mem_map.1 hs
    cases hl : c.latest source with
    | none => decide
    | some s => exact h.latest source s hl

theorem Collector.Sound.current (h : c.Sound) {sources : List Source}
    (hsources : validSources sources = true) : (c.current sources).validate = true := by
  obtain ⟨s, hs, hvalid⟩ := h.aggregate hsources
  have hnewest : ((c.events.zip c.events.tail).all
      fun p => decide (p.2.observedAt ≤ p.1.observedAt)) = true :=
    List.all_eq_true.2 fun p hp => decide_eq_true (pairwise_zip_tail h.newest p hp)
  simp only [Collector.current, Snapshot.validate, hs, Option.getD_some, hvalid, hnewest,
    Bool.and_eq_true, decide_eq_true_eq, and_true, true_and]
  exact ⟨h.recent, List.all_eq_true.2 h.events⟩

/-- The overlay changes the status of a source summary only. -/
theorem Collector.Sound.overlaySource (h : c.Sound) {s : SourceSummary} {query : SummaryQuery}
    (hs : validateSourceSummary s query = true) :
    validateSourceSummary (c.overlaySource s) query = true ∧
      (c.overlaySource s).source = s.source ∧ (c.overlaySource s).counts = s.counts := by
  rw [Collector.overlaySource]
  cases ho : c.overlays s.source with
  | none => exact ⟨hs, rfl, rfl⟩
  | some overlay =>
    dsimp only
    split_ifs with hafter
    · refine ⟨?_, rfl, rfl⟩
      simp only [validateSourceSummary, Bool.and_eq_true] at hs ⊢
      obtain ⟨hvalid, hfailure⟩ := h.overlays s.source overlay ho
      obtain ⟨hmerged, hmergedFailure⟩ :=
        mergeStorageOverlay_validate hs.1.1 hvalid hfailure hafter
      exact ⟨⟨hmerged, hmergedFailure.source⟩, hs.2⟩
    · exact ⟨hs, rfl, rfl⟩

theorem Collector.Sound.overlaySources (h : c.Sound) {query : SummaryQuery}
    {sources : List SourceSummary} {previous : Option ℕ} {captured discarded : ℕ}
    (hs : validateSources query sources previous captured discarded = true) :
    validateSources query (sources.map c.overlaySource) previous captured discarded = true := by
  induction sources generalizing previous captured discarded with
  | nil => rfl
  | cons s sources ih =>
    rw [validateSources, Bool.and_eq_true, Bool.and_eq_true] at hs
    obtain ⟨hvalid, hsource, hcounts⟩ := h.overlaySource hs.1.2
    rw [List.map_cons, validateSources, hsource, hcounts, Bool.and_eq_true, Bool.and_eq_true]
    refine ⟨⟨hs.1.1, hvalid⟩, ?_⟩
    have hrest := hs.2
    cases hc : s.counts with
    | none =>
      rw [hc] at hrest
      exact ih hrest
    | some counts =>
      rw [hc] at hrest
      cases hcaptured : addSafe captured counts.captured <;>
        cases hdiscarded : addSafe discarded counts.discarded <;>
        simp only [hcaptured, hdiscarded] at hrest ⊢ <;> first | cases hrest | exact ih hrest

theorem Collector.Sound.overlaySummary (h : c.Sound) {s : Summary} (hs : s.validate = true) :
    (c.overlaySummary s).validate = true := by
  simp only [Summary.validate, Bool.and_eq_true, decide_eq_true_eq] at hs ⊢
  refine ⟨⟨hs.1.1, ?_⟩, h.overlaySources hs.2⟩
  rw [Collector.overlaySummary, List.length_map]
  exact hs.1.2

/-- A valid summary of the request is shown with its overlays. -/
theorem Collector.Sound.summary (h : c.Sound) {sources : List Source} {query : SummaryQuery}
    {s : Summary} (hquery : query.validate = true) (hs : s.validate = true)
    (hmatches : summaryMatchesRequest s query sources = true) :
    c.summary sources query (some s) = some (c.overlaySummary s) := by
  simp only [Collector.summary, hquery, hs, hmatches, h.overlaySummary hs, Bool.not_true,
    Bool.or_self, Bool.false_eq_true, if_false, if_true]
  -- without sources the summary is that of the query, and has nothing to overlay
  split_ifs with hlength
  · simp only [summaryMatchesRequest, Bool.and_eq_true, decide_eq_true_eq] at hmatches
    obtain ⟨rfl, rfl⟩ := hmatches
    rw [List.length_map, List.length_eq_zero_iff] at hlength
    rw [Collector.overlaySummary, hlength, List.map_nil]
  · rfl

/-- **The state of a collector always validates**, at every point of every run with a
    clock that reads non-zero instants of the years 1 to 9999: its statuses, the
    snapshot it shows, which is never the fallback, and every valid summary with
    its overlays, which is shown whenever it is what was asked for. -/
theorem collector_stays_valid (sources : List Source) (hsources : validSources sources = true)
    (n : ℕ) (es : List CollectorAnswers) (hes : ∀ e ∈ es, ReadsClock e) :
    (∀ source, ∀ s, (((collect sources n).exec collecting Collecting.start es).1.collector.latest
        source = some s ∨ ((collect sources n).exec collecting Collecting.start
          es).1.collector.overlays source = some s) → s.validate = true) ∧
    (((collect sources n).exec collecting Collecting.start es).1.collector.current
        sources).validate = true ∧
    aggregateStatus (((collect sources n).exec collecting Collecting.start
        es).1.collector.statuses sources) ≠ none ∧
    ∀ summary : Summary, summary.validate = true →
      (((collect sources n).exec collecting Collecting.start es).1.collector.overlaySummary
        summary).validate = true ∧
      ∀ query : SummaryQuery, query.validate = true →
        summaryMatchesRequest summary query sources = true →
        ((collect sources n).exec collecting Collecting.start es).1.collector.summary sources
            query (some summary) =
          some (((collect sources n).exec collecting Collecting.start
            es).1.collector.overlaySummary summary) := by
  have hsound : ((collect sources n).exec collecting Collecting.start es).1.collector.Sound :=
    ((collect_sound sources n Collecting.start Collector.sound_init).exec Collector.sound_init es
      hes).1
  refine ⟨fun source s hs => ?_, hsound.current hsources, ?_, fun s hs =>
    ⟨hsound.overlaySummary hs, fun query hquery hmatches => hsound.summary hquery hs hmatches⟩⟩
  · rcases hs with hs | hs
    · exact hsound.latest source s hs
    · exact (hsound.overlays source s hs).1
  · obtain ⟨s, hs, -⟩ := hsound.aggregate hsources
    rw [hs]
    simp

/-- Nothing can be loaded, and the clock reads `t`. -/
def unloaded (t : Instant) : CollectorAnswers
  | .alive => true
  | .inTime => true
  | .loadCheckpoint _ => none
  | .now => t
  | .read _ => none
  | .commitBatch _ => .failed
  | .recordCommit _ => ()
  | .recordStorageFailure .. => ()

/-- Every source has one event, every commit succeeds, and the clock reads `t`. -/
def served (t : Instant) : CollectorAnswers
  | .alive => true
  | .inTime => true
  | .loadCheckpoint _ => some ⟨0, false, [], none, none⟩
  | .now => t
  | .read request => some {
      kind := .normal
      source := request.source
      expectedRevision := request.checkpoint.revision
      queryStartedAt := request.queryStartedAt
      startedAt := request.queryStartedAt
      finishedAt := request.queryStartedAt
      supportState := .supported
      collectionState := .ok
      reasonCode := none
      events := [⟨request.queryStartedAt, request.source, .error, ascii "SYSTEMD_PRIORITY_3"⟩]
      discards := []
      examinedCount := 1
      probeCount := 0
      discardedCount := 0
      deferred := false
      caughtUp := true
      nextOpaque := [1] }
  | .commitBatch _ => .committed
  | .recordCommit _ => ()
  | .recordStorageFailure .. => ()

/-- Two collections, the second with an earlier clock, and a third that cannot load. -/
def steppedBack : Collecting :=
  ((collect [.system] 3).exec collecting Collecting.start
    (List.replicate 11 (served (2 * second)) ++ List.replicate 11 (served second) ++
      List.replicate 8 (unloaded second))).1

theorem steppedBack_stays_valid :
    steppedBack.committed.map (·.queryStartedAt) = [2 * second, second] ∧
    (steppedBack.collector.overlays .system).isSome = true ∧
    (steppedBack.collector.current [.system]).validate = true := by
  have hreads : ∀ e ∈ List.replicate 11 (served (2 * second)) ++
      List.replicate 11 (served second) ++ List.replicate 8 (unloaded second), ReadsClock e := by
    simp only [List.mem_append, List.mem_replicate]
    rintro e ((⟨-, rfl⟩ | ⟨-, rfl⟩) | ⟨-, rfl⟩) <;> exact validateUTC_iff.1 (by decide)
  exact ⟨by decide, by decide, (collector_stays_valid [.system] (by decide) 3 _ hreads).2.1⟩

/-- A failure at the zero instant, which is of year 1, leaves a status that is not in
    order, and the fallback is shown. -/
theorem zero_clock_breaks_status :
    year 0 = 1 ∧
    (((collect [.system] 1).exec collecting Collecting.start
      (List.replicate 8 (unloaded 0))).1.collector.latest .system).any (!·.validate) = true ∧
    aggregateStatus (((collect [.system] 1).exec collecting Collecting.start
      (List.replicate 8 (unloaded 0))).1.collector.statuses [.system]) = none := by
  decide

end LogObs

end HomeLab
