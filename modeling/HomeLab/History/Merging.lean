/-
  The merge as pointwise precedence.

  A gap takes precedence over positive proof, and among gaps the lowest
  historical rank does (`Outranks`).  The merge keeps, at every instant of its
  window, the reason that outranks those of all segments there
  (`mergeLogCoverage_pointwise`), and its result is the only coalesced list that
  does, whatever the order of the additions (`Merged.unique`).
-/
import HomeLab.History.Coverage

namespace HomeLab

namespace History

open LogObs Segment

/-! ## Precedence -/

/-- The first reason takes precedence over the second, or is as strong. -/
def Outranks : Reason → Reason → Prop
  | _, none => True
  | none, some _ => False
  | some r, some q => (historicalReasonRank r).getD 0 ≤ (historicalReasonRank q).getD 0

theorem rank_injective {r q : ReasonCode} (hr : (historicalReasonRank r).isSome = true)
    (hq : (historicalReasonRank q).isSome = true)
    (h : (historicalReasonRank r).getD 0 = (historicalReasonRank q).getD 0) : r = q := by
  cases r <;> cases hr <;> cases q <;> cases hq <;> first | rfl | exact absurd h (by decide)

theorem Outranks.refl (r : Reason) : Outranks r r := by
  cases r with
  | none => trivial
  | some r => exact le_rfl

variable {q r : Reason} {t : Instant} {l result : List LogCoverageSegment} {rs : List Reason}

theorem Outranks.trans {p : Reason} (h : Outranks p q) (h' : Outranks q r) : Outranks p r := by
  cases p <;> cases q <;> cases r <;> first | trivial | exact absurd h id | exact absurd h' id |
    exact Nat.le_trans h h'

theorem Outranks.antisymm (hr : validReason r = true) (hq : validReason q = true) (h : Outranks r q)
    (h' : Outranks q r) : r = q := by
  cases r with
  | none =>
    cases q with
    | none => rfl
    | some q => exact h.elim
  | some r =>
    cases q with
    | none => exact h'.elim
    | some q =>
      simp only [validReason, Bool.and_eq_true] at hr hq
      rw [rank_injective hr.1 hq.1 (Nat.le_antisymm h h')]

theorem outranks_of_stronger (h : strongerLogReason r q = true) : Outranks r q := by
  cases r with
  | none => cases h
  | some r =>
    cases q with
    | none => trivial
    | some q => exact (of_decide_eq_true h).le

theorem outranks_of_not_stronger (h : strongerLogReason r q = false) :
    Outranks q r := by
  cases r with
  | none => cases q <;> trivial
  | some r =>
    cases q with
    | none => cases h
    | some q => exact not_lt.1 (of_decide_eq_false h)

/-! ## The strongest reason at an instant -/

/-- The reasons of the segments that contain an instant. -/
def reasonsAt (l : List LogCoverageSegment) (t : Instant) : List Reason :=
  (l.filter fun s => s.Contains t).map label

/-- One of the reasons outranks all of them; there is none only if there is no reason. -/
def Prevailing (rs : List Reason) : Option Reason → Prop
  | none => rs = []
  | some r => r ∈ rs ∧ ∀ q ∈ rs, Outranks r q

theorem mem_reasonsAt :
    r ∈ reasonsAt l t ↔ ∃ s ∈ l, s.Contains t ∧ s.label = r := by
  simp only [reasonsAt, List.mem_map, List.mem_filter, decide_eq_true_eq, and_assoc]

/-- One more reason, if there is one. -/
theorem Prevailing.overlay {known : Option Reason} (h : Prevailing rs known) (added : Option Reason) :
    Prevailing (rs ++ added.toList) (overlay known added) := by
  cases added with
  | none =>
    rw [Option.toList_none, List.append_nil]
    cases known <;> exact h
  | some added =>
    cases known with
    | none =>
      obtain rfl : rs = [] := h
      exact ⟨by simp, by simp [Outranks.refl]⟩
    | some r =>
      obtain ⟨hmem, hall⟩ := h
      rw [History.overlay]
      split_ifs with hstronger
      · have hle := outranks_of_stronger hstronger
        exact ⟨by simp, List.forall_mem_append.2
          ⟨fun q hq => hle.trans (hall q hq), by simp [Outranks.refl]⟩⟩
      · have hle := outranks_of_not_stronger (Bool.not_eq_true _ ▸ hstronger)
        exact ⟨by simp [hmem], List.forall_mem_append.2 ⟨hall, by simpa using hle⟩⟩

/-- Laying reasons one after the other keeps the strongest of them. -/
theorem Prevailing.foldl {α : Type} {known : Option Reason} (h : Prevailing rs known)
    (reason : α → Option Reason) (as : List α) :
    Prevailing (rs ++ as.filterMap reason)
      (as.foldl (fun known a => History.overlay known (reason a)) known) := by
  induction as generalizing rs known with
  | nil => simpa using h
  | cons a as ih =>
    have hsplit : (a :: as).filterMap reason = (reason a).toList ++ as.filterMap reason := by
      cases ha : reason a <;> simp [ha]
    rw [List.foldl_cons, hsplit, ← List.append_assoc]
    exact ih (h.overlay (reason a))

theorem filterMap_lookup (l : List LogCoverageSegment) (t : Instant) :
    l.filterMap (fun s => lookup [s] t) = reasonsAt l t := by
  simp only [lookup_singleton, reasonsAt]
  induction l with
  | nil => rfl
  | cons s l ih => by_cases hs : s.Contains t <;> simp [hs, ih]

theorem prevailing_lookup (h : Ordered l) (t : Instant) :
    Prevailing (reasonsAt l t) (lookup l t) := by
  cases hl : lookup l t with
  | none =>
    rw [Prevailing, List.eq_nil_iff_forall_not_mem]
    intro r hr
    obtain ⟨s, hs, ht, -⟩ := mem_reasonsAt.1 hr
    exact lookup_eq_none.1 hl s hs ht
  | some r =>
    obtain ⟨s, hs, ht, rfl⟩ := exists_of_lookup hl
    refine ⟨mem_reasonsAt.2 ⟨s, hs, ht, rfl⟩, fun q hq => ?_⟩
    obtain ⟨s', hs', ht', rfl⟩ := mem_reasonsAt.1 hq
    rw [h.unique hs' hs ht' ht]
    exact .refl _

theorem Prevailing.unique {rs' : List Reason} {o o' : Option Reason} (h : Prevailing rs o)
    (h' : Prevailing rs' o') (hmem : ∀ r, r ∈ rs ↔ r ∈ rs')
    (hvalid : ∀ r ∈ rs, validReason r = true) : o = o' := by
  cases o with
  | none =>
    cases o' with
    | none => rfl
    | some r' =>
      have hr := (hmem r').2 h'.1
      rw [show rs = [] from h] at hr
      exact absurd hr List.not_mem_nil
  | some r =>
    cases o' with
    | none =>
      have hr := (hmem r).1 h.1
      rw [show rs' = [] from h'] at hr
      exact absurd hr List.not_mem_nil
    | some r' =>
      have hr' := (hmem r').2 h'.1
      rw [Outranks.antisymm (hvalid r h.1) (hvalid r' hr') (h.2 r' hr') (h'.2 r ((hmem r).1 h.1))]

/-! ## The merge is coalesced -/

theorem sweep_coalesced {addition : LogCoverageSegment} {bounds : List Instant}
    {rest merged : List LogCoverageSegment} (h : Coalesced merged) :
    Coalesced (sweep addition bounds rest merged) := by
  fun_induction sweep addition bounds rest merged with
  | case1 left right bounds rest merged hle ih => exact ih h
  | case2 left right bounds rest merged hlt rest' ih =>
    refine ih ?_
    split
    · exact h.push
    · exact h
  | case3 bounds rest merged => exact h

theorem clipLogCoverage_coalesced {floor stop : Instant} {previous : Option Instant}
    {old current : List LogCoverageSegment} (h : Coalesced current)
    (hok : clipLogCoverage floor stop previous old current = .ok result) : Coalesced result := by
  induction old generalizing previous current with
  | nil =>
    cases hok
    exact h
  | cons s old ih =>
    rw [clipLogCoverage] at hok
    split_ifs at hok
    refine ih ?_ hok
    split_ifs
    · exact h.push
    · exact h

theorem layLogCoverage_coalesced {floor stop : Instant}
    {additions current : List LogCoverageSegment} (h : Coalesced current)
    (hok : layLogCoverage floor stop additions current = .ok result) : Coalesced result := by
  induction additions generalizing current with
  | nil =>
    cases hok
    exact h
  | cons a additions ih =>
    rw [layLogCoverage] at hok
    split_ifs at hok
    refine ih ?_ hok
    split_ifs
    · exact sweep_coalesced List.IsChain.nil
    · exact h

theorem mergeLogCoverage_coalesced {floor stop : Instant} {old additions : List LogCoverageSegment}
    (hok : mergeLogCoverage old additions floor stop = .ok result) : Coalesced result := by
  rw [mergeLogCoverage] at hok
  split_ifs at hok
  obtain ⟨current, hc, hr⟩ := bind_eq_ok.1 hok
  exact layLogCoverage_coalesced (clipLogCoverage_coalesced List.IsChain.nil hc) hr

/-! ## The merge as a whole -/

section
variable {floor stop : Instant} {old additions : List LogCoverageSegment}

/-- What a merge of valid evidence is. -/
structure Merged (old additions : List LogCoverageSegment) (floor stop : Instant)
    (result : List LogCoverageSegment) : Prop where
  window : InWindow floor stop result
  coalesced : Coalesced result
  strongest : ∀ t, floor ≤ t → t < stop →
    Prevailing (reasonsAt (old ++ additions) t) (lookup result t)

theorem reasonsAt_append (l l' : List LogCoverageSegment) (t : Instant) :
    reasonsAt (l ++ l') t = reasonsAt l t ++ reasonsAt l' t := by
  simp [reasonsAt]

/-- **The merge is pointwise precedence**, for additions in any order. -/
theorem mergeLogCoverage_pointwise (hfloor : ClockReading floor) (hstop : ClockReading stop)
    (hlt : floor < stop) (hspan : stop - floor ≤ logRetention)
    (hold : Ordered old) (holdv : ∀ s ∈ old, validLogSegment s = true)
    (haddv : ∀ s ∈ additions, validLogSegment s = true)
    (hlen : additions.length ≤ maxCoverageSegmentsPerCommit) :
    ∃ result, mergeLogCoverage old additions floor stop = .ok result ∧
      Merged old additions floor stop result := by
  obtain ⟨result, hok, hwin, hl⟩ :=
    mergeLogCoverage_spec hfloor hstop hlt hspan hold holdv haddv hlen
  refine ⟨result, hok, hwin, mergeLogCoverage_coalesced hok, fun t h1 h2 => ?_⟩
  rw [hl t h1 h2, reasonsAt_append, ← filterMap_lookup additions]
  exact (prevailing_lookup hold t).foldl _ additions

theorem validReason_of_mem (h : ∀ s ∈ l, validLogSegment s = true) (hr : r ∈ reasonsAt l t) :
    validReason r = true := by
  obtain ⟨s, hs, -, rfl⟩ := mem_reasonsAt.1 hr
  exact (validLogSegment_iff.1 (h s hs)).2.2.2

theorem Merged.unique {additions' result' : List LogCoverageSegment}
    (h : Merged old additions floor stop result) (h' : Merged old additions' floor stop result')
    (hmem : ∀ s, s ∈ additions ↔ s ∈ additions')
    (hvalid : ∀ s ∈ old ++ additions, validLogSegment s = true) : result = result' := by
  refine h.window.ordered.eq_of_lookup h.coalesced h'.window.ordered h'.coalesced fun t => ?_
  have hout : ∀ {l : List LogCoverageSegment}, InWindow floor stop l → ¬(floor ≤ t ∧ t < stop) →
      lookup l t = none := fun hl ht => lookup_eq_none.2 fun s hs hc =>
    ht ⟨(hl.within s hs).1.trans hc.1, hc.2.trans_le (hl.within s hs).2.1⟩
  by_cases ht : floor ≤ t ∧ t < stop
  · refine (h.strongest t ht.1 ht.2).unique (h'.strongest t ht.1 ht.2) (fun r => ?_)
      fun r hr => validReason_of_mem hvalid hr
    simp only [mem_reasonsAt, List.mem_append, hmem]
  · rw [hout h.window ht, hout h'.window ht]

theorem Merged.covered_iff (h : Merged old additions floor stop result) (h1 : floor ≤ t)
    (h2 : t < stop) :
    (∃ s ∈ result, s.Contains t) ↔ ∃ s ∈ old ++ additions, s.Contains t := by
  have hp := h.strongest t h1 h2
  cases hl : lookup result t with
  | none =>
    rw [hl] at hp
    constructor
    · rintro ⟨s, hs, ht⟩
      exact absurd ht (lookup_eq_none.1 hl s hs)
    · rintro ⟨s, hs, ht⟩
      have hmem := mem_reasonsAt.2 ⟨s, hs, ht, rfl⟩
      rw [show reasonsAt (old ++ additions) t = [] from hp] at hmem
      exact absurd hmem List.not_mem_nil
  | some r =>
    rw [hl] at hp
    obtain ⟨s, hs, ht, -⟩ := exists_of_lookup hl
    obtain ⟨s', hs', ht', -⟩ := mem_reasonsAt.1 hp.1
    exact iff_of_true ⟨s, hs, ht⟩ ⟨s', hs', ht'⟩

/-- The reason of a merge at an instant outranks all reasons there, and only itself
    outranks it. -/
theorem Merged.reason (h : Merged old additions floor stop result)
    (hvalid : ∀ s ∈ old ++ additions, validLogSegment s = true) (h1 : floor ≤ t) (h2 : t < stop)
    {s : LogCoverageSegment} (hs : s ∈ result) (ht : s.Contains t) :
    s.label ∈ reasonsAt (old ++ additions) t ∧
      ∀ q ∈ reasonsAt (old ++ additions) t,
        Outranks s.label q ∧ (Outranks q s.label → q = s.label) := by
  have hp := h.strongest t h1 h2
  rw [h.window.ordered.lookup_eq hs ht] at hp
  refine ⟨hp.1, fun q hq => ⟨hp.2 q hq, fun hle => ?_⟩⟩
  exact Outranks.antisymm (validReason_of_mem hvalid hq) (validReason_of_mem hvalid hp.1) hle
    (hp.2 q hq)

end

end History

end HomeLab
