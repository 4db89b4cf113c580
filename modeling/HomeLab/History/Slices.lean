/-
  The merge on slices.

  The source merges slices, whose arrays are written in place: `mergeSlices` is
  the merge with its reads and writes of arrays.  It computes the list that
  `mergeLogCoverage` computes and writes only arrays that it allocated itself
  (`mergeSlices_spec`), so the slices of its caller stay as they are.
-/
import HomeLab.Lib.Arrays
import HomeLab.History.Merging

namespace HomeLab

namespace History

open LogObs Segment

/-! ## The loops -/

section
variable (full : ℕ → Bool)

/-- `appendLogSegment`: extend the last segment in place, or append. -/
def appendSlice (m : Arrays LogCoverageSegment) (out : Option ℕ) (s : LogCoverageSegment) :
    Arrays LogCoverageSegment × Option ℕ :=
  match (m.contents out).getLast? with
  | some last =>
    if last.stop = s.start ∧ last.label = s.label then
      (m.setLast out { last with stop := s.stop }, out)
    else m.append full out s
  | none => m.append full out s

/-- The loop over `old` from index `i`, with `n` segments to go. -/
def clipSlices (floor stop : Instant) (old : Option ℕ) :
    ℕ → ℕ → Arrays LogCoverageSegment → Option ℕ →
      Except LogError (Arrays LogCoverageSegment × Option ℕ)
  | 0, _, m, current => .ok (m, current)
  | n + 1, i, m, current =>
    match (m.contents old)[i]? with
    | none => .error .coverage
    | some s =>
      if !validLogSegment s ||
          (0 < i && ((m.contents old)[i - 1]?).any fun p => s.start < p.stop) then .error .coverage
      else
        let clipped := s.clip floor stop
        let r := if clipped.start < clipped.stop then appendSlice full m current clipped
          else (m, current)
        clipSlices floor stop old n (i + 1) r.1 r.2

/-- The pass over the bounds; `position` is an index of `current`. -/
def sweepSlices (addition : LogCoverageSegment) (current : Option ℕ) :
    List Instant → ℕ → Arrays LogCoverageSegment → Option ℕ →
      Arrays LogCoverageSegment × Option ℕ
  | left :: right :: bounds, position, m, merged =>
    if !(left < right) then sweepSlices addition current (right :: bounds) position m merged
    else
      let rest := (m.contents current).drop position
      let position := position + (rest.takeWhile fun s => s.stop ≤ left).length
      let r := match chosenReason addition left ((m.contents current).drop position) with
        | some reason => appendSlice full m merged ⟨left, right, reason⟩
        | none => (m, merged)
      sweepSlices addition current (right :: bounds) position r.1 r.2
  | _, _, m, merged => (m, merged)

/-- The loop over `additions` from index `i`, with `n` segments to go. -/
def laySlices (floor stop : Instant) (additions : Option ℕ) :
    ℕ → ℕ → Arrays LogCoverageSegment → Option ℕ →
      Except LogError (Arrays LogCoverageSegment × Option ℕ)
  | 0, _, m, current => .ok (m, current)
  | n + 1, i, m, current =>
    match (m.contents additions)[i]? with
    | none => .error .coverage
    | some a =>
      if !validLogSegment a then .error .coverage
      else
        let clipped := a.clip floor stop
        let r := if clipped.start < clipped.stop then
            sweepSlices full clipped current (segmentBounds (m.contents current) clipped) 0 m none
          else (m, current)
        laySlices floor stop additions n (i + 1) r.1 r.2

def mergeSlices (m : Arrays LogCoverageSegment) (old additions : Option ℕ) (floor stop : Instant) :
    Except LogError (Arrays LogCoverageSegment × Option ℕ) :=
  if !validLogTime floor || !validLogTime stop || !(floor < stop) ||
      logRetention < timeSub stop floor ||
      maxCoverageSegmentsPerCommit < (m.contents additions).length then
    .error .coverage
  else do
    let (m, current) ← clipSlices full floor stop old (m.contents old).length 0 m none
    laySlices full floor stop additions (m.contents additions).length 0 m current

end

/-! ## What the loops compute -/

variable (full : ℕ → Bool) {m₀ m : Arrays LogCoverageSegment} {floor stop : Instant}

theorem appendSlice_spec {out : Option ℕ} {l : List LogCoverageSegment}
    (h : Arrays.Owned m₀ m out l) (s : LogCoverageSegment) :
    Arrays.Owned m₀ (appendSlice full m out s).1 (appendSlice full m out s).2 (push l s) := by
  rw [appendSlice, push, h.elements]
  cases hlast : l.getLast? with
  | none => exact h.append full s
  | some last =>
    dsimp only
    split_ifs
    · exact h.setLast (fun hnil => by simp [hnil] at hlast) _
    · exact h.append full s

/-- The loop over `old` clips the segments from index `i` on. -/
theorem clipSlices_spec {old current : Option ℕ} {done rest cur result : List LogCoverageSegment}
    (h : Arrays.Owned m₀ m current cur) (hold : ∀ a ∈ old, a < m₀.length)
    (helements : m₀.contents old = done ++ rest)
    (hok : clipLogCoverage floor stop (done.getLast?.map Segment.stop) rest cur = .ok result) :
    ∃ m' out, clipSlices full floor stop old rest.length done.length m current = .ok (m', out) ∧
      Arrays.Owned m₀ m' out result := by
  induction rest generalizing done cur m current with
  | nil =>
    cases hok
    exact ⟨m, current, rfl, h⟩
  | cons s rest ih =>
    have hread : m.contents old = done ++ s :: rest := (h.contents hold).trans helements
    have hprevious : (decide (0 < done.length) &&
        ((done ++ s :: rest)[done.length - 1]?).any fun p => decide (s.start < p.stop)) =
        (done.getLast?.map Segment.stop).any fun p => decide (s.start < p) := by
      cases done using List.reverseRecOn with
      | nil => rfl
      | append_singleton done last => simp
    rw [clipLogCoverage] at hok
    split_ifs at hok with hcheck
    have hnext : Arrays.Owned m₀
        (if (s.clip floor stop).start < (s.clip floor stop).stop then
          appendSlice full m current (s.clip floor stop) else (m, current)).1
        (if (s.clip floor stop).start < (s.clip floor stop).stop then
          appendSlice full m current (s.clip floor stop) else (m, current)).2
        (if (s.clip floor stop).start < (s.clip floor stop).stop then
          push cur (s.clip floor stop) else cur) := by
      split_ifs
      · exact appendSlice_spec full h _
      · exact h
    have hsplit : m₀.contents old = (done ++ [s]) ++ rest := by simpa using helements
    obtain ⟨m', out, hrun, howned⟩ := ih hnext hsplit (by simpa using hok)
    refine ⟨m', out, ?_, howned⟩
    rw [List.length_cons, clipSlices, hread, List.getElem?_append_right le_rfl, Nat.sub_self,
      List.getElem?_cons_zero]
    dsimp only
    rw [hprevious, if_neg hcheck]
    simpa using hrun

theorem dropWhile_eq_drop {α : Type} (p : α → Bool) (l : List α) (n : ℕ) :
    (l.drop n).dropWhile p = l.drop (n + ((l.drop n).takeWhile p).length) := by
  rw [← List.drop_drop]
  generalize l.drop n = rest
  have hsplit := congrArg (List.drop (rest.takeWhile p).length)
    (List.takeWhile_append_dropWhile (p := p) (l := rest))
  rwa [List.drop_left] at hsplit

/-- The pass over the bounds lays an addition over `current`. -/
theorem sweepSlices_spec {addition : LogCoverageSegment} {bounds : List Instant}
    {current merged : Option ℕ} {cur mer : List LogCoverageSegment} (position : ℕ)
    (h : Arrays.Owned m₀ m merged mer) (hcurrent : ∀ a ∈ current, a < m₀.length)
    (helements : m₀.contents current = cur) :
    Arrays.Owned m₀ (sweepSlices full addition current bounds position m merged).1
      (sweepSlices full addition current bounds position m merged).2
      (sweep addition bounds (cur.drop position) mer) := by
  induction bounds generalizing position m merged mer with
  | nil => simpa [sweepSlices, sweep] using h
  | cons left bounds ih =>
    cases bounds with
    | nil => simpa [sweepSlices, sweep] using h
    | cons right bounds =>
      have hread : m.contents current = cur := (h.contents hcurrent).trans helements
      rw [sweepSlices, sweep]
      split_ifs
      · exact ih position h
      · dsimp only
        rw [hread, dropWhile_eq_drop]
        refine ih _ ?_
        cases chosenReason addition left _ with
        | none => exact h
        | some reason => exact appendSlice_spec full h _

/-- The loop over `additions` lays the segments from index `i` on. -/
theorem laySlices_spec {additions current : Option ℕ}
    {done rest cur result : List LogCoverageSegment} (h : Arrays.Owned m₀ m current cur)
    (hadditions : ∀ a ∈ additions, a < m₀.length) (helements : m₀.contents additions = done ++ rest)
    (hok : layLogCoverage floor stop rest cur = .ok result) :
    ∃ m' out, laySlices full floor stop additions rest.length done.length m current =
      .ok (m', out) ∧ Arrays.Owned m₀ m' out result := by
  induction rest generalizing done cur m current with
  | nil =>
    cases hok
    exact ⟨m, current, rfl, h⟩
  | cons a rest ih =>
    have hread : m.contents additions = done ++ a :: rest :=
      (h.contents hadditions).trans helements
    rw [layLogCoverage] at hok
    split_ifs at hok with hcheck
    have hnext : Arrays.Owned m₀
        (if (a.clip floor stop).start < (a.clip floor stop).stop then
          sweepSlices full (a.clip floor stop) current
            (segmentBounds (m.contents current) (a.clip floor stop)) 0 m none
        else (m, current)).1
        (if (a.clip floor stop).start < (a.clip floor stop).stop then
          sweepSlices full (a.clip floor stop) current
            (segmentBounds (m.contents current) (a.clip floor stop)) 0 m none
        else (m, current)).2
        (if (a.clip floor stop).start < (a.clip floor stop).stop then
          sweep (a.clip floor stop) (segmentBounds cur (a.clip floor stop)) cur []
        else cur) := by
      split_ifs
      · have hcurrent : ∀ b ∈ current, b < m.length := fun b hb => (h.fresh b hb).2
        rw [h.elements]
        exact (sweepSlices_spec full 0 (Arrays.Owned.nil m) hcurrent h.elements).trans h.kept
      · exact h
    have hsplit : m₀.contents additions = (done ++ [a]) ++ rest := by simpa using helements
    obtain ⟨m', out, hrun, howned⟩ := ih hnext hsplit hok
    refine ⟨m', out, ?_, howned⟩
    rw [List.length_cons, laySlices, hread, List.getElem?_append_right le_rfl, Nat.sub_self,
      List.getElem?_cons_zero]
    dsimp only
    rw [if_neg hcheck]
    simpa using hrun

/-- **The merge on slices computes the merge and leaves the arrays of its caller
    as they are.** -/
theorem mergeSlices_spec {old additions : Option ℕ} {result : List LogCoverageSegment}
    (hold : ∀ a ∈ old, a < m.length) (hadditions : ∀ a ∈ additions, a < m.length)
    (hok : mergeLogCoverage (m.contents old) (m.contents additions) floor stop = .ok result) :
    ∃ m' out, mergeSlices full m old additions floor stop = .ok (m', out) ∧
      Arrays.Owned m m' out result := by
  rw [mergeLogCoverage] at hok
  split_ifs at hok with hcheck
  obtain ⟨current, hclip, hok⟩ := bind_eq_ok.1 hok
  have hstart : m.contents old = [] ++ m.contents old := rfl
  have hadded : m.contents additions = [] ++ m.contents additions := rfl
  obtain ⟨m₁, out₁, hrun₁, howned₁⟩ :=
    clipSlices_spec full (Arrays.Owned.nil m) hold hstart hclip
  have hread : m₁.contents additions = m.contents additions := howned₁.contents hadditions
  obtain ⟨m₂, out₂, hrun₂, howned₂⟩ := laySlices_spec full howned₁ hadditions hadded hok
  rw [List.length_nil] at hrun₁
  refine ⟨m₂, out₂, ?_, howned₂⟩
  rw [mergeSlices, if_neg hcheck, hrun₁, ok_bind]
  dsimp only
  rw [hread]
  exact hrun₂

/-! ## Pointwise precedence -/

/-- **Merging coverage is pointwise precedence.**  Between two valid log times at
    most a week apart, the merge of valid evidence covers exactly the instants that
    its segments cover, each with the reason that takes precedence there.  The
    result is ordered, in the window and coalesced, and the same for the additions
    in any order; the slices of the caller keep their elements. -/
theorem mergeLogCoverage_is_precedence (old additions : Option ℕ)
    (hold : ∀ a ∈ old, a < m.length) (hadditions : ∀ a ∈ additions, a < m.length)
    (hfloor : ClockReading floor) (hstop : ClockReading stop) (hlt : floor < stop)
    (hspan : stop - floor ≤ logRetention)
    (hordered : Ordered (m.contents old)) (hvalid : ∀ s ∈ m.contents old, validLogSegment s = true)
    (haddv : ∀ s ∈ m.contents additions, validLogSegment s = true)
    (hlen : (m.contents additions).length ≤ maxCoverageSegmentsPerCommit) :
    ∃ result m' out,
      mergeSlices full m old additions floor stop = .ok (m', out) ∧ m'.contents out = result ∧
      m <+: m' ∧ m'.contents old = m.contents old ∧ m'.contents additions = m.contents additions ∧
      (∀ t, floor ≤ t → t < stop →
        ((∃ s ∈ result, s.Contains t) ↔ ∃ s ∈ m.contents old ++ m.contents additions,
          s.Contains t) ∧
        ∀ s ∈ result, s.Contains t →
          s.label ∈ reasonsAt (m.contents old ++ m.contents additions) t ∧
          ∀ q ∈ reasonsAt (m.contents old ++ m.contents additions) t,
            Outranks s.label q ∧ (Outranks q s.label → q = s.label)) ∧
      Ordered result ∧ (∀ s ∈ result, floor ≤ s.start ∧ s.stop ≤ stop) ∧ Coalesced result ∧
      ∀ additions', additions'.Perm (m.contents additions) →
        mergeLogCoverage (m.contents old) additions' floor stop = .ok result := by
  obtain ⟨result, hok, hmerged⟩ :=
    mergeLogCoverage_pointwise hfloor hstop hlt hspan hordered hvalid haddv hlen
  obtain ⟨m', out, hrun, howned⟩ := mergeSlices_spec full hold hadditions hok
  have hall : ∀ s ∈ m.contents old ++ m.contents additions, validLogSegment s = true := by
    intro s hs
    rcases List.mem_append.1 hs with hs | hs
    · exact hvalid s hs
    · exact haddv s hs
  refine ⟨result, m', out, hrun, howned.elements, howned.kept, howned.contents hold,
    howned.contents hadditions, fun t h1 h2 => ?_, hmerged.window.ordered, fun s hs => ?_,
    hmerged.coalesced, fun additions' hperm => ?_⟩
  · exact ⟨hmerged.covered_iff h1 h2, fun s hs ht => hmerged.reason hall h1 h2 hs ht⟩
  · exact ⟨(hmerged.window.within s hs).1, (hmerged.window.within s hs).2.1⟩
  · obtain ⟨result', hok', hmerged'⟩ := mergeLogCoverage_pointwise hfloor hstop hlt hspan hordered
      hvalid (fun s hs => haddv s (hperm.mem_iff.1 hs)) (hperm.length_eq ▸ hlen)
    rw [hok', hmerged.unique hmerged' (fun s => hperm.symm.mem_iff) hall]

theorem mergeLogCoverage_is_precedence_example :
    ∃ m' out,
      mergeSlices (fun _ => false) [[⟨second, 3 * second, none⟩],
        [⟨second, 2 * second, some .readerFailed⟩]] (some 0) (some 1) second (3 * second) =
        .ok (m', out) ∧
      [[⟨second, 3 * second, none⟩], [⟨second, 2 * second, some .readerFailed⟩]] <+: m' := by
  have hfloor : ClockReading second := validLogTime_iff.1 (by decide)
  have hstop : ClockReading (3 * second) := validLogTime_iff.1 (by decide)
  obtain ⟨_, m', out, hrun, -, hkept, -⟩ := mergeLogCoverage_is_precedence (fun _ => false)
    (m := [[⟨second, 3 * second, none⟩], [⟨second, 2 * second, some .readerFailed⟩]])
    (some 0) (some 1) (by simp) (by simp) hfloor hstop (by decide) (by decide)
    ⟨by simp [Arrays.contents, second], by simp [Arrays.contents]⟩
    (by simp only [Arrays.contents]; decide)
    (by simp only [Arrays.contents]; decide) (by decide)
  exact ⟨m', out, hrun, hkept⟩

/-- A window that starts at the zero instant is refused. -/
theorem mergeLogCoverage_zero_floor :
    (0 : Instant) < 1 ∧ (1 : Instant) - 0 ≤ logRetention ∧
      mergeLogCoverage [] [] 0 1 = .error .coverage ∧
      mergeSlices (fun _ => false) [] none none 0 1 = .error .coverage := by
  decide

end History

end HomeLab
