/-
  Projected sections.

  The rows of a section are those of the processes or containers that are read
  (`readProcesses`, `readContainers`), with their texts as they are displayed
  (`shownProcess`, `shownContainer`).  The sections that the projection builds
  pass all checks but the limits, no row occurs twice, and the rows are in order
  (`projectProcesses_spec`, `projectContainers_spec`).  `Brimful` says of an
  inventory when its section is at the edge of what fits.
-/
import Mathlib.Data.Prod.Lex
import HomeLab.Workload.Fitting

namespace HomeLab

namespace Workload

open Observation (SupportState)
open Containers (Reason)

/-! ## What is read -/

section
variable {F : Type} [Float64 F]

/-- The row of a process, with its name as it is displayed. -/
def shownProcess (v : Observation.Process F) : ProcessRow F :=
  ⟨v.pid, shown v.name 128 true, processState v.state, some v.cpuPercent, some v.memoryBytes,
    elapsed v.uptimeSeconds⟩

/-- The row of a container, with its texts as they are displayed. -/
def shownContainer (v : Containers.Container F) : ContainerRow F :=
  ⟨v.idAlias, shown v.name 128 false, shown v.image 240 false, v.state, v.cpuPercent,
    v.memoryBytes, v.metricsState, rowReason v⟩

/-- The processes that are read: those of a section with data. -/
def readProcesses (raw : Observation.Section (List (Observation.Process F))) :
    List (Observation.Process F) :=
  if raw.state = .available ∨ raw.state = .degraded then raw.data.getD [] else []

/-- The containers were observed, and not long ago. -/
def collected (raw : Containers.Inventory F) : Bool :=
  raw.supportState = .supported && raw.freshness = .current && raw.collectionState ≠ .notRun

def readContainers (raw : Containers.Inventory F) : List (Containers.Container F) :=
  if collected raw then raw.items else []

/-- Some rows of processes as a section, before it is fitted. -/
def processSection (raw : Observation.Section (List (Observation.Process F))) (time : Bytes)
    (rows : List (ProcessRow F)) : Section (ProcessRow F) :=
  ⟨processQuality raw rows.length, processBasis, some time, rows.length, processTotal raw,
    raw.quality.truncated, rows⟩

/-- Some rows of containers as a section that is degraded, although none is missing. -/
def degradedSection (time : Option Bytes) (rows : List (ContainerRow F)) :
    Section (ContainerRow F) :=
  ⟨q .degraded none, containerBasis, time, rows.length, some rows.length, false, rows⟩

/-- An inventory of containers that are all there, but not all with their metrics, and whose
    section is too long by one byte. -/
structure Brimful (raw : Containers.Inventory F) : Prop where
  collected : collected raw = true
  few : raw.items.length ≤ maxContainers
  all : raw.totalCount = raw.items.length
  lacking : raw.collectionState = .partially ∨
    ∃ v ∈ raw.items, v.metricsState = .partially ∨ v.metricsState = .unavailable
  size : (degradedSection (raw.observedAt.map formatRFC3339Nano)
    (raw.items.map shownContainer)).size (containerRowCodec F) = maxSectionBytes + 1

end

/-! ## Loops over rows -/

section
variable {α β κ : Type}

/-- The rows are without repeated keys, and in order. -/
structure Orderly (key : α → κ) (before : α → α → Bool) (rows : List α) : Prop where
  nodup : (rows.map key).Nodup
  order : rows.Pairwise fun a b => before b a = false

variable {valid : α → Bool} {before : α → α → Bool} {key : α → κ} {rows : List α} {seen : List κ}

theorem Orderly.take (h : Orderly key before rows) (n : ℕ) : Orderly key before (rows.take n) where
  nodup := h.nodup.sublist ((List.take_sublist n rows).map key)
  order := h.order.sublist (List.take_sublist n rows)

variable [DecidableEq κ]

/-- The rows of a list without repeated keys, one for each value. -/
theorem collectRows_iff {key : β → κ} {row : β → Option α} {f : β → α} {vs : List β}
    (hf : ∀ v r, row v = some r → r = f v) :
    collectRows key row seen vs = some rows ↔
      (vs.map key).Nodup ∧ (∀ v ∈ vs, key v ∉ seen) ∧ (∀ v ∈ vs, row v = some (f v)) ∧
        rows = vs.map f := by
  induction vs generalizing seen rows with
  | nil => simp [collectRows, eq_comm]
  | cons v vs ih =>
    rw [collectRows]
    split_ifs with hseen
    · simp only [false_iff]
      rintro ⟨-, hfresh, -⟩
      exact hfresh v (List.mem_cons_self ..) hseen
    · simp only [Option.bind_eq_some_iff, Option.map_eq_some_iff, ih, List.map_cons,
        List.nodup_cons, List.mem_cons, forall_eq_or_imp, not_or, List.mem_map, not_exists, not_and]
      constructor
      · rintro ⟨r, hr, rs, ⟨hnodup, hfresh, hrs, rfl⟩, rfl⟩
        obtain rfl := hf v r hr
        exact ⟨⟨fun w hw => (hfresh w hw).1, hnodup⟩, ⟨hseen, fun w hw => (hfresh w hw).2⟩,
          ⟨hr, hrs⟩, rfl⟩
      · rintro ⟨⟨hne, hnodup⟩, ⟨-, hfresh⟩, ⟨hr, hrs⟩, rfl⟩
        exact ⟨f v, hr, _, ⟨hnodup, fun w hw => ⟨hne w hw, hfresh w hw⟩, hrs, rfl⟩, rfl⟩

theorem checkRows_of_pairwise {prior : Option α} (hvalid : ∀ v ∈ rows, valid v = true)
    (hnodup : (rows.map key).Nodup) (hfresh : ∀ v ∈ rows, key v ∉ seen)
    (hprior : ∀ p, prior = some p → ∀ v ∈ rows, before v p = false)
    (horder : rows.Pairwise fun a b => before b a = false) :
    checkRows key valid before seen prior rows = true := by
  induction rows generalizing seen prior with
  | nil => rfl
  | cons v vs ih =>
    obtain ⟨hv, hvs⟩ := List.forall_mem_cons.1 hvalid
    obtain ⟨hne, hnodup⟩ := List.nodup_cons.1 hnodup
    obtain ⟨hseen, hfresh⟩ := List.forall_mem_cons.1 hfresh
    obtain ⟨hfirst, horder⟩ := List.pairwise_cons.1 horder
    have hp : prior.all (fun p => !before v p) = true := by
      rw [Option.all_eq_true]
      intro p hp
      rw [hprior p hp v (List.mem_cons_self ..)]
      rfl
    have hrest : checkRows key valid before (key v :: seen) (some v) vs = true := by
      refine ih hvs hnodup ?_ ?_ horder
      · intro w hw
        rw [List.mem_cons, not_or]
        exact ⟨fun heq => hne (heq ▸ List.mem_map_of_mem hw), hfresh w hw⟩
      · rintro p hp w hw
        cases hp
        exact hfirst w hw
    simp [checkRows, hseen, hv, hp, hrest]

theorem valid_of_checkRows {prior : Option α}
    (h : checkRows key valid before seen prior rows = true) : ∀ v ∈ rows, valid v = true := by
  induction rows generalizing seen prior with
  | nil => exact fun v hv => absurd hv List.not_mem_nil
  | cons v vs ih =>
    simp only [checkRows, Bool.and_eq_true] at h
    exact List.forall_mem_cons.2 ⟨h.1.1.2, ih h.2⟩

/-- The first of some rows that pass the check pass it, and one that asks for less. -/
theorem checkRows_take {valid' : α → Bool} (hvalid : ∀ v, valid v = true → valid' v = true)
    {prior : Option α} (h : checkRows key valid before seen prior rows = true) (n : ℕ) :
    checkRows key valid' before seen prior (rows.take n) = true := by
  induction rows generalizing seen prior n with
  | nil => rw [List.take_nil]; rfl
  | cons v vs ih =>
    cases n with
    | zero => rfl
    | succ n =>
      simp only [checkRows, List.take_succ_cons, Bool.and_eq_true] at h ⊢
      exact ⟨⟨⟨h.1.1.1, hvalid v h.1.1.2⟩, h.1.2⟩, ih h.2 n⟩

theorem Orderly.check_iff (h : Orderly key before rows) :
    checkRows key valid before [] none rows = true ↔ ∀ v ∈ rows, valid v = true :=
  ⟨valid_of_checkRows, fun hvalid => checkRows_of_pairwise hvalid h.nodup
    (fun _ _ => List.not_mem_nil) nofun h.order⟩

end

/-! ## Order -/

/-- Sorting by a key puts no row before one with a smaller key. -/
theorem pairwise_sorted {α K : Type} [LinearOrder K] (key : α → K) {before : α → α → Bool}
    (h : ∀ a b, before a b = true ↔ key a < key b) (rows : List α) :
    (rows.mergeSort fun a b => !before b a).Pairwise fun a b => before b a = false := by
  have hle (a b : α) : (!before b a) = true ↔ key a ≤ key b := by
    rw [Bool.not_eq_true', ← Bool.not_eq_true, h, not_lt]
  refine (List.pairwise_mergeSort ?_ ?_ rows).imp fun {a b} hab => by simpa using hab
  · intro a b c hab hbc
    rw [hle] at hab hbc ⊢
    exact hab.trans hbc
  · intro a b
    rw [Bool.or_eq_true, hle, hle]
    exact le_total _ _

section
variable {F : Type} [Float64 F]

/-- Memory and processor time in descending order, then the identifier. -/
def processKey (r : ProcessRow F) : ℕᵒᵈ ×ₗ ℚᵒᵈ ×ₗ ℤ :=
  toLex (OrderDual.toDual (r.memory.getD 0),
    toLex (OrderDual.toDual ((r.cpu.map Float64.toRat).getD 0), r.pid.toInt))

theorem processBefore_iff (a b : ProcessRow F) :
    processBefore a b = true ↔ processKey a < processKey b := by
  simp only [processBefore, processKey, Prod.Lex.lt_iff, ofLex_toLex, OrderDual.toDual_lt_toDual,
    EmbeddingLike.apply_eq_iff_eq]
  split_ifs with hmemory hcpu
  · simp [hmemory]
  · rw [ne_eq, not_not] at hmemory
    simp [hmemory, hcpu]
  · rw [ne_eq, not_not] at hmemory hcpu
    simp [hmemory, hcpu]

end

theorem containerBefore_iff {F : Type} (a b : ContainerRow F) :
    containerBefore a b = true ↔ a.idAlias < b.idAlias := decide_eq_true_iff

theorem orderly_sorted {α κ K : Type} [LinearOrder K] {key : α → κ} (rank : α → K)
    {before : α → α → Bool} (h : ∀ a b, before a b = true ↔ rank a < rank b) {rows : List α}
    (hnodup : (rows.map key).Nodup) :
    Orderly key before (rows.mergeSort fun a b => !before b a) :=
  ⟨(((List.mergeSort_perm _ _).map key).nodup_iff).2 hnodup, pairwise_sorted rank h rows⟩

/-! ## Rows -/

section
variable {F : Type} [Float64 F]

theorem processRow_eq {v : Observation.Process F} {r : ProcessRow F} (h : processRow v = some r) :
    r = shownProcess v := by
  unfold processRow at h
  split_ifs at h
  obtain ⟨name, hname, rfl⟩ := Option.map_eq_some_iff.1 h
  rw [eq_shown hname]
  rfl

/-- The row of a process is valid exactly if the cut of its name makes no secret. -/
theorem validProcess_iff {v : Observation.Process F} (h : processRow v = some (shownProcess v)) :
    validProcess (shownProcess v) = true ↔ ¬ CutsSecret v.name 128 true := by
  unfold processRow at h
  split_ifs at h with hbad
  push Not at hbad
  obtain ⟨hpid, hcpu, hmemory, huptime⟩ := hbad
  obtain ⟨name, hname, -⟩ := Option.map_eq_some_iff.1 h
  obtain rfl := eq_shown hname
  have hslash : ((shown v.name 128 true).any fun b => b = 47 || b = 92) = false := by
    rw [List.any_eq_false]
    intro b hb
    obtain ⟨h1, h2⟩ := display_basename hname b hb
    simp [h1, h2]
  have hstate : ∀ s : ProcessState, processState (processStateText s) = s := by
    intro s
    cases s <;> decide
  have helapsed : (elapsed v.uptimeSeconds).all (fun e => e ≠ 0 && e ≤ maxExactInteger) = true := by
    unfold elapsed
    split_ifs with hpos
    · simp [hpos.ne', huptime]
    · rfl
  have hcpu' : processPercent v.cpuPercent = true := by simpa using hcpu
  rw [← display_textValid (by decide) hname]
  simp only [validProcess, shownProcess, hslash, hstate, Option.any_some, hmemory, helapsed, hcpu',
    hpid, Bool.and_eq_true, decide_eq_true_eq, Bool.not_false, and_true, true_and]

theorem containerRow_spec {v : Containers.Container F} {r : ContainerRow F}
    (h : containerRow v = some r) : r = shownContainer v ∧ validContainer r = true := by
  unfold containerRow at h
  obtain ⟨name, hname, h⟩ := Option.bind_eq_some_iff.1 h
  obtain ⟨image, himage, h⟩ := Option.bind_eq_some_iff.1 h
  dsimp only at h
  split_ifs at h with hvalid
  cases h
  rw [Bool.and_eq_true] at hvalid
  refine ⟨?_, hvalid.2⟩
  rw [eq_shown hname, eq_shown himage]
  rfl

theorem validContainer_iff {v : ContainerRow F} :
    validContainer v = true ↔ aliasPattern v.idAlias = true ∧ textValid v.name 128 = true ∧
      textValid v.image 240 = true ∧ containerState v.state = true ∧
      (∀ x, v.cpu = some x → percent x = true) ∧
      (∀ n, v.memory = some n → n ≤ maxExactInteger) ∧ validMetrics v = true := by
  simp only [validContainer, Bool.and_eq_true, Option.all_eq_true, decide_eq_true_eq, and_assoc]

/-- A container with admissible texts has a row if the row is valid. -/
theorem containerRow_iff {v : Containers.Container F} (hname : Admissible v.name)
    (himage : Admissible v.image) :
    containerRow v = some (shownContainer v) ↔ validContainer (shownContainer v) = true := by
  refine ⟨fun h => (containerRow_spec h).2, fun h => ?_⟩
  obtain ⟨halias, -, -, hstate, -⟩ := validContainer_iff.1 h
  rw [containerRow, hname.display, Option.bind_some, himage.display, Option.bind_some]
  refine if_pos ?_
  rw [Bool.and_eq_true, Bool.and_eq_true]
  exact ⟨⟨halias, hstate⟩, h⟩

omit [Float64 F] in
/-- The texts of the row are valid unless their cut makes a secret. -/
theorem shownContainer_texts {v : Containers.Container F} (hname : Admissible v.name)
    (himage : Admissible v.image) :
    (textValid (shownContainer v).name 128 = true ∧ textValid (shownContainer v).image 240 = true) ↔
      ¬ CutsSecret v.name 128 false ∧ ¬ CutsSecret v.image 240 false :=
  and_congr (display_textValid (by decide) (hname.display 128 false))
    (display_textValid (by decide) (himage.display 240 false))

end

/-! ## Consistency -/

theorem validQuality_q (state : SupportState) (reason : Option Reason) :
    validQuality (q state reason) = true := by
  cases state <;> first | rfl | (cases reason with | none => rfl | some r => cases r <;> rfl)

theorem q_state (state : SupportState) (reason : Option Reason) :
    (q state reason).state = if state = .other then .unknown else state := by
  cases state <;> first | rfl | (cases reason with | none => rfl | some r => cases r <;> rfl)

theorem validTime_format {t : Instant} (h : ClockReading t) :
    validTime (formatRFC3339Nano t) = true := by
  obtain ⟨h0, h1, h2⟩ := (clockReading_iff t).1 h
  simp [validTime, parse_formatRFC3339Nano (by omega) h2, h0, h1, h2]

/-- A section without rows is valid if it is neither available nor degraded. -/
theorem validApart_empty {α : Type} {state : SupportState} {reason : Option Reason}
    {observed : Option Bytes} (hstate : state ≠ .available ∧ state ≠ .degraded)
    (hvalid : ∀ t, observed = some t → validTime t = true) (hobserved : observed.isSome → (q state
      reason).state ≠ .disabled ∧ (q state reason).state ≠ .unknown) :
    validApart { empty α state reason with observedAt := observed } true = true := by
  refine validApart_iff.2 ⟨validQuality_q state reason, rfl, fun t ht => (nomatch ht), hvalid,
    Or.inl rfl, fun t ht => (nomatch ht), ?_⟩
  have hq : (q state reason).state ≠ .available ∧ (q state reason).state ≠ .degraded := by
    rw [q_state]
    split_ifs
    · exact ⟨by decide, by decide⟩
    · exact hstate
  have hno : ((q state reason).state = .disabled ∨ (q state reason).state = .unknown) →
      observed.isSome = false := by
    intro h
    by_contra hsome
    obtain ⟨h1, h2⟩ := hobserved (Bool.eq_true_of_not_eq_false hsome)
    exact h.elim h1 h2
  unfold validState
  dsimp only [empty]
  generalize (q state reason).state = st at hq hno
  cases st with
  | available => exact absurd rfl hq.1
  | degraded => exact absurd rfl hq.2
  | disabled => simp [hno (Or.inl rfl)]
  | unknown => simp [hno (Or.inr rfl)]
  | _ => rfl

/-- What the counts of processes that are accepted satisfy. -/
theorem of_badProcessCounts {F : Type} {items : List (Observation.Process F)}
    {m : Observation.SectionQuality} (h : ¬ badProcessCounts items m = true) :
    (items.length : ℤ) ≤ m.total ∧ 0 ≤ m.errors ∧ m.total.toNat ≤ maxExactInteger ∧
      m.truncated = decide ((items.length : ℤ) < m.total) := by
  simp only [badProcessCounts, Bool.or_eq_true, decide_eq_true_eq, not_or, ne_eq, not_not,
    not_lt] at h
  exact ⟨h.1.1.1.2, h.1.1.2, h.1.2, h.2⟩

section
variable {F : Type} [Float64 F]

variable {time : Bytes} {raw : Observation.Section (List (Observation.Process F))}
  {s : Section (ProcessRow F)}

/-- The section of collected processes passes all checks but the limits; if it is degraded
    without being truncated, it has no total. -/
theorem validApart_collectedProcesses {items : List (Observation.Process F)}
    (hstate : raw.state = .available ∨ raw.state = .degraded) (htime : validTime time = true)
    (h : collectedProcesses raw time items = some s) :
    validApart s true = true ∧
      (s.quality = q .degraded none → s.truncated = false → s.total = none) := by
  unfold collectedProcesses at h
  split_ifs at h with hbad
  obtain ⟨rows, hrows, rfl⟩ := Option.map_eq_some_iff.1 h
  obtain ⟨htotal, herrors, hexact, htruncated⟩ := of_badProcessCounts hbad
  have hlen : rows.length = items.length := by
    rw [((collectRows_iff fun _ _ => processRow_eq).1 hrows).2.2.2, List.length_map]
  -- the total, where there is one
  have hsome {t : ℕ} (ht : processTotal raw = some t) : (t : ℤ) = raw.quality.total := by
    unfold processTotal at ht
    split_ifs at ht
    cases ht
    omega
  refine ⟨validApart_iff.2 ⟨?_, (List.length_mergeSort rows).symm, ?_, ?_, Or.inl rfl, ?_, ?_⟩, ?_⟩
  · show validQuality (processQuality raw items.length) = true
    unfold processQuality
    split_ifs
    · exact validQuality_q _ _
    · exact validQuality_q _ _
  · intro t ht
    have := hsome ht
    dsimp only
    omega
  · rintro t ht
    cases ht
    exact htime
  · intro t ht
    have := hsome ht
    dsimp only
    rw [htruncated, decide_eq_decide]
    omega
  · unfold validState
    dsimp only
    rw [hlen]
    unfold processQuality
    split_ifs with hdegraded
    · have hmore : (raw.quality.truncated && (processTotal raw).any (· ≤ items.length)) = false := by
        rw [htruncated]
        cases ht : processTotal raw with
        | none => exact Bool.and_false _
        | some t =>
          have := hsome ht
          by_cases hlt : (items.length : ℤ) < raw.quality.total
          · simp [hlt]
            omega
          · simp [hlt]
      simp [q, hmore]
    · push Not at hdegraded
      obtain ⟨hnot, hnone, hwhole, hle⟩ := hdegraded
      have havailable : raw.state = .available := hstate.resolve_right hnot
      have hcount : processTotal raw = some items.length := by
        rw [processTotal, if_pos ⟨havailable, by omega⟩]
        congr 1
        omega
      rw [havailable]
      simpa [q, hcount] using hwhole
  · intro hdegraded hwhole
    have hle : ¬ (items.length : ℤ) < raw.quality.total := by
      intro hlt
      rw [htruncated, decide_eq_true hlt] at hwhole
      cases hwhole
    show processTotal raw = none
    rw [processTotal, if_neg]
    rintro ⟨havailable, hnone⟩
    have hquality : processQuality raw items.length = q raw.state (processReason raw.reasonCode) := by
      rw [processQuality, if_neg]
      rintro (h | h | h | h)
      · rw [havailable] at h
        cases h
      · omega
      · exact absurd (h.symm.trans hwhole) (by decide)
      · exact hle h
    have heq := hquality.symm.trans hdegraded
    rw [havailable] at heq
    cases heq

/-- What a projected section of processes is made of. -/
structure ProjectedProcesses (raw : Observation.Section (List (Observation.Process F)))
    (time : Bytes) (s : Section (ProcessRow F)) : Prop where
  apart : validApart s true = true
  total : s.quality = q .degraded none → s.truncated = false → s.total = none
  nodup : ((readProcesses raw).map Observation.Process.pid).Nodup
  rows : ∀ v ∈ readProcesses raw, processRow v = some (shownProcess v)
  items : s.items = ((readProcesses raw).map shownProcess).mergeSort fun a b => !processBefore b a
  whole : readProcesses raw ≠ [] →
    { s with cpuBasis := processBasis } = processSection raw time s.items

theorem ProjectedProcesses.orderly (h : ProjectedProcesses raw time s) :
    Orderly ProcessRow.pid processBefore s.items := by
  rw [h.items]
  refine orderly_sorted processKey processBefore_iff ?_
  rw [List.map_map]
  exact h.nodup

/-- **A projected section of processes has the rows of the processes that are read.** -/
theorem projectProcesses_spec (h : projectProcesses raw time = some s)
    (htime : validTime time = true) : ProjectedProcesses raw time s := by
  have hempty {s : Section (ProcessRow F)} (hread : readProcesses raw = [])
      (hs : validApart s true = true) (htotal : s.total = none) (hitems : s.items = []) :
      ProjectedProcesses raw time s := by
    refine ⟨hs, fun _ _ => htotal, ?_, ?_, ?_, fun hne => absurd hread hne⟩
    all_goals rw [hread]
    · exact List.nodup_nil
    · exact fun v hv => absurd hv List.not_mem_nil
    · rw [hitems, List.map_nil, List.mergeSort_nil]
  unfold projectProcesses at h
  dsimp only at h
  split_ifs at h with hstate hobserved
  · cases h
    refine hempty (if_neg (not_or.2 hstate)) (validApart_empty hstate ?_ fun _ => hobserved) rfl rfl
    rintro t ht
    cases ht
    exact htime
  · cases h
    exact hempty (if_neg (not_or.2 hstate))
      (validApart_empty hstate (fun t ht => (nomatch ht)) nofun) rfl rfl
  · have hread : raw.state = .available ∨ raw.state = .degraded := by
      by_contra hno
      exact hstate (not_or.1 hno)
    have hdata : readProcesses raw = raw.data.getD [] := if_pos hread
    cases hitems : raw.data with
    | none =>
      rw [hitems] at h hdata
      cases h
      exact hempty hdata (validApart_empty ⟨by decide, by decide⟩ (fun t ht => (nomatch ht))
        nofun) rfl rfl
    | some items =>
      rw [hitems] at h hdata
      replace h : collectedProcesses raw time items = some s := h
      obtain ⟨hvalid, htotal⟩ := validApart_collectedProcesses hread htime h
      unfold collectedProcesses at h
      split_ifs at h
      obtain ⟨rows, hrows, rfl⟩ := Option.map_eq_some_iff.1 h
      obtain ⟨hnodup, -, hrow, rfl⟩ := (collectRows_iff fun _ _ => processRow_eq).1 hrows
      rw [Option.getD_some] at hdata
      refine ⟨hvalid, htotal, ?_, ?_, ?_, fun _ => ?_⟩
      · rwa [hdata]
      · rwa [hdata]
      · rw [hdata]
      · simp only [processSection, List.length_mergeSort, List.length_map]

/-! ## Containers -/

variable {raw : Containers.Inventory F} {s : Section (ContainerRow F)}

/-- The section of observed containers. -/
def collectedSection (raw : Containers.Inventory F) (time : Instant) : Section (ContainerRow F) where
  quality := containerQuality raw (raw.items.map shownContainer)
  cpuBasis := []
  observedAt := some (formatRFC3339Nano time)
  returned := raw.items.length
  total := some raw.totalCount
  truncated := raw.truncated
  items := (raw.items.map shownContainer).mergeSort fun a b => !containerBefore b a

/-- The counts of an inventory agree, and its time can be printed. -/
structure Consistent (raw : Containers.Inventory F) (time : Instant) : Prop where
  later : time ≠ 0
  time : validTime (formatRFC3339Nano time) = true
  state : raw.collectionState = .ok ∨ raw.collectionState = .partially
  rows : raw.items.length ≤ maxInputRows
  returned : raw.returnedCount = raw.items.length
  total : raw.items.length ≤ raw.totalCount
  exact : raw.totalCount ≤ maxExactInteger
  truncated : raw.truncated = decide (raw.items.length < raw.totalCount)

/-- When observed containers are projected. -/
theorem collectedContainers_iff {time : Instant} :
    collectedContainers raw time = some s ↔ Consistent raw time ∧
      (raw.items.map Containers.Container.idAlias).Nodup ∧
      (∀ v ∈ raw.items, containerRow v = some (shownContainer v)) ∧
      s = collectedSection raw time := by
  have hshown : ∀ v r, containerRow (F := F) v = some r → r = shownContainer v :=
    fun _ _ hr => (containerRow_spec hr).1
  unfold collectedContainers
  constructor
  · intro h
    split_ifs at h with hbad
    push Not at hbad
    obtain ⟨hlater, htime, hstate, hlen, hreturned, htotal, hexact, htruncated⟩ := hbad
    obtain ⟨rows, hcollected, rfl⟩ := Option.map_eq_some_iff.1 h
    obtain ⟨hnodup, -, hrow, rfl⟩ := (collectRows_iff hshown).1 hcollected
    refine ⟨⟨hlater, by simpa using htime, ?_, hlen, hreturned, htotal, hexact, htruncated⟩, hnodup,
      hrow, ?_⟩
    · exact or_iff_not_imp_left.2 hstate
    · rw [collectedSection, List.length_map]
  · rintro ⟨hc, hnodup, hrow, rfl⟩
    rw [if_neg]
    · refine Option.map_eq_some_iff.2 ⟨_, (collectRows_iff hshown).2
        ⟨hnodup, fun _ _ => List.not_mem_nil, hrow, rfl⟩, ?_⟩
      rw [collectedSection, List.length_map]
    · push Not
      exact ⟨hc.later, by simp [hc.time], or_iff_not_imp_left.1 hc.state, hc.rows, hc.returned,
        hc.total, hc.exact, hc.truncated⟩

/-- Containers that were not observed give an empty section. -/
theorem projectContainers_cases (hschema : raw.schemaVersion = Containers.schemaVersion) :
    (collected raw = true ∧
      projectContainers raw = raw.observedAt.bind (collectedContainers raw)) ∨
    collected raw = false ∧ ∃ state reason, (state ≠ .available ∧ state ≠ .degraded) ∧
      projectContainers raw = some (empty (ContainerRow F) state reason) := by
  rw [projectContainers, if_neg (not_not.2 hschema)]
  by_cases hsupport : raw.supportState = .supported
  · rw [if_neg (by rw [hsupport]; decide)]
    split_ifs with hfresh
    · refine Or.inr ⟨?_, _, _, ⟨by decide, by decide⟩, rfl⟩
      rcases hfresh with h | h <;> simp [collected, h]
    · push Not at hfresh
      exact Or.inl ⟨by simp [collected, hsupport, hfresh.1, hfresh.2], rfl⟩
  · have hstate : supportOf raw.supportState ≠ .available ∧
        supportOf raw.supportState ≠ .degraded := by
      cases h : raw.supportState <;> first | exact absurd h hsupport | decide
    rw [if_pos hstate.1]
    exact Or.inr ⟨by simp [collected, hsupport], _, _, hstate, rfl⟩

theorem schemaVersion_of_project (h : projectContainers raw = some s) :
    raw.schemaVersion = Containers.schemaVersion := by
  by_contra hno
  rw [projectContainers, if_pos hno] at h
  cases h

omit [Float64 F] in
/-- What makes a section of containers degraded. -/
theorem containerQuality_degraded {rows : List (ContainerRow F)} :
    (containerQuality raw rows).state = .degraded ↔ raw.collectionState = .partially ∨
      raw.truncated = true ∨ raw.items.length < raw.totalCount ∨ rows.any incomplete = true := by
  unfold containerQuality
  split_ifs with h
  · exact iff_of_true rfl h
  · exact iff_of_false (by rw [q_state]; decide) h

omit [Float64 F] in
theorem containerQuality_eq {rows : List (ContainerRow F)}
    (h : (containerQuality raw rows).state = .degraded) :
    containerQuality raw rows = q .degraded none := if_pos (containerQuality_degraded.1 h)

omit [Float64 F] in
/-- The section of observed containers passes all checks but the limits. -/
theorem validApart_collectedSection {time : Instant} (h : Consistent raw time) :
    validApart (collectedSection raw time) true = true := by
  refine validApart_iff.2 ⟨?_, ?_, ?_, ?_, Or.inl rfl, ?_, ?_⟩
  · show validQuality (containerQuality raw (raw.items.map shownContainer)) = true
    unfold containerQuality
    split_ifs
    · exact validQuality_q _ _
    · exact validQuality_q _ _
  · simp only [collectedSection, List.length_mergeSort, List.length_map]
  · rintro t ht
    cases ht
    exact ⟨h.exact, h.total⟩
  · rintro t ht
    cases ht
    exact h.time
  · rintro t ht
    cases ht
    exact h.truncated.symm
  · unfold validState collectedSection containerQuality
    dsimp only
    split_ifs with hdegraded
    · by_cases hlt : raw.items.length < raw.totalCount <;> simp [q, h.truncated, hlt]
    · push Not at hdegraded
      obtain ⟨-, hwhole, hle, -⟩ := hdegraded
      have hcount : raw.totalCount = raw.items.length := le_antisymm hle h.total
      simpa [q, hcount] using hwhole

/-- What a projected section of containers is made of. -/
structure ProjectedContainers (raw : Containers.Inventory F) (s : Section (ContainerRow F)) :
    Prop where
  apart : validApart s true = true
  nodup : ((readContainers raw).map Containers.Container.idAlias).Nodup
  rows : ∀ v ∈ readContainers raw, containerRow v = some (shownContainer v)
  items : s.items =
    ((readContainers raw).map shownContainer).mergeSort fun a b => !containerBefore b a
  complete : s.quality.state ≠ .degraded → ∀ v ∈ readContainers raw,
    incomplete (shownContainer v) = false
  available : s.quality.state = .available → readContainers raw = raw.items ∧
    raw.truncated = false ∧ s.truncated = false
  brimful : Mismarked (containerRowCodec F) { s with cpuBasis := containerBasis } maxContainers ↔
    Brimful raw

theorem ProjectedContainers.orderly (h : ProjectedContainers raw s) :
    Orderly ContainerRow.idAlias containerBefore s.items := by
  rw [h.items]
  refine orderly_sorted ContainerRow.idAlias containerBefore_iff ?_
  rw [List.map_map]
  exact h.nodup

/-- The order of the rows does not matter for the length. -/
theorem Section.size_perm {α : Type} (item : Codec α) {s : Section α} {items : List α}
    (h : items.Perm s.items) : ({ s with items := items } : Section α).size item = s.size item := by
  have hitems : itemsSize item items = itemsSize item s.items := by
    by_cases hnil : s.items = []
    · rw [hnil] at h ⊢
      rw [h.eq_nil]
    · have hne : items ≠ [] := fun hnil' => hnil (hnil' ▸ h).nil_eq.symm
      rw [itemsSize, itemsSize, Json.length_render_arr (by simpa using hne),
        Json.length_render_arr (by simpa using hnil), ((h.map item.toJson).map _).sum_eq]
  rw [Section.size_eq, Section.size_eq, hitems]

/-- When the section of observed containers is at the edge. -/
theorem mismarked_collectedSection {time : Instant} (hcollected : collected raw = true)
    (htime : raw.observedAt = some time) (h : Consistent raw time) :
    Mismarked (containerRowCodec F)
      { collectedSection raw time with cpuBasis := containerBasis } maxContainers ↔
      Brimful raw := by
  have hany : (raw.items.map shownContainer).any incomplete = true ↔
      ∃ v ∈ raw.items, v.metricsState = .partially ∨ v.metricsState = .unavailable := by
    simp only [List.any_map, List.any_eq_true, Function.comp_apply, incomplete, Bool.or_eq_true,
      decide_eq_true_eq]
    rfl
  have hlen : (collectedSection raw time).items.length = raw.items.length := by
    rw [collectedSection, List.length_mergeSort, List.length_map]
  -- the section is the given one, up to the order of its rows
  have hsize (hquality : (collectedSection raw time).quality = q .degraded none)
      (hcount : raw.totalCount = raw.items.length) (hwhole : raw.truncated = false) :
      ({ collectedSection raw time with cpuBasis := containerBasis } :
        Section (ContainerRow F)).whole.size (containerRowCodec F) =
      (degradedSection (raw.observedAt.map formatRFC3339Nano)
        (raw.items.map shownContainer)).size (containerRowCodec F) := by
    have hperm := Section.size_perm (containerRowCodec F)
      (s := degradedSection (some (formatRFC3339Nano time)) (raw.items.map shownContainer))
      (List.mergeSort_perm _ fun a b => !containerBefore b a)
    rw [htime, Option.map_some, ← hperm]
    simp only [degradedSection, Section.whole, hquality, hlen, List.length_map]
    simp only [collectedSection, hcount, hwhole]
  constructor
  · rintro ⟨⟨hdegraded, hcomplete, hedge⟩, -, hfew⟩
    have hwhole : raw.truncated = false := hcomplete
    have hall : raw.totalCount = raw.items.length := by
      have hle := of_decide_eq_false (h.truncated.symm.trans hwhole)
      exact le_antisymm (not_lt.1 hle) h.total
    refine ⟨hcollected, hlen.symm.trans_le hfew, hall, ?_, (hsize hdegraded hall hwhole).symm.trans
      hedge⟩
    rcases containerQuality_degraded.1 (congrArg Quality.state hdegraded) with h | h | h | h
    · exact Or.inl h
    · rw [hwhole] at h
      cases h
    · omega
    · exact Or.inr (hany.1 h)
  · rintro ⟨-, hfew, hall, hlacking, hedge⟩
    have hwhole : raw.truncated = false := h.truncated.trans (decide_eq_false (by omega))
    have hdegraded : (collectedSection raw time).quality = q .degraded none := by
      refine containerQuality_eq (containerQuality_degraded.2 ?_)
      exact hlacking.imp_right fun h => Or.inr (Or.inr (hany.2 h))
    exact ⟨⟨hdegraded, hwhole, (hsize hdegraded hall hwhole).trans hedge⟩, rfl,
      hlen.trans_le hfew⟩

/-- **A projected section of containers has the rows of the containers that are read.** -/
theorem projectContainers_spec (h : projectContainers raw = some s) :
    ProjectedContainers raw s := by
  rcases projectContainers_cases (schemaVersion_of_project h) with
    ⟨hcollected, heq⟩ | ⟨hcollected, state, reason, hstate, heq⟩
  · rw [heq] at h
    obtain ⟨time, htime, h⟩ := Option.bind_eq_some_iff.1 h
    obtain ⟨hconsistent, hnodup, hrow, rfl⟩ := collectedContainers_iff.1 h
    have hread : readContainers raw = raw.items := if_pos hcollected
    refine ⟨validApart_collectedSection hconsistent, ?_, ?_, ?_, ?_, fun havailable => ?_,
      mismarked_collectedSection hcollected htime hconsistent⟩
    · rwa [hread]
    · rwa [hread]
    · rw [hread]
      rfl
    · intro hquality v hv
      by_contra hincomplete
      refine hquality (containerQuality_degraded.2 (Or.inr (Or.inr (Or.inr ?_))))
      exact List.any_eq_true.2 ⟨_, List.mem_map_of_mem (hread ▸ hv), by simpa using hincomplete⟩
    · have hwhole : raw.truncated = false := by
        by_contra hmark
        have hdegraded : (collectedSection raw time).quality.state = .degraded :=
          containerQuality_degraded.2 (Or.inr (Or.inl (Bool.eq_true_of_not_eq_false hmark)))
        rw [hdegraded] at havailable
        cases havailable
      exact ⟨hread, hwhole, hwhole⟩
  · obtain rfl := Option.some.inj (heq.symm.trans h)
    have hread : readContainers raw = [] := if_neg (by rw [hcollected]; decide)
    refine ⟨validApart_empty hstate (fun t ht => (nomatch ht)) nofun, ?_, ?_, ?_,
      ?_, fun havailable => ?_, iff_of_false (fun hedge => ?_) fun hbrim => ?_⟩
    all_goals try rw [hread]
    · exact List.nodup_nil
    · exact fun v hv => absurd hv List.not_mem_nil
    · rw [List.map_nil, List.mergeSort_nil]
      rfl
    · exact fun _ v hv => absurd hv List.not_mem_nil
    · have hq : (q state reason).state = .available := havailable
      rw [q_state] at hq
      split_ifs at hq
      exact absurd hq hstate.1
    · exact absurd hedge.2.1 Bool.false_ne_true
    · rw [hbrim.collected] at hcollected
      cases hcollected

end

end Workload

end HomeLab
