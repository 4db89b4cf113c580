/-
  What the container collector returns.

  The workers of a cycle use the counters of different containers, so that each
  container is observed as if it were alone (`runTasks_spec`) and every item
  of the inventory is one of a few kinds (`Observed`).  The answers of the engine
  and the counters that were kept determine the rows that the inventory amounts
  to (`Cycle.rows`), and whether it can be projected (`Cycle.Brimful`).
-/
import HomeLab.Containers.Collector
import HomeLab.Lib.Fallible
import HomeLab.Workload.Encoding

namespace HomeLab

namespace Containers

open Workload

/-! ## Answers -/

theorem getJson_ok {α : Type} {maxBytes : ℕ} {decode : Bytes → Option α} {reply : Reply} {a : α}
    (h : getJson maxBytes decode reply = .ok a) :
    ∃ b : Bytes, b.length ≤ maxBytes ∧ decode b = some a := by
  cases reply with
  | notSent | failed => cases h
  | answered status contentLength body =>
    unfold getJson at h
    dsimp only at h
    split_ifs at h
    cases body with
    | none => cases h
    | some b =>
      dsimp only at h
      split_ifs at h with hlong
      cases hread : decode b with
      | none => rw [hread] at h; cases h
      | some x =>
        rw [hread] at h
        cases h
        exact ⟨b, Nat.le_of_not_lt hlong, hread⟩

theorem listContainers_spec [EngineJson] {reply : Reply} {listed : List EngineContainer}
    (h : listContainers reply = .ok listed) :
    (listed.map EngineContainer.id).Nodup ∧ listed.length ≤ maxInventoryBody := by
  rw [listContainers] at h
  obtain ⟨response, hjson, h⟩ := bind_eq_ok.1 h
  cases response with
  | none => cases h
  | some response =>
    dsimp only at h
    split_ifs at h with hids
    cases h
    obtain ⟨b, hlen, hread⟩ := getJson_ok hjson
    exact ⟨hids.2, (EngineJson.bounded hread).trans hlen⟩

/-! ## Processor time -/

section
variable {F : Type} [Float64 F]

/-- The percentage comes from two readings of counters, of which none went backwards. -/
structure FromCounters (v : F) (current : CpuCounters) (total system : ℕ) : Prop where
  later : system < current.system
  forward : total ≤ current.total
  value : v = Float64.percentage (current.total - total) (current.system - system)

theorem cpuPercent_spec {stats : EngineStats} {prior : Option CpuCounters} {v : F}
    (h : cpuPercent stats prior = some v) :
    ∃ current total system, currentCpuCounters stats = some current ∧
      previousCounters stats prior = some (total, system) ∧ FromCounters v current total system ∧
      percent v = true := by
  obtain ⟨current, hcurrent, h⟩ := Option.bind_eq_some_iff.1 h
  obtain ⟨previous, hprevious, h⟩ := Option.bind_eq_some_iff.1 h
  dsimp only at h
  split_ifs at h with hback hwithin
  cases h
  push Not at hback
  exact ⟨current, previous.1, previous.2, hcurrent, hprevious, ⟨hback.1, hback.2, rfl⟩, hwithin⟩

end

theorem previousCounters_cases {stats : EngineStats} {prior : Option CpuCounters}
    {total system : ℕ} (h : previousCounters stats prior = some (total, system)) :
    (stats.preTotalUsage = some total ∧ stats.preSystemUsage = some system) ∨
      ∃ c, prior = some c ∧ c.total = total ∧ c.system = system := by
  have hkept (h : prior.map (fun p => (p.total, p.system)) = some (total, system)) :
      ∃ c, prior = some c ∧ c.total = total ∧ c.system = system := by
    obtain ⟨c, hc, heq⟩ := Option.map_eq_some_iff.1 h
    exact ⟨c, hc, congrArg Prod.fst heq, congrArg Prod.snd heq⟩
  unfold previousCounters at h
  cases htotal : stats.preTotalUsage with
  | none => rw [htotal] at h; exact Or.inr (hkept h)
  | some t =>
    cases hsystem : stats.preSystemUsage with
    | none => rw [htotal, hsystem] at h; exact Or.inr (hkept h)
    | some u =>
      rw [htotal, hsystem] at h
      dsimp only at h
      split_ifs at h with hzero
      · exact Or.inr (hkept h)
      · cases h
        exact Or.inl ⟨rfl, rfl⟩

theorem normalizeState_ne_other (value : List Char) : normalizeState value ≠ .other := by
  unfold normalizeState
  dsimp only
  split_ifs <;> decide

theorem metricReason_listed (reason : Option Reason) :
    metricReason reason ∈ [Reason.metricUnavailable, .invalidCounter, .permissionDenied,
      .unsupported, .deadlineExceeded, .collectionCanceled] := by
  cases reason with
  | none => decide
  | some r => cases r <;> decide

/-! ## Projected inventories -/

section
variable {F : Type} [Float64 F]

omit [Float64 F] in
theorem collected_successful (now : Instant) (items : List (Container F)) (total : ℕ) :
    ((successfulInventory now items total).collectionState = .ok ∨
      (successfulInventory now items total).collectionState = .partially) ∧
    collected (successfulInventory now items total) = true := by
  unfold collected successfulInventory
  dsimp only
  split_ifs
  · exact ⟨Or.inr rfl, rfl⟩
  · exact ⟨Or.inl rfl, rfl⟩

/-- An inventory of observed containers is projected if its items are. -/
theorem projectContainers_successful {now : Instant} {items : List (Container F)} {total : ℕ}
    (hnow : ClockReading now) (hlen : items.length ≤ maxContainers) (htotal : items.length ≤ total)
    (hexact : total ≤ maxExactInteger) (hnodup : (items.map Container.idAlias).Nodup)
    (hrow : ∀ v ∈ items, containerRow v = some (shownContainer v)) :
    ∃ s, projectContainers (successfulInventory now items total) = some s := by
  obtain ⟨hstate, hcollected⟩ := collected_successful now items total
  rcases projectContainers_cases
    (show (successfulInventory now items total).schemaVersion = _ from rfl) with
    ⟨-, heq⟩ | ⟨hno, -⟩
  · rw [heq]
    exact ⟨_, collectedContainers_iff.2 ⟨⟨((clockReading_iff now).1 hnow).1,
      validTime_format hnow, hstate, hlen.trans (by decide), rfl, htotal, hexact, rfl⟩,
      hnodup, hrow, rfl⟩⟩
  · exact absurd (hno.symm.trans hcollected) Bool.false_ne_true

theorem projectContainers_unobserved {support : Support} (h : support ≠ .supported)
    (reason : Reason) :
    (∃ s, projectContainers (unobserved (F := F) support reason) = some s) ∧
      ¬ Brimful (unobserved (F := F) support reason) := by
  have hcollected : collected (unobserved (F := F) support reason) = false := by
    simp [collected, unobserved, h]
  refine ⟨?_, fun hbrim => absurd (hcollected.symm.trans hbrim.collected) Bool.false_ne_true⟩
  rcases projectContainers_cases
    (show (unobserved (F := F) support reason).schemaVersion = _ from rfl) with
    ⟨hyes, -⟩ | ⟨-, state, reason, -, heq⟩
  · exact absurd (hcollected.symm.trans hyes) Bool.false_ne_true
  · exact ⟨_, heq⟩

/-- A row of a container that runs has both values unless it is incomplete. -/
theorem values_of_complete {r : ContainerRow F} (hvalid : validContainer r = true)
    (hcomplete : incomplete r = false) (hrunning : r.state = .running) :
    r.cpu.isSome ∧ r.memory.isSome := by
  obtain ⟨-, -, -, -, -, -, hmetrics⟩ := validContainer_iff.1 hvalid
  unfold validMetrics at hmetrics
  rw [if_neg (not_not.2 hrunning)] at hmetrics
  unfold incomplete at hcomplete
  cases hstate : r.metricsState <;> rw [hstate] at hmetrics hcomplete
  · simp only [Bool.and_eq_true] at hmetrics
    exact hmetrics.1
  · cases hcomplete
  · cases hcomplete
  · cases hmetrics
  · cases hmetrics

/-- **A section that is available is complete**: nothing was truncated, and every container that
    runs has both values. -/
theorem available_complete {inv : Inventory F} {s : Section (ContainerRow F)}
    (h : projectContainers inv = some s)
    (havailable : (fitContainers s).quality.state = .available) :
    inv.truncated = false ∧ (fitContainers s).truncated = false ∧
      ∀ c ∈ inv.items, c.state = .running → c.cpuPercent.isSome ∧ c.memoryBytes.isSome := by
  have hspec := projectContainers_spec h
  have hfit : fitContainers s =
      { s with cpuBasis := containerBasis, returned := s.items.length } := by
    have hfitted : Fitted (containerRowCodec F) _ _ (fitContainers s) :=
      fitSection_cases _ Workload.maxContainers
    generalize fitContainers s = r at hfitted havailable
    cases hfitted with
    | whole _ _ => rfl
    | part | edge => cases havailable
  rw [hfit] at havailable ⊢
  have hquality : s.quality.state = .available := havailable
  obtain ⟨hread, hwhole, hsection⟩ := hspec.available hquality
  refine ⟨hwhole, hsection, fun c hc hrunning => ?_⟩
  rw [← hread] at hc
  exact values_of_complete (containerRow_spec (hspec.rows c hc)).2
    (hspec.complete (by rw [hquality]; decide) c hc) hrunning

end

/-! ## Workers -/

/-- The counters that a call uses. -/
def callCell : engine.Call → Option Bytes
  | .stats _ => none
  | .loadPrior idAlias => some idAlias
  | .storePrior idAlias _ => some idAlias

theorem handleCall_cellwise (cycle : Cycle) : Cellwise (handleCall cycle) callCell where
  frame := by
    intro c s b hb
    cases c with
    | stats | loadPrior => rfl
    | storePrior idAlias current =>
      have hne : b ≠ idAlias := fun h => hb (congrArg some h.symm)
      exact Function.update_of_ne hne _ _
  answer := by
    intro c s s' h
    cases c with
    | stats id => rfl
    | loadPrior idAlias => exact h idAlias rfl
    | storePrior idAlias current => rfl
  write := by
    intro c s s' a ha hs
    cases c with
    | stats id => cases ha
    | loadPrior idAlias => exact hs
    | storePrior idAlias current =>
      cases ha
      show Function.update s a (some current) a = Function.update s' a (some current) a
      rw [Function.update_self, Function.update_self]

theorem storeCounters_confined (idAlias : Bytes) (current : Option CpuCounters) :
    (storeCounters idAlias current).Confined callCell idAlias := by
  cases current with
  | none => trivial
  | some current => exact ⟨fun b hb => (Option.some.inj hb).symm, fun _ => trivial⟩

section
variable {β γ : Type} (cycle : Cycle) (f : EngineContainer → Bool → β)
  (sources : List EngineContainer)

/-- Something for each container, first for those that a worker was handed. -/
def Cycle.each : List β :=
  (sources.take cycle.handed).map (f · true) ++ (sources.drop cycle.handed).map (f · false)

theorem Cycle.map_each (g : β → γ) :
    (cycle.each f sources).map g = cycle.each (fun source handed => g (f source handed)) sources := by
  simp only [Cycle.each, List.map_append, List.map_map]
  rfl

theorem Cycle.each_map (f : EngineContainer → β) :
    cycle.each (fun source _ => f source) sources = sources.map f := by
  rw [Cycle.each, ← List.map_append, List.take_append_drop]

theorem Cycle.length_each : (cycle.each f sources).length = sources.length := by
  rw [Cycle.each, List.length_append, List.length_map, List.length_map, ← List.length_append,
    List.take_append_drop]

variable {cycle f sources} in
theorem Cycle.mem_each {x : β} (h : x ∈ cycle.each f sources) :
    ∃ source ∈ sources, ∃ handed, x = f source handed := by
  rcases List.mem_append.1 h with h | h
  · obtain ⟨source, hsource, rfl⟩ := List.mem_map.1 h
    exact ⟨source, List.mem_of_mem_take hsource, true, rfl⟩
  · obtain ⟨source, hsource, rfl⟩ := List.mem_map.1 h
    exact ⟨source, List.mem_of_mem_drop hsource, false, rfl⟩

end

section
variable [Sha256] {F : Type} [Float64 F]

theorem observeStats_confined (source : EngineContainer) (stats : Except EngineError EngineStats) :
    (observeStats (F := F) source stats).Confined callCell (aliasFor source.id) := by
  cases stats with
  | error e => trivial
  | ok stats =>
    exact ⟨fun b hb => (Option.some.inj hb).symm, fun _ =>
      (storeCounters_confined (aliasFor source.id) (currentCpuCounters stats)).bind fun _ => trivial⟩

theorem aliasPattern_aliasFor (id : Bytes) : aliasPattern (aliasFor id) = true := by
  obtain ⟨hlen, hall⟩ := hexText_form ((Sha256.sum256 id).toList.take 8)
  have h8 : ((Sha256.sum256 id).toList.take 8).length = 8 := by simp
  have hdrop : (aliasFor id).drop (ascii "ctr_").length =
      hexText ((Sha256.sum256 id).toList.take 8) := List.drop_left
  have hlead : (ascii "ctr_").isPrefixOf (aliasFor id) = true :=
    List.isPrefixOf_iff_prefix.2 ⟨_, rfl⟩
  rw [aliasPattern, hexTagged, hdrop, hlead, hall, hlen, h8]
  rfl

variable [EngineJson]

/-- A worker uses the counters of its container only. -/
theorem observeContainer_confined (engineOs : List Char) (source : EngineContainer) :
    (observeContainer (F := F) engineOs source).Confined callCell (aliasFor source.id) := by
  unfold observeContainer
  split_ifs
  · trivial
  · trivial
  · exact ⟨fun b hb => (nomatch hb), fun reply => observeStats_confined source _⟩

variable (F) in
/-- What a worker returns, and the counters it leaves, if it works alone. -/
def alone (cycle : Cycle) (engineOs : List Char) (prior : PriorCpu) (source : EngineContainer) :
    PriorCpu × Container F :=
  Prog.finish (handleCall cycle) prior (observeContainer engineOs source)

variable {cycle : Cycle} {engineOs : List Char} {prior : PriorCpu} {source : EngineContainer}

/-- **Every container is observed as if it were alone**, whatever the schedule. -/
theorem runTasks_spec {sources : List EngineContainer}
    (hapart : (sources.map fun c => aliasFor c.id).Nodup) :
    (runTasks F cycle engineOs prior sources).2 =
        sources.map (fun c => (alone F cycle engineOs prior c).2) ∧
      (∀ c ∈ sources, (runTasks F cycle engineOs prior sources).1 (aliasFor c.id) =
        (alone F cycle engineOs prior c).1 (aliasFor c.id)) ∧
      ∀ b, b ∉ sources.map (fun c => aliasFor c.id) →
        (runTasks F cycle engineOs prior sources).1 b = prior b := by
  have hseparate : Pool.Separate callCell (tasks F engineOs prior sources).threads := by
    refine ⟨?_, List.forall_mem_map.2 fun c _ => observeContainer_confined engineOs c⟩
    rw [tasks, List.map_map]
    exact hapart
  have hrun : runTasks F cycle engineOs prior sources =
      Pool.drain (handleCall cycle) prior (tasks F engineOs prior sources).threads :=
    Pool.drain_run (handleCall_cellwise cycle) hseparate cycle.schedule
  obtain ⟨hresults, hcells, hrest⟩ := Pool.drain_spec (handleCall_cellwise cycle) hseparate prior
  rw [hrun]
  rw [tasks, List.map_map] at hrest hresults
  exact ⟨hresults, List.forall_mem_map.1 hcells, hrest⟩

/-! ## Items -/

/-- How a container appears in an inventory: without counters, for some reason, or with what its
    counters give. -/
inductive Observed (cycle : Cycle) (prior : PriorCpu) (source : EngineContainer) :
    Container F → Prop
  | without (reason : Reason) :
      Observed cycle prior source (normalizedContainer source none none (some reason))
  | counters (stats : EngineStats) (hrunning : normalizeState source.state = .running)
      (hstats : getJson maxStatsBody EngineJson.stats (cycle.stats source.id) = .ok stats) :
      Observed cycle prior source (normalizedContainer source (some stats)
        (cpuPercent stats (prior (aliasFor source.id))) none)

variable (F) in
/-- The item of a container that a worker was handed. -/
def Cycle.seen (cycle : Cycle) (engineOs : List Char) (prior : PriorCpu)
    (source : EngineContainer) : Container F :=
  if normalizeState source.state ≠ .running then
    normalizedContainer source none none (some .notRunning)
  else if engineOs ≠ "linux".toList then
    normalizedContainer source none none (some .engineOsUnsupported)
  else
    match getJson maxStatsBody EngineJson.stats (cycle.stats source.id) with
    | .error e => normalizedContainer source none none (some (reasonCode e))
    | .ok stats => normalizedContainer source (some stats)
        (cpuPercent stats (prior (aliasFor source.id))) none

/-- **What a worker returns alone** follows from the answers of the engine. -/
theorem alone_eq :
    (alone F cycle engineOs prior source).2 = cycle.seen F engineOs prior source := by
  unfold alone observeContainer Cycle.seen
  split_ifs
  · rfl
  · rfl
  · show (Prog.finish (handleCall cycle) prior (observeStats source
      (getJson maxStatsBody EngineJson.stats (cycle.stats source.id)))).2 = _
    cases getJson maxStatsBody EngineJson.stats (cycle.stats source.id) with
    | error e => rfl
    | ok stats =>
      show (Prog.finish (handleCall cycle) prior
        (storeCounters (aliasFor source.id) (currentCpuCounters stats) >>= fun _ =>
          Prog.ret (normalizedContainer source (some stats)
            (cpuPercent stats (prior (aliasFor source.id))) none))).2 = _
      rw [Prog.finish_bind]
      rfl

theorem alone_kept {c : CpuCounters}
    (h : (alone F cycle engineOs prior source).1 (aliasFor source.id) = some c) :
    prior (aliasFor source.id) = some c ∨
      ∃ stats, getJson maxStatsBody EngineJson.stats (cycle.stats source.id) = .ok stats ∧
        currentCpuCounters stats = some c := by
  unfold alone observeContainer at h
  split_ifs at h
  · exact Or.inl h
  · exact Or.inl h
  · replace h : (Prog.finish (handleCall cycle) prior (observeStats (F := F) source
        (getJson maxStatsBody EngineJson.stats (cycle.stats source.id)))).1
        (aliasFor source.id) = some c := h
    cases hstats : getJson maxStatsBody EngineJson.stats (cycle.stats source.id) with
    | error e =>
      rw [hstats] at h
      exact Or.inl h
    | ok stats =>
      rw [hstats] at h
      cases hcurrent : currentCpuCounters stats with
      | none =>
        rw [observeStats, hcurrent] at h
        exact Or.inl h
      | some current =>
        rw [observeStats, hcurrent] at h
        have hkept : Function.update prior (aliasFor source.id) (some current)
            (aliasFor source.id) = some c := h
        rw [Function.update_self] at hkept
        exact Or.inr ⟨stats, rfl, hcurrent.trans hkept⟩

/-- The texts of a container: those of the engine, cleaned. -/
def cleanName (source : EngineContainer) : List Char :=
  sanitizeMetadata (firstName source.names) 128 "container"

def cleanImage (source : EngineContainer) : List Char := sanitizeMetadata source.image 256 "unknown"

/-- What an item says of its container, whatever became of the counters. -/
theorem Observed.identity {item : Container F} (h : Observed cycle prior source item) :
    item.name = Utf8.encode (cleanName source) ∧ item.image = Utf8.encode (cleanImage source) ∧
      item.state = normalizeState source.state := by
  unfold cleanName cleanImage
  cases h <;> simp only [normalizedContainer, and_self]

theorem Observed.idAlias {item : Container F} (h : Observed cycle prior source item) :
    item.idAlias = aliasFor source.id := by
  cases h <;> rfl

variable (F) in
/-- The item of a container, whether or not a worker was handed it. -/
def Cycle.item (cycle : Cycle) (engineOs : List Char) (prior : PriorCpu) (source : EngineContainer)
    (handed : Bool) : Container F :=
  if handed then cycle.seen F engineOs prior source
  else normalizedContainer source none none
    (some (if cycle.deadline then .deadlineExceeded else .collectionCanceled))

theorem observed_item (handed : Bool) :
    Observed cycle prior source (cycle.item F engineOs prior source handed) := by
  cases handed with
  | false => exact .without _
  | true =>
    rw [Cycle.item, if_pos rfl, Cycle.seen]
    split_ifs with hstate hos
    · exact .without _
    · exact .without _
    · cases hstats : getJson maxStatsBody EngineJson.stats (cycle.stats source.id) with
      | error e => exact .without _
      | ok stats => exact .counters stats (not_not.1 hstate) hstats

/-- **The items of an inventory are the containers that were listed**, each as it was observed. -/
theorem observeListed_items {listed : List EngineContainer}
    (hapart : (listed.map fun c => aliasFor c.id).Nodup) :
    ∃ items : List (Container F),
      (observeListed cycle engineOs prior listed).2 =
        successfulInventory cycle.now items listed.length ∧
      items.Perm (cycle.each (cycle.item F engineOs prior) (listed.take maxContainers)) := by
  have htake : (((listed.take maxContainers).take cycle.handed).map fun c => aliasFor c.id).Nodup :=
    hapart.sublist (((List.take_sublist _ _).trans (List.take_sublist _ _)).map _)
  refine ⟨_, rfl, ?_⟩
  have hseen : ((listed.take maxContainers).take cycle.handed).map
      (fun c => (alone F cycle engineOs prior c).2) =
      ((listed.take maxContainers).take cycle.handed).map
        fun c => cycle.item F engineOs prior c true :=
    List.map_congr_left fun c _ => alone_eq
  rw [(runTasks_spec htake).1, hseen]
  unfold gather
  by_cases hleft : ((listed.take maxContainers).drop cycle.handed).isEmpty
  · rw [if_pos hleft, Cycle.each, List.isEmpty_iff.1 hleft, List.map_nil, List.append_nil]
    exact List.mergeSort_perm _ _
  · rw [if_neg hleft]
    exact .refl _

/-! ## Rows -/

/-- The metrics of an item that was observed agree with its state. -/
theorem Observed.metrics {item : Container F} (h : Observed cycle prior source item)
    (name image : Bytes) :
    validMetrics (⟨item.idAlias, name, image, item.state, item.cpuPercent,
      item.memoryBytes, item.metricsState, rowReason item⟩ : ContainerRow F) =
      true := by
  cases h with
  | without reason =>
    have hreason := metricReason_listed (some reason)
    unfold validMetrics rowReason normalizedContainer
    dsimp only
    by_cases hrunning : normalizeState source.state = .running
    · simpa [hrunning, or_assoc] using hreason
    · simp [hrunning]
  | counters stats hrunning hstats =>
    unfold validMetrics rowReason normalizedContainer
    dsimp only
    rw [if_neg (not_not.2 hrunning)]
    generalize cpuPercent (F := F) stats (prior (aliasFor source.id)) = cpu
    obtain ⟨-, -, -, -, -, -, memory⟩ := stats
    cases cpu <;> cases memory <;> rfl

/-- What the claim of an item to a row rests on: its texts fit and its memory is exact. -/
theorem Observed.row {item : Container F} (h : Observed cycle prior source item)
    (hname : item.name.length ≤ 128) (himage : item.image.length ≤ 240)
    (hmemory : ∀ m, item.memoryBytes = some m → m ≤ maxExactInteger) :
    containerRow item = some (shownContainer item) := by
  obtain ⟨hsaid, hshown, hsource⟩ := h.identity
  have hutf : Admissible item.name ∧ Admissible item.image :=
    ⟨⟨Utf8.valid_iff.2 ⟨_, hsaid.symm⟩, by omega⟩, ⟨Utf8.valid_iff.2 ⟨_, hshown.symm⟩, by omega⟩⟩
  have hstate : containerState item.state = true := by
    rw [hsource]
    exact decide_eq_true (normalizeState_ne_other _)
  have hcpu : ∀ x, item.cpuPercent = some x → percent x = true := by
    intro x hx
    cases h with
    | without reason => cases hx
    | counters stats _ _ =>
      obtain ⟨-, -, -, -, -, -, hpercent⟩ := cpuPercent_spec hx
      exact hpercent
  have halias : aliasPattern item.idAlias = true := by
    rw [h.idAlias]
    exact aliasPattern_aliasFor source.id
  obtain ⟨hnameValid, himageValid⟩ := (shownContainer_texts hutf.1 hutf.2).2
    ⟨not_cutsSecret hname, not_cutsSecret himage⟩
  rw [containerRow_iff hutf.1 hutf.2]
  exact validContainer_iff.2
    ⟨halias, hnameValid, himageValid, hstate, hcpu, hmemory, h.metrics _ _⟩

/-- The row of a container with the given metrics. -/
def metricsRow (source : EngineContainer) (cpu : Option F) (memory : Option ℕ) (metrics : Metrics)
    (reason : Option Reason) : ContainerRow F where
  idAlias := aliasFor source.id
  name := shown (Utf8.encode (cleanName source)) 128 false
  image := shown (Utf8.encode (cleanImage source)) 240 false
  state := normalizeState source.state
  cpu := cpu
  memory := memory
  metricsState := metrics
  reason := reason

variable (F) in
/-- The row that a container amounts to, given the answers of the engine and the counters that
    were kept. -/
def Cycle.row (cycle : Cycle) (engineOs : List Char) (prior : PriorCpu) (source : EngineContainer)
    (handed : Bool) : ContainerRow F :=
  let without (reason : Reason) := metricsRow source none none .unavailable (some reason)
  if normalizeState source.state ≠ .running then
    metricsRow source none none .notRunning (some .notRunning)
  else if handed = false then
    without (if cycle.deadline then .deadlineExceeded else .collectionCanceled)
  else if engineOs ≠ "linux".toList then without .unsupported
  else
    match getJson maxStatsBody EngineJson.stats (cycle.stats source.id) with
    | .error e => without (metricReason (some (reasonCode e)))
    | .ok stats =>
      let cpu := cpuPercent stats (prior (aliasFor source.id))
      match cpu, stats.memoryUsage with
      | some _, some _ => metricsRow source cpu stats.memoryUsage .available none
      | none, none => without .invalidCounter
      | _, _ => metricsRow source cpu stats.memoryUsage .partially (some .invalidCounter)

omit [Float64 F] [EngineJson] in
theorem shown_without (source : EngineContainer) (reason : Reason) :
    shownContainer (normalizedContainer (F := F) source none none (some reason)) =
      if normalizeState source.state ≠ .running then
        metricsRow source none none .notRunning (some .notRunning)
      else metricsRow source none none .unavailable (some (metricReason (some reason))) := by
  by_cases h : normalizeState source.state = .running
  · simp [shownContainer, normalizedContainer, metricsRow, rowReason, cleanName,
      cleanImage, h]
  · simp [shownContainer, normalizedContainer, metricsRow, rowReason, cleanName,
      cleanImage, h]

/-- **The rows follow from the answers of the engine.** -/
theorem shown_item (handed : Bool) :
    shownContainer (cycle.item F engineOs prior source handed) =
      cycle.row F engineOs prior source handed := by
  unfold Cycle.item Cycle.row
  dsimp only
  cases handed with
  | false =>
    rw [if_neg Bool.false_ne_true, shown_without, if_pos rfl]
    cases cycle.deadline <;> rfl
  | true =>
    rw [if_pos rfl, if_neg (by decide : ¬ true = false)]
    unfold Cycle.seen
    split_ifs with hstate hos
    · rw [shown_without, if_pos hstate]
    · rw [shown_without, if_neg hstate]
      rfl
    · cases getJson maxStatsBody EngineJson.stats (cycle.stats source.id) with
      | error e =>
        dsimp only
        rw [shown_without, if_neg hstate]
      | ok stats =>
        dsimp only
        generalize cpuPercent (F := F) stats (prior (aliasFor source.id)) = cpu
        obtain ⟨-, -, -, -, -, -, memory⟩ := stats
        cases cpu <;> cases memory <;>
          simp [shownContainer, normalizedContainer, metricsRow, metricsOf,
            rowReason, metricReason, cleanName, cleanImage]

/-- The item makes a collection partial. -/
def failed (c : Container F) : Bool :=
  c.metricsState ≠ .available && c.reasonCode.any (· ≠ .notRunning)

/-- A container that no worker was handed counts as a failure, and one that was only if its
    metrics are incomplete. -/
theorem failed_item :
    failed (cycle.item F engineOs prior source false) = true ∧
      (failed (cycle.item F engineOs prior source true) = true →
        incomplete (cycle.row F engineOs prior source true) = true) := by
  constructor
  · by_cases hstate : normalizeState source.state = .running <;> cases hdeadline : cycle.deadline <;>
      simp [Cycle.item, failed, normalizedContainer, hstate, hdeadline]
  · unfold Cycle.item Cycle.seen Cycle.row
    dsimp only
    rw [if_pos rfl, if_neg (by decide : ¬ true = false)]
    split_ifs with hstate hos
    · simp [failed, normalizedContainer]
    · exact fun _ => rfl
    · cases getJson maxStatsBody EngineJson.stats (cycle.stats source.id) with
      | error e => exact fun _ => rfl
      | ok stats =>
        dsimp only
        generalize cpuPercent (F := F) stats (prior (aliasFor source.id)) = cpu
        obtain ⟨-, -, -, -, -, -, memory⟩ := stats
        cases cpu <;> cases memory <;> simp [failed, normalizedContainer, metricsOf, metricsRow,
          incomplete]

/-! ## Runs -/

/-- The containers that the engine lists in a cycle. -/
def Cycle.listed (cycle : Cycle) : List EngineContainer :=
  match listContainers cycle.containers with
  | .ok listed => listed
  | .error _ => []

variable (F) in
/-- The rows that the listed containers amount to. -/
def Cycle.rows (cycle : Cycle) (engineOs : List Char) (prior : PriorCpu) :
    List (ContainerRow F) := cycle.each (cycle.row F engineOs prior) cycle.listed

variable (F) in
/-- An engine of the given system lists few enough containers, not all were observed with their
    metrics, and their rows make a section that is too long by one byte. -/
structure Cycle.Brimful (cycle : Cycle) (engineOs : List Char) (prior : PriorCpu) : Prop where
  version : ∃ version, negotiateVersion cycle.version = .ok (version, engineOs)
  few : cycle.listed.length ≤ maxContainers
  lacking : cycle.handed < cycle.listed.length ∨
    ∃ r ∈ cycle.rows F engineOs prior, incomplete r = true
  size : (degradedSection (some (formatRFC3339Nano cycle.now))
    (cycle.rows F engineOs prior)).size (containerRowCodec F) =
      maxSectionBytes + 1

/-- The aliases of the containers that are listed in the cycles do not collide. -/
def NoCollision (cycles : List Cycle) : Prop :=
  ∀ c ∈ cycles, ∀ d ∈ cycles, ∀ a ∈ c.listed, ∀ b ∈ d.listed,
    aliasFor a.id = aliasFor b.id → a.id = b.id

/-- The readings of a cycle are exact, its time can be printed, and its texts fit. -/
structure Cycle.Admissible (cycle : Cycle) : Prop where
  now : ClockReading cycle.now
  memory : ∀ source ∈ cycle.listed.take maxContainers, ∀ stats,
    getJson maxStatsBody EngineJson.stats (cycle.stats source.id) = .ok stats →
      ∀ m, stats.memoryUsage = some m → m ≤ maxExactInteger
  name : ∀ source ∈ cycle.listed.take maxContainers,
    (Utf8.encode (cleanName source)).length ≤ 128
  image : ∀ source ∈ cycle.listed.take maxContainers,
    (Utf8.encode (cleanImage source)).length ≤ 240

/-- One cycle after the other. -/
def collectAll (c : Collector F) (cycles : List Cycle) : Collector F :=
  cycles.foldl (fun c cycle => (c.collect cycle).1) c

/-- The counters are those that were kept for the container at first, or those that it had in
    one of the cycles. -/
def Kept (start : PriorCpu) (past : List Cycle) (id : Bytes) (c : CpuCounters) : Prop :=
  start (aliasFor id) = some c ∨ ∃ cycle ∈ past, ∃ stats,
    getJson maxStatsBody EngineJson.stats (cycle.stats id) = .ok stats ∧
      currentCpuCounters stats = some c

/-- Every entry was there at first or is the one of a container that was listed in a cycle. -/
def Traced (start : PriorCpu) (past : List Cycle) (prior : PriorCpu) : Prop :=
  ∀ idAlias c, prior idAlias = some c → start idAlias = some c ∨
    ∃ cycle ∈ past, ∃ source ∈ cycle.listed, aliasFor source.id = idAlias ∧ ∃ stats,
      getJson maxStatsBody EngineJson.stats (cycle.stats source.id) = .ok stats ∧
        currentCpuCounters stats = some c

theorem nodup_aliases {cycles : List Cycle} (h : NoCollision cycles) {cycle : Cycle}
    (hmem : cycle ∈ cycles) : (cycle.listed.map fun c => aliasFor c.id).Nodup := by
  have hids : (cycle.listed.map EngineContainer.id).Nodup := by
    unfold Cycle.listed
    cases hlist : listContainers cycle.containers with
    | error e => exact List.nodup_nil
    | ok listed => exact (listContainers_spec hlist).1
  have hmap : (cycle.listed.map fun c => aliasFor c.id) =
      (cycle.listed.map EngineContainer.id).map aliasFor := by
    rw [List.map_map]
    rfl
  rw [hmap]
  refine hids.map_on fun a ha b hb heq => ?_
  obtain ⟨x, hx, rfl⟩ := List.mem_map.1 ha
  obtain ⟨y, hy, rfl⟩ := List.mem_map.1 hb
  exact h cycle hmem cycle hmem x hx y hy heq

theorem observe_cases (cycle : Cycle) (prior : PriorCpu) :
    (∃ e, observe (F := F) cycle prior = (prior, failedInventory e) ∧
      ((negotiateVersion cycle.version).toBool = true → cycle.listed = [])) ∨
    ∃ version engineOs, negotiateVersion cycle.version = .ok (version, engineOs) ∧
      observe (F := F) cycle prior = observeListed cycle engineOs prior cycle.listed ∧
      cycle.listed.length ≤ maxInventoryBody := by
  unfold observe
  cases hversion : negotiateVersion cycle.version with
  | error e => exact Or.inl ⟨e, rfl, nofun⟩
  | ok version =>
    unfold Cycle.listed
    cases hlist : listContainers cycle.containers with
    | error e => exact Or.inl ⟨e, rfl, fun _ => rfl⟩
    | ok listed => exact Or.inr ⟨version.1, version.2, rfl, rfl, (listContainers_spec hlist).2⟩

theorem observeListed_kept {listed : List EngineContainer} (hapart : (listed.map fun c => aliasFor c.id).Nodup)
    {idAlias : Bytes} {c : CpuCounters}
    (h : (observeListed (F := F) cycle engineOs prior listed).1 idAlias = some c) :
    prior idAlias = some c ∨ ∃ source ∈ listed, aliasFor source.id = idAlias ∧ ∃ stats,
      getJson maxStatsBody EngineJson.stats (cycle.stats source.id) = .ok stats ∧
        currentCpuCounters stats = some c := by
  have hsub : ((listed.take maxContainers).take cycle.handed).Sublist listed :=
    (List.take_sublist _ _).trans (List.take_sublist _ _)
  obtain ⟨-, hcells, hrest⟩ := runTasks_spec (F := F) (hapart.sublist (hsub.map _))
  have hshared : (runTasks F cycle engineOs prior
      ((listed.take maxContainers).take cycle.handed)).1 idAlias = some c := by
    unfold observeListed pruneCpu at h
    dsimp only at h
    split_ifs at h
    exact h
  by_cases hown : idAlias ∈
      ((listed.take maxContainers).take cycle.handed).map fun c => aliasFor c.id
  · obtain ⟨source, hsource, rfl⟩ := List.mem_map.1 hown
    rw [hcells source hsource] at hshared
    rcases alone_kept hshared with h | h
    · exact Or.inl h
    · exact Or.inr ⟨source, hsub.subset hsource, rfl, h⟩
  · exact Or.inl ((hrest idAlias hown).symm.trans hshared)

/-- A cycle keeps counters of the containers it lists. -/
theorem Traced.collect {start : PriorCpu} {past : List Cycle} {c : Collector F}
    (h : Traced start past c.priorCpu)
    (hapart : (cycle.listed.map fun c => aliasFor c.id).Nodup) :
    Traced start (past ++ [cycle]) (c.collect cycle).1.priorCpu := by
  have hearlier : Traced start (past ++ [cycle]) c.priorCpu := by
    intro idAlias counters hc
    rcases h idAlias counters hc with hstart | ⟨d, hd, hrest⟩
    · exact Or.inl hstart
    · exact Or.inr ⟨d, List.mem_append_left _ hd, hrest⟩
  unfold Collector.collect
  split_ifs with hdisabled
  · exact hearlier
  · show Traced start (past ++ [cycle]) (observe (F := F) cycle c.priorCpu).1
    rcases observe_cases (F := F) cycle c.priorCpu with
      ⟨e, heq, -⟩ | ⟨version, engineOs, -, heq, -⟩
    · rw [heq]
      exact hearlier
    · rw [heq]
      intro idAlias counters hc
      rcases observeListed_kept hapart hc with hprior | ⟨source, hsource, hstats⟩
      · exact hearlier idAlias counters hprior
      · exact Or.inr ⟨cycle, List.mem_append_right _ (List.mem_singleton_self _), source, hsource,
          hstats⟩

theorem traced_collectAll (start : Collector F) (past : List Cycle) (h : NoCollision past) :
    Traced start.priorCpu past (collectAll start past).priorCpu := by
  induction past using List.reverseRecOn with
  | nil => exact fun _ _ hc => Or.inl hc
  | append_singleton past cycle ih =>
    have hpast : NoCollision past := fun c hc d hd =>
      h c (List.mem_append_left _ hc) d (List.mem_append_left _ hd)
    have hrun : collectAll start (past ++ [cycle]) = ((collectAll start past).collect cycle).1 := by
      rw [collectAll, List.foldl_append]
      rfl
    rw [hrun]
    exact (ih hpast).collect (nodup_aliases h (List.mem_append_right _ (List.mem_singleton_self _)))

theorem disabled_collectAll (start : Collector F) (past : List Cycle) :
    (collectAll start past).disabled = start.disabled := by
  induction past generalizing start with
  | nil => rfl
  | cons cycle past ih =>
    refine (ih _).trans ?_
    show (start.collect cycle).1.disabled = start.disabled
    unfold Collector.collect
    split_ifs <;> rfl

/-- What is known of the inventory of a collector. -/
theorem collect_cases (c : Collector F) (cycle : Cycle) :
    (∃ support reason, (c.collect cycle).2 = unobserved support reason ∧ support ≠ .supported ∧
      (c.disabled = false → (negotiateVersion cycle.version).toBool = true → cycle.listed = [])) ∨
    c.disabled = false ∧ ∃ version engineOs,
      negotiateVersion cycle.version = .ok (version, engineOs) ∧
      (c.collect cycle).2 = (observeListed cycle engineOs c.priorCpu cycle.listed).2 ∧
      cycle.listed.length ≤ maxInventoryBody := by
  unfold Collector.collect
  split_ifs with hdisabled
  · refine Or.inl ⟨_, _, c.idle hdisabled, by decide, fun h => ?_⟩
    rw [hdisabled] at h
    cases h
  · rcases observe_cases (F := F) cycle c.priorCpu with
      ⟨e, heq, hnone⟩ | ⟨version, engineOs, hversion, heq, hlen⟩
    · dsimp only
      rw [heq]
      refine Or.inl ⟨_, _, rfl, ?_, fun _ => hnone⟩
      split_ifs <;> decide
    · dsimp only
      rw [heq]
      exact Or.inr ⟨Bool.eq_false_of_not_eq_true hdisabled, version, engineOs, hversion, rfl, hlen⟩

/-- **An inventory is brimful if the answers of the engine make it so.** -/
theorem brimful_observeListed
    (hapart : (cycle.listed.map fun c => aliasFor c.id).Nodup)
    (hversion : ∃ version, negotiateVersion cycle.version = .ok (version, engineOs)) :
    Brimful (observeListed (F := F) cycle engineOs prior cycle.listed).2 ↔
      cycle.Brimful F engineOs prior := by
  obtain ⟨items, heq, hperm⟩ := observeListed_items (F := F) hapart
  have hlen : items.length = min maxContainers cycle.listed.length := by
    rw [hperm.length_eq, Cycle.length_each, List.length_take]
  rw [heq]
  -- the workers may finish in any order, but neither count nor length depends on it
  have hall (hfew : cycle.listed.length ≤ maxContainers) :
      items.Perm (cycle.each (cycle.item F engineOs prior) cycle.listed) := by
    rwa [List.take_of_length_le hfew] at hperm
  have hrows (hfew : cycle.listed.length ≤ maxContainers) :
      (items.map shownContainer).Perm (cycle.rows F engineOs prior) := by
    have h := (hall hfew).map shownContainer
    rw [Cycle.map_each] at h
    simp only [shown_item] at h
    exact h
  have hsize (hfew : cycle.listed.length ≤ maxContainers) :
      (degradedSection (some (formatRFC3339Nano cycle.now))
        (items.map shownContainer)).size (containerRowCodec F) =
      (degradedSection (some (formatRFC3339Nano cycle.now))
        (cycle.rows F engineOs prior)).size (containerRowCodec F) := by
    have h := Section.size_perm (containerRowCodec F)
      (s := degradedSection (some (formatRFC3339Nano cycle.now))
        (cycle.rows F engineOs prior)) (hrows hfew)
    rw [← h]
    simp only [degradedSection, (hrows hfew).length_eq]
  have hstate : (successfulInventory cycle.now items cycle.listed.length).collectionState =
      .partially ↔ ∃ v ∈ items, failed v = true := by
    rw [← List.any_eq_true]
    show (if items.any failed then Collection.partially else .ok) = _ ↔ _
    split_ifs with h
    · exact iff_of_true rfl h
    · exact iff_of_false (by decide) h
  have hincomplete (v : Container F) : (v.metricsState = .partially ∨
      v.metricsState = .unavailable) ↔ incomplete (shownContainer v) = true := by
    rw [incomplete, Bool.or_eq_true, decide_eq_true_iff, decide_eq_true_iff]
    rfl
  constructor
  · rintro ⟨-, -, hcount, hlacking, hedge⟩
    have hfew : cycle.listed.length ≤ maxContainers := by
      have : cycle.listed.length = items.length := hcount
      omega
    refine ⟨hversion, hfew, ?_, (hsize hfew).symm.trans hedge⟩
    have hrow {v : Container F} (hv : v ∈ items)
        (h : incomplete (shownContainer v) = true) :
        ∃ r ∈ cycle.rows F engineOs prior, incomplete r = true :=
      ⟨_, (hrows hfew).mem_iff.1 (List.mem_map_of_mem hv), h⟩
    rcases hlacking with hpartial | ⟨v, hv, hmetrics⟩
    · obtain ⟨v, hv, hfailed⟩ := hstate.1 hpartial
      rcases List.mem_append.1 ((hall hfew).mem_iff.1 hv) with hseen | hleft
      · obtain ⟨source, -, rfl⟩ := List.mem_map.1 hseen
        refine Or.inr (hrow hv ?_)
        rw [shown_item]
        exact failed_item.2 hfailed
      · obtain ⟨source, hsource, -⟩ := List.mem_map.1 hleft
        have := List.length_pos_of_mem hsource
        rw [List.length_drop] at this
        exact Or.inl (by omega)
    · exact Or.inr (hrow hv ((hincomplete v).1 hmetrics))
  · rintro ⟨-, hfew, hlacking, hedge⟩
    refine ⟨(collected_successful _ _ _).2, hlen.trans_le (min_le_left _ _), ?_, ?_,
      (hsize hfew).trans hedge⟩
    · show cycle.listed.length = items.length
      omega
    · rcases hlacking with hleft | ⟨r, hr, hmetrics⟩
      · refine Or.inl (hstate.2 ?_)
        obtain ⟨source, hsource⟩ : ∃ source, source ∈ cycle.listed.drop cycle.handed :=
          List.exists_mem_of_ne_nil _ (by rw [ne_eq, List.drop_eq_nil_iff]; omega)
        exact ⟨_, (hall hfew).mem_iff.2 (List.mem_append_right _ (List.mem_map_of_mem hsource)),
          failed_item.1⟩
      · obtain ⟨v, hv, rfl⟩ := List.mem_map.1 ((hrows hfew).mem_iff.2 hr)
        exact Or.inr ⟨v, hv, (hincomplete v).2 hmetrics⟩

theorem brimful_collect (c : Collector F)
    (hapart : (cycle.listed.map fun c => aliasFor c.id).Nodup) :
    Brimful (c.collect cycle).2 ↔
      c.disabled = false ∧ ∃ engineOs, cycle.Brimful F engineOs c.priorCpu := by
  rcases collect_cases c cycle with ⟨support, reason, heq, hsupport, hnone⟩ |
    ⟨hdisabled, version, engineOs, hversion, heq, -⟩
  · rw [heq]
    refine iff_of_false (projectContainers_unobserved hsupport reason).2 ?_
    rintro ⟨hdisabled, engineOs, ⟨version, hversion⟩, -, hlacking, -⟩
    have hlisted := hnone hdisabled (by rw [hversion]; rfl)
    rw [Cycle.rows, hlisted] at hlacking
    rcases hlacking with h | ⟨r, hr, -⟩
    · exact absurd h (Nat.not_lt_zero _)
    · obtain ⟨source, hsource, -⟩ := Cycle.mem_each hr
      cases hsource
  · rw [heq, brimful_observeListed hapart ⟨version, hversion⟩]
    refine ⟨fun h => ⟨hdisabled, engineOs, h⟩, ?_⟩
    rintro ⟨-, engineOs', h⟩
    obtain ⟨version', hversion'⟩ := h.version
    rw [hversion] at hversion'
    cases hversion'
    exact h

/-- What is known of the items of an inventory. -/
structure Faithful (cycle : Cycle) (prior : PriorCpu) (inv : Inventory F) : Prop where
  projectable : ∃ s, projectContainers inv = some s
  once : ∀ source ∈ cycle.listed.take maxContainers,
    (inv.items.map Container.idAlias).count (aliasFor source.id) = 1
  observed : ∀ item ∈ inv.items, ∃ source ∈ cycle.listed.take maxContainers,
    Observed cycle prior source item

/-- **The inventory of the listed containers can be projected**, has each of them once, and
    nothing else. -/
theorem faithful_observeListed
    (hcycle : cycle.Admissible) (hapart : (cycle.listed.map fun c => aliasFor c.id).Nodup)
    (hlen : cycle.listed.length ≤ maxInventoryBody) :
    Faithful (F := F) cycle prior (observeListed cycle engineOs prior cycle.listed).2 := by
  obtain ⟨items, heq, hperm⟩ := observeListed_items (F := F) hapart
  rw [heq]
  have haliases : (items.map Container.idAlias).Perm
      ((cycle.listed.take maxContainers).map fun c => aliasFor c.id) := by
    have h := hperm.map Container.idAlias
    rw [Cycle.map_each] at h
    simpa only [(observed_item _).idAlias, Cycle.each_map] using h
  have hnodup : (items.map Container.idAlias).Nodup :=
    haliases.nodup_iff.2 (hapart.sublist ((List.take_sublist _ _).map _))
  have hsource : ∀ item ∈ items, ∃ source ∈ cycle.listed.take maxContainers,
      Observed cycle prior source item := by
    intro item hitem
    obtain ⟨source, hsource, handed, rfl⟩ := Cycle.mem_each (hperm.mem_iff.1 hitem)
    exact ⟨source, hsource, observed_item handed⟩
  have hlength : items.length = (cycle.listed.take maxContainers).length := by
    rw [hperm.length_eq, Cycle.length_each]
  refine ⟨?_, fun source hmem => ?_, hsource⟩
  · refine projectContainers_successful hcycle.now (hlength.trans_le (List.length_take_le _ _))
      (hlength.trans_le (List.take_sublist _ _).length_le) (hlen.trans (by decide)) hnodup ?_
    intro item hitem
    obtain ⟨source, hmem, h⟩ := hsource item hitem
    obtain ⟨hname, himage, -⟩ := h.identity
    refine h.row (hname ▸ hcycle.name source hmem) (himage ▸ hcycle.image source hmem) ?_
    intro m hm
    cases h with
    | without reason => cases hm
    | counters stats hrunning hstats => exact hcycle.memory source hmem stats hstats m hm
  · refine List.count_eq_one_of_mem hnodup (haliases.mem_iff.2 ?_)
    exact List.mem_map_of_mem hmem

/-- The inventory of a cycle whose data can be printed is projected, or brimful. -/
theorem containerSection_collect (c : Collector F) (hcycle : cycle.Admissible)
    (hapart : (cycle.listed.map fun c => aliasFor c.id).Nodup) :
    (∃ s, containerSection (c.collect cycle).2 = .ok s) ↔
      ¬ (c.disabled = false ∧ ∃ engineOs, cycle.Brimful F engineOs c.priorCpu) := by
  have hprojected : ∃ s, projectContainers (c.collect cycle).2 = some s := by
    rcases collect_cases c cycle with ⟨support, reason, heq, hsupport, -⟩ |
      ⟨-, version, engineOs, -, heq, hlen⟩
    · rw [heq]
      exact (projectContainers_unobserved hsupport reason).1
    · rw [heq]
      exact (faithful_observeListed hcycle hapart hlen).projectable
  obtain ⟨s, hs⟩ := hprojected
  rw [← brimful_collect c hapart, ← fitContainers_valid hs]
  constructor
  · rintro ⟨s', hs'⟩
    obtain ⟨s'', hs'', -, hvalid⟩ := containerSection_eq_ok.1 hs'
    obtain rfl := Option.some.inj (hs.symm.trans hs'')
    exact hvalid
  · exact fun hvalid => ⟨_, containerSection_eq_ok.2 ⟨s, hs, rfl, hvalid⟩⟩

/-- **Every inventory that the collector returns can be projected**, unless the answers of the
    engine make it brimful.  The section is available only if every container that runs has both
    values and nothing was truncated, each of the first containers that the engine lists is there
    once, and a percentage comes from counters of one container that did not go backwards. -/
theorem collected_projectable (start : Collector F) (past : List Cycle) (cycle : Cycle)
    (hdistinct : NoCollision (past ++ [cycle])) (hcycle : cycle.Admissible) :
    ((∃ s, containerSection ((collectAll start past).collect cycle).2 = .ok s) ↔
      ¬ (start.disabled = false ∧
        ∃ engineOs, cycle.Brimful F engineOs (collectAll start past).priorCpu)) ∧
    (∀ s, containerSection ((collectAll start past).collect cycle).2 = .ok s →
      s.quality.state = .available →
        ((collectAll start past).collect cycle).2.truncated = false ∧ s.truncated = false ∧
        ∀ c ∈ ((collectAll start past).collect cycle).2.items, c.state = .running →
          c.cpuPercent.isSome ∧ c.memoryBytes.isSome) ∧
    (start.disabled = false → (negotiateVersion cycle.version).toBool = true →
      ∀ source ∈ cycle.listed.take maxContainers,
        (((collectAll start past).collect cycle).2.items.map Container.idAlias).count
          (aliasFor source.id) = 1) ∧
    ∀ item ∈ ((collectAll start past).collect cycle).2.items, ∀ v, item.cpuPercent = some v →
      ∃ source ∈ cycle.listed.take maxContainers, item.idAlias = aliasFor source.id ∧
      ∃ stats current total system,
        getJson maxStatsBody EngineJson.stats (cycle.stats source.id) = .ok stats ∧
        currentCpuCounters stats = some current ∧ FromCounters v current total system ∧
        ((stats.preTotalUsage = some total ∧ stats.preSystemUsage = some system) ∨
          ∃ kept, Kept start.priorCpu past source.id kept ∧ kept.total = total ∧
            kept.system = system) := by
  have hmem : cycle ∈ past ++ [cycle] := List.mem_append_right _ (List.mem_singleton_self _)
  have hapart := nodup_aliases hdistinct hmem
  have htraced := traced_collectAll start past fun c hc d hd =>
    hdistinct c (List.mem_append_left _ hc) d (List.mem_append_left _ hd)
  refine ⟨?_, ?_, ?_⟩
  · rw [← disabled_collectAll start past]
    exact containerSection_collect _ hcycle hapart
  · intro s hs
    obtain ⟨c, hc, rfl, -⟩ := containerSection_eq_ok.1 hs
    exact available_complete hc
  rcases collect_cases (collectAll start past) cycle with ⟨support, reason, heq, -, hnone⟩ |
    ⟨-, version, engineOs, -, heq, hlen⟩
  · rw [heq, ← disabled_collectAll start past]
    refine ⟨fun hdisabled hversion source hsource => ?_, fun item hitem => absurd hitem
      List.not_mem_nil⟩
    rw [hnone hdisabled hversion] at hsource
    cases hsource
  · have hfaithful : Faithful cycle (collectAll start past).priorCpu
        ((collectAll start past).collect cycle).2 := by
      rw [heq]
      exact faithful_observeListed hcycle hapart hlen
    refine ⟨fun _ _ => hfaithful.once, fun item hitem v hv => ?_⟩
    obtain ⟨source, hsource, hobserved⟩ := hfaithful.observed item hitem
    refine ⟨source, hsource, hobserved.idAlias, ?_⟩
    cases hobserved with
    | without reason => cases hv
    | counters stats hrunning hstats =>
      obtain ⟨current, total, system, hcurrent, hprevious, hfrom, -⟩ := cpuPercent_spec hv
      refine ⟨stats, current, total, system, hstats, hcurrent, hfrom, ?_⟩
      rcases previousCounters_cases hprevious with hsame | ⟨kept, hkept, htotal, hsystem⟩
      · exact Or.inl hsame
      · refine Or.inr ⟨kept, ?_, htotal, hsystem⟩
        -- kept under this alias, so by a container with this id: aliases do not collide
        rcases htraced _ kept hkept with hstart | ⟨d, hd, other, hother, halias, hread⟩
        · exact Or.inl hstart
        · have hid : other.id = source.id :=
            hdistinct d (List.mem_append_left _ hd) cycle hmem other hother source
              (List.mem_of_mem_take hsource) halias
          rw [hid] at hread
          exact Or.inr ⟨d, hd, hread⟩

end

/-! ## An engine at work -/

/-- A digest that starts with the text itself. -/
@[reducible] def leadingDigest : Sha256 :=
  ⟨fun b => Vector.ofFn fun i => (b[i.val]?).getD 0⟩

def webContainer : EngineContainer :=
  ⟨ascii "00112233445566", ["/web".toList], "nginx:1".toList, "running".toList⟩

def webStats (total system : ℕ) : EngineStats :=
  ⟨some total, [], some system, 2, none, none, some 4096⟩

/-- An engine with one container; its answers are told apart by their length. -/
@[reducible] def webEngine : EngineJson where
  version _ := some ⟨"1.43".toList, [], "linux".toList⟩
  containers b := if 1 ≤ b.length then some (some [webContainer]) else none
  stats b := some (webStats (100 * b.length) (1000 * b.length))
  bounded := by
    intro b l h
    split_ifs at h with hb
    cases h
    exact hb

/-- A cycle in which the counters of the container are the `n`-th. -/
def webCycle (n : ℕ) : Cycle where
  version := .answered 200 0 (some [])
  containers := .answered 200 1 (some [32])
  stats _ := .answered 200 (-1) (some (List.replicate n 32))
  handed := 1
  deadline := false
  schedule := [0]
  now := sampleTime

def webCollector : Collector ℕ := ⟨false, notRun .collectorNotRun, fun _ => none, nofun⟩

/-- What the collector returns in its second cycle. -/
def webInventory : Inventory ℕ :=
  letI := leadingDigest
  letI := webEngine
  ((collectAll webCollector [webCycle 1]).collect (webCycle 2)).2

theorem collected_projectable_web :
    (∃ s, containerSection webInventory = .ok s) ∧
      webInventory.items.map Container.cpuPercent = [some 10] := by
  let _ := leadingDigest
  let _ := webEngine
  have hlisted (n : ℕ) : (webCycle n).listed = [webContainer] := rfl
  have hcomplete : (((webCycle 2).rows ℕ "linux".toList
      (collectAll webCollector [webCycle 1]).priorCpu).any incomplete) = false := by
    decide +kernel
  have hroom : ¬ (webCollector.disabled = false ∧ ∃ engineOs,
      (webCycle 2).Brimful ℕ engineOs (collectAll webCollector [webCycle 1]).priorCpu) := by
    rintro ⟨-, engineOs, ⟨version, hversion⟩, -, hlacking, -⟩
    have hlinux : negotiateVersion (webCycle 2).version = .ok ((1, 43), "linux".toList) := rfl
    obtain ⟨-, rfl⟩ := Prod.mk.inj (Except.ok.inj (hlinux.symm.trans hversion))
    rcases hlacking with h | h
    · exact absurd h (by rw [hlisted]; decide)
    · rw [List.any_eq_true.2 h] at hcomplete
      cases hcomplete
  have hdistinct : NoCollision ([webCycle 1] ++ [webCycle 2]) := by
    have hall : ∀ c ∈ [webCycle 1] ++ [webCycle 2], c.listed = [webContainer] := by
      simp [hlisted]
    intro c hc d hd a ha b hb _
    rw [hall c hc, List.mem_singleton] at ha
    rw [hall d hd, List.mem_singleton] at hb
    rw [ha, hb]
  have hcycle : (webCycle 2).Admissible := by
    refine ⟨by decide, fun source _ stats hstats m hm => ?_, ?_, ?_⟩
    · obtain ⟨b, -, hb⟩ := getJson_ok hstats
      cases hb
      cases hm
      decide
    · rw [hlisted]
      decide +kernel
    · rw [hlisted]
      decide +kernel
  exact ⟨(collected_projectable webCollector [webCycle 1] (webCycle 2) hdistinct hcycle).1.2 hroom,
    by decide +kernel⟩

/-! ## At the edge -/

/-- The names and images are made of characters that take six bytes in JSON. -/
def edgeName : List Char := List.replicate 128 '<'

def edgeImage : List Char := List.replicate 153 '<' ++ List.replicate 4 '#'

def edgeContainer (i : ℕ) : EngineContainer :=
  ⟨fixed 2 i ++ ascii "0000000000", ['/' :: edgeName], edgeImage, "running".toList⟩

def edgeContainers : List EngineContainer := (List.range 70).map edgeContainer

/-- An engine with seventy containers whose counters are not read. -/
@[reducible] def edgeEngine : EngineJson where
  version _ := some ⟨"1.43".toList, [], "windows".toList⟩
  containers b := if 70 ≤ b.length then some (some edgeContainers) else none
  stats _ := none
  bounded := by
    intro b l h
    split_ifs at h with hb
    cases h
    exact hb

def edgeCycle : Cycle where
  version := .answered 200 0 (some [])
  containers := .answered 200 (-1) (some (List.replicate 70 32))
  stats _ := .notSent
  handed := 70
  deadline := false
  schedule := []
  now := sampleTime + 123400000

/-- The row of each of the containers. -/
def edgeRow (idAlias : Bytes) : ContainerRow ℕ :=
  ⟨idAlias, Utf8.encode edgeName, Utf8.encode edgeImage, .running, none, none, .unavailable,
    some .unsupported⟩

theorem length_edgeRow {idAlias : Bytes} (h : aliasPattern idAlias = true) :
    (Json.render ((containerRowCodec ℕ).toJson (edgeRow idAlias))).length = 1861 := by
  have hnames : ((["id_alias", "name", "image", "state", "cpu_percent", "memory_bytes",
      "metrics_state", "reason_code"].map ascii).map fun k => (Json.renderString k).length).sum =
      85 := by decide
  have halias : (Json.renderString idAlias).length = 22 := by
    simp only [aliasPattern, hexTagged, Bool.and_eq_true, decide_eq_true_eq,
      List.isPrefixOf_iff_prefix] at h
    obtain ⟨⟨⟨rest, rfl⟩, hlen⟩, hhex⟩ := h
    rw [List.drop_left] at hlen hhex
    have hplain : Json.PlainString (ascii "ctr_" ++ rest) := by
      intro b hb
      rcases List.mem_append.1 hb with hb | hb
      · exact (by decide : Json.PlainString (ascii "ctr_")) b hb
      · exact Json.plain_of_hexByte hhex b hb
    rw [Json.length_renderString_plain hplain, List.length_append, hlen]
    rfl
  have hname : (Json.renderString (Utf8.encode edgeName)).length = 770 := by decide +kernel
  have himage : (Json.renderString (Utf8.encode edgeImage)).length = 924 := by decide +kernel
  have hrest : ([containerStateCodec.toJson .running, .null, .null,
      metricsCodec.toJson .unavailable, reasonCodec.toJson .unsupported].map
        fun v => (Json.render v).length).sum = 43 := by decide
  have hobj : (Json.render ((containerRowCodec ℕ).toJson (edgeRow idAlias))).length =
      ((["id_alias", "name", "image", "state", "cpu_percent", "memory_bytes", "metrics_state",
        "reason_code"].map ascii).map fun k => (Json.renderString k).length).sum +
      ((Json.renderString idAlias).length + ((Json.renderString (Utf8.encode edgeName)).length +
        ((Json.renderString (Utf8.encode edgeImage)).length +
          ([containerStateCodec.toJson .running, .null, .null,
            metricsCodec.toJson .unavailable, reasonCodec.toJson .unsupported].map
              fun v => (Json.render v).length).sum))) + 2 * 8 + 1 :=
    Json.length_render_obj (List.cons_ne_nil _ _) (by rfl)
  rw [hobj, hnames, halias, hname, himage, hrest]

theorem clean_edge (i : ℕ) :
    cleanName (edgeContainer i) = edgeName ∧ cleanImage (edgeContainer i) = edgeImage := by
  have hname : sanitizeMetadata (firstName ['/' :: edgeName]) 128 "container" = edgeName := by
    decide +kernel
  have himage : sanitizeMetadata edgeImage 256 "unknown" = edgeImage := by decide +kernel
  exact ⟨hname, himage⟩

theorem display_edge :
    display (Utf8.encode edgeName) 128 false = some (Utf8.encode edgeName) ∧
      display (Utf8.encode edgeImage) 240 false = some (Utf8.encode edgeImage) := by
  decide +kernel

theorem listed_edge : @Cycle.listed edgeEngine edgeCycle = edgeContainers := by
  have hids : (edgeContainers.all fun c => containerIdPattern c.id) = true ∧
      (edgeContainers.map EngineContainer.id).Nodup := by decide
  let _ := edgeEngine
  have hjson : getJson maxInventoryBody EngineJson.containers edgeCycle.containers =
      .ok (some edgeContainers) := rfl
  have hlist : listContainers edgeCycle.containers = .ok edgeContainers := by
    rw [listContainers, hjson, ok_bind]
    exact if_pos hids
  rw [Cycle.listed, hlist]

theorem length_edgeContainers : edgeContainers.length = 70 := by
  rw [edgeContainers, List.length_map, List.length_range]

theorem rows_edge [Sha256] (prior : PriorCpu) :
    @Cycle.rows _ ℕ _ edgeEngine edgeCycle "windows".toList prior =
      (List.range 70).map fun i => edgeRow (aliasFor (edgeContainer i).id) := by
  obtain ⟨hdisplay, hdisplay'⟩ := display_edge
  let _ := edgeEngine
  have hrow (i : ℕ) : edgeCycle.row ℕ "windows".toList prior (edgeContainer i) true =
      edgeRow (aliasFor (edgeContainer i).id) := by
    obtain ⟨hname, himage⟩ := clean_edge i
    have hrunning : normalizeState (edgeContainer i).state = .running :=
      (by decide : normalizeState "running".toList = .running)
    have hos : "windows".toList ≠ "linux".toList := by decide
    unfold Cycle.row metricsRow
    dsimp only
    rw [if_neg (not_not.2 hrunning), if_neg (by decide), if_pos hos, hname, himage, hrunning,
      shown, shown, hdisplay, hdisplay']
    rfl
  have hhanded : edgeContainers.length ≤ edgeCycle.handed := length_edgeContainers.le
  rw [Cycle.rows, listed_edge, Cycle.each, List.take_of_length_le hhanded,
    List.drop_of_length_le hhanded, List.map_nil, List.append_nil, edgeContainers, List.map_map]
  exact List.map_congr_left fun i _ => hrow i

/-- The section of the containers is too long by one byte. -/
theorem brimful_edge [Sha256] (prior : PriorCpu) :
    @Cycle.Brimful _ ℕ _ edgeEngine edgeCycle "windows".toList prior := by
  let _ := edgeEngine
  have hrows := rows_edge prior
  refine ⟨⟨(1, 43), rfl⟩, ?_, Or.inr ?_, ?_⟩
  · rw [listed_edge, length_edgeContainers]
    decide
  · rw [hrows]
    exact ⟨_, List.mem_map_of_mem (List.mem_range.2 (by decide : 0 < 70)), rfl⟩
  · have hlength : ((List.range 70).map fun i => edgeRow (aliasFor (edgeContainer i).id)).length =
        70 := by
      rw [List.length_map, List.length_range]
    have hsize := itemsSize_uniform (List.ne_nil_of_length_pos (by omega))
      (List.forall_mem_map.2 fun i (_ : i ∈ List.range 70) =>
        length_edgeRow (aliasPattern_aliasFor (edgeContainer i).id))
    have htime : (Json.render (optionalText.toJson
        (some (formatRFC3339Nano edgeCycle.now)))).length = 27 := by decide
    have hbasis : (Json.renderString containerBasis).length = 22 := by decide
    have htotal : (Json.render (optionalNatural.toJson (some 70))).length = 2 := by
      decide
    have hdigits : (decimal 70).length = 2 := by decide
    rw [hrows, degradedSection, Section.size_eq]
    dsimp only
    rw [qualitySize_degraded, hbasis, htime, hlength, hdigits, htotal, hsize, hlength,
      if_neg (by decide)]
    rfl

/-- What the collector returns in such a cycle. -/
def edgeInventory : Inventory ℕ :=
  letI := leadingDigest
  letI := edgeEngine
  (webCollector.collect edgeCycle).2

/-- An inventory of seventy containers that the projection refuses: with the mark of a truncated
    section all of them fit, and then the mark is wrong. -/
theorem edge_refused :
    @NoCollision leadingDigest edgeEngine [edgeCycle] ∧
      @Cycle.Admissible edgeEngine edgeCycle ∧ edgeInventory.items.length = 70 ∧
      containerSection edgeInventory = .error .data := by
  let _ := leadingDigest
  let _ := edgeEngine
  have haliases : (edgeContainers.map fun c => aliasFor c.id).Nodup := by decide
  have hlisted : edgeCycle.listed = edgeContainers := listed_edge
  have hdistinct : NoCollision [edgeCycle] := by
    intro c hc d hd a ha b hb heq
    rw [List.mem_singleton.1 hc, hlisted] at ha
    rw [List.mem_singleton.1 hd, hlisted] at hb
    exact congrArg EngineContainer.id (List.inj_on_of_nodup_map haliases ha hb heq)
  have hcycle : edgeCycle.Admissible := by
    have hclean : ∀ source ∈ edgeCycle.listed.take maxContainers,
        cleanName source = edgeName ∧ cleanImage source = edgeImage := by
      intro source hsource
      rw [hlisted] at hsource
      obtain ⟨i, -, rfl⟩ := List.mem_map.1 (List.mem_of_mem_take hsource)
      exact clean_edge i
    refine ⟨by decide, fun source _ stats hstats => (nomatch hstats), ?_, ?_⟩
    · intro source hsource
      rw [(hclean source hsource).1]
      decide +kernel
    · intro source hsource
      rw [(hclean source hsource).2]
      decide +kernel
  have hapart := nodup_aliases hdistinct (List.mem_singleton_self _)
  refine ⟨hdistinct, hcycle, ?_, containerSection_error fun haccepted =>
    (containerSection_collect webCollector hcycle hapart).1 haccepted
      ⟨rfl, _, brimful_edge webCollector.priorCpu⟩⟩
  have heq : edgeInventory =
      (observeListed edgeCycle "windows".toList webCollector.priorCpu edgeCycle.listed).2 := by
    rcases collect_cases webCollector edgeCycle with ⟨-, -, -, -, hnone⟩ |
      ⟨-, version, engineOs, hversion, heq, -⟩
    · have := hnone rfl rfl
      rw [hlisted] at this
      cases this
    · cases hversion
      exact heq
  obtain ⟨items, hitems, hperm⟩ :=
    observeListed_items (F := ℕ) hapart
  rw [heq, hitems]
  show items.length = 70
  rw [hperm.length_eq, Cycle.length_each, hlisted, List.length_take, length_edgeContainers]
  rfl

end Containers

end HomeLab
