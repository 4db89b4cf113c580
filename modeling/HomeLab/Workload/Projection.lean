/-
  The workload projection.

  Processes and containers are copied row by row into the sections of a
  document.  A section is bounded in its rows and in its encoded length
  (`fitSection`), checked (`validSection`) and printed as JSON.  `encode` builds
  the document in one go; `projectContainers` makes the section of containers
  alone, which `bytes` and `parseContainers` carry through a file and
  `encodeProcessesAndContainers` puts into a document later.
-/
import HomeLab.Containers.Inventory
import HomeLab.Lib.Timestamp
import HomeLab.Observation.Snapshot
import HomeLab.Workload.Text

namespace HomeLab

namespace Workload

open Containers (Metrics Reason)
open Observation (SupportState)
open Fields (field nil)

def schemaVersion : Bytes := ascii "home-lab-workload-inventory/v1"

def profile : Bytes := ascii "process-container/v1"

def maxBytes : ℕ := 256 * 1024

def maxSectionBytes : ℕ := (maxBytes - 1024) / 2

def maxProcesses : ℕ := 200

def maxContainers : ℕ := 500

def maxInputRows : ℕ := 4096

def maxExactInteger : ℕ := 2 ^ 53 - 1

inductive Error where
  | envelope
  | data
  | validation
  deriving DecidableEq

structure Identity where
  sourceId : Bytes
  version : Bytes

structure Consent where
  processes : Bool
  containers : Bool

/-! ## Documents -/

structure Quality where
  state : SupportState
  reason : Option Reason
  deriving DecidableEq

structure Section (α : Type) where
  quality : Quality
  cpuBasis : Bytes
  observedAt : Option Bytes
  returned : ℕ
  total : Option ℕ
  truncated : Bool
  items : List α

inductive ProcessState where
  | running
  | sleeping
  | stopped
  | zombie
  | idle
  | waiting
  | unknown
  deriving DecidableEq

structure ProcessRow (F : Type) where
  pid : Int32
  name : Bytes
  state : ProcessState
  cpu : Option F
  memory : Option ℕ
  elapsed : Option ℕ

structure ContainerRow (F : Type) where
  idAlias : Bytes
  name : Bytes
  image : Bytes
  state : Containers.State
  cpu : Option F
  memory : Option ℕ
  metricsState : Metrics
  reason : Option Reason

structure Policy where
  classification : Bytes
  readOnly : Bool
  processes : Bool
  containers : Bool

structure Document (F : Type) where
  schema : Bytes
  profile : Bytes
  source : Bytes
  version : Bytes
  collectedAt : Bytes
  policy : Policy
  processes : Section (ProcessRow F)
  containers : Section (ContainerRow F)

/-! ## JSON -/

def supportText : SupportState → Bytes
  | .available => ascii "AVAILABLE"
  | .degraded => ascii "DEGRADED"
  | .unavailable => ascii "UNAVAILABLE"
  | .disabled => ascii "DISABLED"
  | .permissionDenied => ascii "PERMISSION_DENIED"
  | .unsupported => ascii "UNSUPPORTED"
  | .unknown => ascii "UNKNOWN"
  | .other => []

def supportStates : List SupportState :=
  [.available, .degraded, .unavailable, .disabled, .permissionDenied, .unsupported, .unknown]

def supportCodec : Codec SupportState := .enumeration supportText supportStates

def reasonText : Reason → Bytes
  | .apiVersionUnsupported => ascii "API_VERSION_UNSUPPORTED"
  | .invalidRequest => ascii "INVALID_REQUEST"
  | .invalidResponse => ascii "INVALID_RESPONSE"
  | .redirectRejected => ascii "REDIRECT_REJECTED"
  | .engineResponseError => ascii "ENGINE_RESPONSE_ERROR"
  | .responseTooLarge => ascii "RESPONSE_TOO_LARGE"
  | .engineUnavailable => ascii "ENGINE_UNAVAILABLE"
  | .engineOsUnsupported => ascii "ENGINE_OS_UNSUPPORTED"
  | .statsUnavailable => ascii "STATS_UNAVAILABLE"
  | .statsPartial => ascii "STATS_PARTIAL"
  | .metricCounterInvalid => ascii "METRIC_COUNTER_INVALID"
  | .collectorNotRun => ascii "COLLECTOR_NOT_RUN"
  | .dockerNotConfigured => ascii "DOCKER_NOT_CONFIGURED"
  | .notRunning => ascii "NOT_RUNNING"
  | .permissionDenied => ascii "PERMISSION_DENIED"
  | .deadlineExceeded => ascii "DEADLINE_EXCEEDED"
  | .collectionCanceled => ascii "COLLECTION_CANCELED"
  | .partialCollection => ascii "PARTIAL_COLLECTION"
  | .disabledByConfiguration => ascii "DISABLED_BY_CONFIGURATION"
  | .unsupported => ascii "UNSUPPORTED"
  | .noData => ascii "NO_DATA"
  | .collectionFailed => ascii "COLLECTION_FAILED"
  | .notYetObserved => ascii "NOT_YET_OBSERVED"
  | .invalidCounter => ascii "INVALID_COUNTER"
  | .metricUnavailable => ascii "METRIC_UNAVAILABLE"
  | .other => []

/-- The reasons that a document may give. -/
def documentReasons : List Reason :=
  [.notRunning, .permissionDenied, .deadlineExceeded, .collectionCanceled, .partialCollection,
   .disabledByConfiguration, .unsupported, .noData, .collectionFailed, .notYetObserved,
   .invalidCounter, .metricUnavailable]

def reasonCodec : Codec Reason := .enumeration reasonText documentReasons

def processStateText : ProcessState → Bytes
  | .running => ascii "running"
  | .sleeping => ascii "sleeping"
  | .stopped => ascii "stopped"
  | .zombie => ascii "zombie"
  | .idle => ascii "idle"
  | .waiting => ascii "waiting"
  | .unknown => ascii "unknown"

def processStates : List ProcessState :=
  [.running, .sleeping, .stopped, .zombie, .idle, .waiting, .unknown]

def processStateCodec : Codec ProcessState :=
  .enumeration processStateText processStates

def containerStateText : Containers.State → Bytes
  | .unknown => ascii "unknown"
  | .created => ascii "created"
  | .running => ascii "running"
  | .paused => ascii "paused"
  | .restarting => ascii "restarting"
  | .removing => ascii "removing"
  | .exited => ascii "exited"
  | .dead => ascii "dead"
  | .other => []

def containerStates : List Containers.State :=
  [.unknown, .created, .running, .paused, .restarting, .removing, .exited, .dead]

def containerStateCodec : Codec Containers.State :=
  .enumeration containerStateText containerStates

def metricsText : Metrics → Bytes
  | .available => ascii "AVAILABLE"
  | .partially => ascii "PARTIAL"
  | .unavailable => ascii "UNAVAILABLE"
  | .notRunning => ascii "NOT_RUNNING"
  | .other => []

def metricsStates : List Metrics := [.available, .partially, .unavailable, .notRunning]

def metricsCodec : Codec Metrics := .enumeration metricsText metricsStates

/-- A process identifier; those that are not positive are refused by every check. -/
def pidCodec : Codec Int32 where
  toJson p := .num (decimal p.toInt.toNat)
  ofJson v := (Codec.natural.ofJson v).bind fun n =>
    if n < 2 ^ 31 then some (Int32.ofInt n) else none
  Good p := 0 ≤ p.toInt
  wellFormed p := Json.wellFormed_decimal _
  decoded {v p} h := by
    obtain ⟨n, -, h⟩ := Option.bind_eq_some_iff.1 h
    split_ifs at h with hn
    cases h
    rw [Int32.toInt_ofInt_of_le (by omega) (by omega)]
    exact Int.natCast_nonneg n
  encoded {p} h := by
    have hlt := Int32.toInt_lt p
    have hread := Codec.natural.encoded (a := p.toInt.toNat) (show _ < 2 ^ 64 by omega)
    refine Option.bind_eq_some_iff.2 ⟨p.toInt.toNat, hread, ?_⟩
    rw [if_pos (by omega), Int.toNat_of_nonneg h, Int32.ofInt_toInt]

def optionalText : Codec (Option Bytes) := .nullable .string Codec.string_solid

def optionalNatural : Codec (Option ℕ) := .nullable .natural

def optionalReason : Codec (Option Reason) := .nullable reasonCodec

def qualityCodec : Codec Quality :=
  .record (field "state" supportCodec <| field "reason_code" optionalReason nil)
    (fun v => (v.state, v.reason, ())) Quality.mk

def sectionCodec {α : Type} (item : Codec α) : Codec (Section α) :=
  .record
    (field "quality" qualityCodec <| field "cpu_measurement_basis" .string <|
      field "observed_at" optionalText <| field "returned_count" .natural <|
      field "total_count" optionalNatural <| field "truncated" .boolean <|
      field "items" (.list item) nil)
    (fun s => (s.quality, s.cpuBasis, s.observedAt, s.returned, s.total, s.truncated, s.items, ()))
    Section.mk

section
variable (F : Type) [Float64 F]

def optionalFloat : Codec (Option F) := .nullable Float64.codec Float64.solid

def processRowCodec : Codec (ProcessRow F) :=
  .record
    (field "pid" pidCodec <| field "name" .string <| field "state" processStateCodec <|
      field "cpu_percent" (optionalFloat F) <| field "memory_rss_bytes" optionalNatural <|
      field "elapsed_seconds" optionalNatural nil)
    (fun r => (r.pid, r.name, r.state, r.cpu, r.memory, r.elapsed, ())) ProcessRow.mk

def containerRowCodec : Codec (ContainerRow F) :=
  .record
    (field "id_alias" .string <| field "name" .string <| field "image" .string <|
      field "state" containerStateCodec <| field "cpu_percent" (optionalFloat F) <|
      field "memory_bytes" optionalNatural <| field "metrics_state" metricsCodec <|
      field "reason_code" optionalReason nil)
    (fun r => (r.idAlias, r.name, r.image, r.state, r.cpu, r.memory, r.metricsState, r.reason, ()))
    ContainerRow.mk

end

def policyCodec : Codec Policy :=
  .record
    (field "data_classification" .string <| field "read_only" .boolean <|
      field "processes_enabled" .boolean <| field "containers_enabled" .boolean nil)
    (fun p => (p.classification, p.readOnly, p.processes, p.containers, ())) Policy.mk

section
variable (F : Type) [Float64 F]

def documentCodec : Codec (Document F) :=
  .record
    (field "schema_version" .string <| field "projection_profile" .string <|
      field "source_id" .string <| field "collector_version" .string <|
      field "collected_at" .string <| field "policy" policyCodec <|
      field "processes" (sectionCodec (processRowCodec F)) <|
      field "containers" (sectionCodec (containerRowCodec F)) nil)
    (fun d => (d.schema, d.profile, d.source, d.version, d.collectedAt, d.policy, d.processes,
        d.containers, ())) Document.mk

end

/-- `json.Marshal` -/
def marshal {α : Type} (c : Codec α) (a : α) : Bytes := Json.render (c.toJson a)

/-- `json.Unmarshal` -/
def unmarshal {α : Type} (c : Codec α) (b : Bytes) : Option α := (Json.parse b).bind c.ofJson

/-! ## Quality -/

def q : SupportState → Option Reason → Quality
  | .available, _ => ⟨.available, none⟩
  | .degraded, _ => ⟨.degraded, some .partialCollection⟩
  | .disabled, _ => ⟨.disabled, some .disabledByConfiguration⟩
  | .permissionDenied, _ => ⟨.permissionDenied, some .permissionDenied⟩
  | .unsupported, _ => ⟨.unsupported, some .unsupported⟩
  | .unavailable, some .deadlineExceeded => ⟨.unavailable, some .deadlineExceeded⟩
  | .unavailable, some .collectionCanceled => ⟨.unavailable, some .collectionCanceled⟩
  | .unavailable, some .noData => ⟨.unavailable, some .noData⟩
  | .unavailable, _ => ⟨.unavailable, some .collectionFailed⟩
  | .unknown, _ => ⟨.unknown, some .notYetObserved⟩
  | .other, _ => ⟨.unknown, some .notYetObserved⟩

/-- A section without rows. -/
def empty (α : Type) (state : SupportState) (reason : Option Reason) : Section α where
  quality := q state reason
  cpuBasis := []
  observedAt := none
  returned := 0
  total := none
  truncated := false
  items := []

/-! ## Patterns -/

/-- `tag` followed by `n` lower-case hexadecimal digits. -/
def hexTagged (tag : Bytes) (n : ℕ) (s : Bytes) : Bool :=
  tag.isPrefixOf s && (s.drop tag.length).length = n && (s.drop tag.length).all hexByte

def sourcePattern : Bytes → Bool := hexTagged (ascii "srv_") 32

def aliasPattern : Bytes → Bool := hexTagged (ascii "ctr_") 16

/-- `[0-9]+\.[0-9]+\.[0-9]+(?:-[A-Za-z0-9.-]+)?` -/
def versionRegex : Regex :=
  .sequence [.repeats Char.isDigit 1 none, .exactText ".", .repeats Char.isDigit 1 none,
    .exactText ".", .repeats Char.isDigit 1 none,
    .optional (.sequence [.exactText "-",
      .repeats (fun c => c.isAlphanum || c = '.' || c = '-') 1 none])]

def versionPattern (v : Bytes) : Bool :=
  (Utf8.decode v).any fun text => (versionRegex.run none text).any fun x => x.2.isEmpty

def validTime (value : Bytes) : Bool :=
  (parseRFC3339 value).any fun t =>
    t ≠ 0 && 1 ≤ year t && year t ≤ 9999 && formatRFC3339Nano t = value

/-! ## Rows -/

/-- One row for each value, if every value has one and no key occurs twice; `seen` are the
    keys of the earlier values. -/
def collectRows {α β κ : Type} [DecidableEq κ] (key : β → κ) (row : β → Option α)
    (seen : List κ) : List β → Option (List α)
  | [] => some []
  | v :: vs =>
    if key v ∈ seen then none
    else (row v).bind fun r => (collectRows key row (key v :: seen) vs).map (r :: ·)

/-- All rows are valid, no key occurs twice, and no row should stand before the one that
    precedes it. -/
def checkRows {α κ : Type} [DecidableEq κ] (key : α → κ) (valid : α → Bool)
    (before : α → α → Bool) : List κ → Option α → List α → Bool
  | _, _, [] => true
  | seen, prior, v :: vs =>
    key v ∉ seen && valid v && prior.all (fun p => !before v p) &&
      checkRows key valid before (key v :: seen) (some v) vs

section
variable {F : Type} [Float64 F]

def percent (v : F) : Bool := Float64.within 100 v

def processPercent (v : F) : Bool := Float64.within 409600 v

def processState (raw : Bytes) : ProcessState :=
  if raw = ascii "running" ∨ raw = ascii "R" then .running
  else if raw = ascii "sleep" ∨ raw = ascii "sleeping" ∨ raw = ascii "S" then .sleeping
  else if raw = ascii "stop" ∨ raw = ascii "stopped" ∨ raw = ascii "tracing-stop" ∨
    raw = ascii "T" then .stopped
  else if raw = ascii "zombie" ∨ raw = ascii "Z" then .zombie
  else if raw = ascii "idle" ∨ raw = ascii "I" then .idle
  else if raw = ascii "wait" ∨ raw = ascii "waiting" ∨ raw = ascii "disk-sleep" ∨
    raw = ascii "D" then .waiting
  else .unknown

/-- No time stands for an unknown one. -/
def elapsed (uptimeSeconds : ℕ) : Option ℕ :=
  if 0 < uptimeSeconds then some uptimeSeconds else none

/-- The row of a process, if its data can be projected. -/
def processRow (v : Observation.Process F) : Option (ProcessRow F) :=
  if v.pid.toInt ≤ 0 ∨ processPercent v.cpuPercent = false ∨ maxExactInteger < v.memoryBytes ∨
      maxExactInteger < v.uptimeSeconds then none
  else (display v.name 128 true).map fun name =>
    ⟨v.pid, name, processState v.state, some v.cpuPercent, some v.memoryBytes,
      elapsed v.uptimeSeconds⟩

/-- More memory first, then more processor time, then the lower identifier. -/
def processBefore (a b : ProcessRow F) : Bool :=
  let memory (r : ProcessRow F) : ℕ := r.memory.getD 0
  let cpu (r : ProcessRow F) : ℚ := (r.cpu.map Float64.toRat).getD 0
  if memory a ≠ memory b then memory b < memory a
  else if cpu a ≠ cpu b then cpu b < cpu a
  else a.pid.toInt < b.pid.toInt

def processReason : Observation.ReasonCode → Option Reason
  | .deadlineExceeded => some .deadlineExceeded
  | .collectionStopped => some .collectionCanceled
  | .noData => some .noData
  | _ => none

/-- The counts that come with the processes contradict each other. -/
def badProcessCounts (items : List (Observation.Process F)) (m : Observation.SectionQuality) :
    Bool :=
  maxInputRows < items.length || m.samples ≠ items.length || m.total < items.length ||
    m.errors < 0 || maxExactInteger < m.total.toNat ||
    m.truncated ≠ decide ((items.length : ℤ) < m.total)

def processQuality (raw : Observation.Section (List (Observation.Process F))) (rows : ℕ) :
    Quality :=
  if raw.state = .degraded ∨ 0 < raw.quality.errors ∨ raw.quality.truncated = true ∨
      (rows : ℤ) < raw.quality.total then q .degraded none
  else q raw.state (processReason raw.reasonCode)

/-- The total is known only if nothing failed. -/
def processTotal (raw : Observation.Section (List (Observation.Process F))) : Option ℕ :=
  if raw.state = .available ∧ raw.quality.errors = 0 then some raw.quality.total.toNat else none

/-- The section of processes that were collected. -/
def collectedProcesses (raw : Observation.Section (List (Observation.Process F))) (time : Bytes)
    (items : List (Observation.Process F)) : Option (Section (ProcessRow F)) :=
  if badProcessCounts items raw.quality then none
  else (collectRows Observation.Process.pid processRow [] items).map fun rows =>
    { quality := processQuality raw items.length
      cpuBasis := []
      observedAt := some time
      returned := rows.length
      total := processTotal raw
      truncated := raw.quality.truncated
      items := rows.mergeSort fun a b => !processBefore b a }

def projectProcesses (raw : Observation.Section (List (Observation.Process F))) (time : Bytes) :
    Option (Section (ProcessRow F)) :=
  let out := empty (ProcessRow F) raw.state (processReason raw.reasonCode)
  if raw.state ≠ .available ∧ raw.state ≠ .degraded then
    if out.quality.state ≠ .disabled ∧ out.quality.state ≠ .unknown then
      some { out with observedAt := some time }
    else some out
  else
    match raw.data with
    | none => some (empty (ProcessRow F) .unavailable (some .noData))
    | some items => collectedProcesses raw time items

def containerState (v : Containers.State) : Bool := v ≠ .other

def metricReason : Option Reason → Reason
  | some .permissionDenied => .permissionDenied
  | some .deadlineExceeded => .deadlineExceeded
  | some .collectionCanceled => .collectionCanceled
  | some .engineOsUnsupported => .unsupported
  | some .apiVersionUnsupported => .unsupported
  | some .metricCounterInvalid => .invalidCounter
  | some .invalidCounter => .invalidCounter
  | _ => .metricUnavailable

def validMetrics (v : ContainerRow F) : Bool :=
  if v.state ≠ .running then
    v.metricsState = .notRunning && v.cpu.isNone && v.memory.isNone &&
      v.reason = some .notRunning
  else
    match v.metricsState with
    | .available => v.cpu.isSome && v.memory.isSome && v.reason.isNone
    | .partially => v.cpu.isNone ≠ v.memory.isNone && v.reason = some .invalidCounter
    | .unavailable =>
      v.cpu.isNone && v.memory.isNone && v.reason.any fun r =>
        r = .metricUnavailable || r = .invalidCounter || r = .permissionDenied ||
          r = .unsupported || r = .deadlineExceeded || r = .collectionCanceled
    | _ => false

def validContainer (v : ContainerRow F) : Bool :=
  aliasPattern v.idAlias && textValid v.name 128 && textValid v.image 240 &&
    containerState v.state && v.cpu.all percent && v.memory.all (· ≤ maxExactInteger) &&
    validMetrics v

def rowReason (v : Containers.Container F) : Option Reason :=
  match v.metricsState with
  | .notRunning => some .notRunning
  | .partially => some .invalidCounter
  | .available => none
  | _ => some (metricReason v.reasonCode)

/-- The row of a container, if its data can be projected. -/
def containerRow (v : Containers.Container F) : Option (ContainerRow F) :=
  (display v.name 128 false).bind fun name =>
    (display v.image 240 false).bind fun image =>
      let row : ContainerRow F :=
        ⟨v.idAlias, name, image, v.state, v.cpuPercent, v.memoryBytes, v.metricsState,
          rowReason v⟩
      if aliasPattern v.idAlias && containerState v.state && validContainer row then some row
      else none

def containerBefore (a b : ContainerRow F) : Bool := a.idAlias < b.idAlias

def incomplete (v : ContainerRow F) : Bool :=
  v.metricsState = .partially || v.metricsState = .unavailable

def supportOf : Containers.Support → SupportState
  | .disabled => .disabled
  | .permissionDenied => .permissionDenied
  | .unsupported => .unsupported
  | .unavailable => .unavailable
  | .supported => .available
  | .other => .other

def containerQuality (raw : Containers.Inventory F) (rows : List (ContainerRow F)) : Quality :=
  if raw.collectionState = .partially ∨ raw.truncated = true ∨
      raw.items.length < raw.totalCount ∨ rows.any incomplete = true then q .degraded none
  else q .available raw.reasonCode

/-- The section of containers that were observed at the given time. -/
def collectedContainers (raw : Containers.Inventory F) (time : Instant) :
    Option (Section (ContainerRow F)) :=
  if time = 0 ∨ validTime (formatRFC3339Nano time) = false ∨
      (raw.collectionState ≠ .ok ∧ raw.collectionState ≠ .partially) ∨
      maxInputRows < raw.items.length ∨ raw.returnedCount ≠ raw.items.length ∨
      raw.totalCount < raw.items.length ∨ maxExactInteger < raw.totalCount ∨
      raw.truncated ≠ decide (raw.items.length < raw.totalCount) then none
  else (collectRows Containers.Container.idAlias containerRow [] raw.items).map fun rows =>
    { quality := containerQuality raw rows
      cpuBasis := []
      observedAt := some (formatRFC3339Nano time)
      returned := rows.length
      total := some raw.totalCount
      truncated := raw.truncated
      items := rows.mergeSort fun a b => !containerBefore b a }

def projectContainers (raw : Containers.Inventory F) : Option (Section (ContainerRow F)) :=
  if raw.schemaVersion ≠ Containers.schemaVersion then none
  else if supportOf raw.supportState ≠ .available then
    some (empty (ContainerRow F) (supportOf raw.supportState) raw.reasonCode)
  else if raw.freshness ≠ .current ∨ raw.collectionState = .notRun then
    some (empty (ContainerRow F) .unknown none)
  else raw.observedAt.bind (collectedContainers raw)

end

/-! ## Bounds -/

/-- The largest number of rows that fits, as the loop finds it; `n` bounds its rounds. -/
def searchRows (fits : ℕ → Bool) : ℕ → ℕ → ℕ → ℕ
  | 0, low, _ => low
  | n + 1, low, high =>
    if low < high then
      if fits ((low + high + 1) / 2) then searchRows fits n ((low + high + 1) / 2) high
      else searchRows fits n low ((low + high + 1) / 2 - 1)
    else low

section
variable {α : Type} (item : Codec α)

def Section.size (s : Section α) : ℕ := (marshal (sectionCodec item) s).length

/-- The first rows of a section. -/
def Section.rows (s : Section α) (n : ℕ) : Section α :=
  { s with items := s.items.take n, returned := n }

def Section.shortened (s : Section α) : Section α :=
  { s with truncated := true, quality := q .degraded none }

/-- At most so many rows. -/
def Section.capped (s : Section α) (rows : ℕ) : Section α :=
  if rows < s.items.length then
    { s.shortened with items := s.items.take rows, returned := rows }
  else { s with returned := s.items.length }

def fitSection (s : Section α) (rows : ℕ) : Section α :=
  let c := s.capped rows
  if c.size item ≤ maxSectionBytes then c
  else
    c.shortened.rows (searchRows (fun n => (c.shortened.rows n).size item ≤ maxSectionBytes)
      c.items.length 0 c.items.length)

/-! ## Checks -/

def validQuality (v : Quality) : Bool := q v.state v.reason = v

def validState (s : Section α) : Bool :=
  match s.quality.state with
  | .available => s.observedAt.isSome && s.total = some s.returned && !s.truncated
  | .degraded => s.observedAt.isSome && !(s.truncated && s.total.any (· ≤ s.returned))
  | state =>
    s.items.isEmpty && s.total.isNone && !s.truncated &&
      !((state = .disabled || state = .unknown) && s.observedAt.isSome)

def validSection (s : Section α) (enabled : Bool) (rows : ℕ) : Bool :=
  validQuality s.quality && s.items.length ≤ rows && s.returned = s.items.length &&
    (s.total.all fun t => t ≤ maxExactInteger && s.returned ≤ t) && s.observedAt.all validTime &&
    (enabled || s.quality.state = .disabled) &&
    (s.total.all fun t => decide (s.returned < t) = s.truncated) && validState s &&
    s.size item ≤ maxSectionBytes

end

section
variable {F : Type} [Float64 F]

/-- The checks of one row of processes. -/
def validProcess (v : ProcessRow F) : Bool :=
  0 < v.pid.toInt && textValid v.name 128 && !(v.name.any fun b => b = 47 || b = 92) &&
    processState (processStateText v.state) = v.state && v.cpu.any processPercent &&
    v.memory.any (· ≤ maxExactInteger) && v.elapsed.all fun e => e ≠ 0 && e ≤ maxExactInteger

def validProcesses (rows : List (ProcessRow F)) : Bool :=
  checkRows ProcessRow.pid validProcess processBefore [] none rows

/-- Incomplete rows are in a degraded section only. -/
def validContainers (degraded : Bool) (rows : List (ContainerRow F)) : Bool :=
  checkRows ContainerRow.idAlias (fun v => validContainer v && (!incomplete v || degraded))
    containerBefore [] none rows

def processBasis : Bytes := ascii "LIFETIME_SINGLE_CORE"

def containerBasis : Bytes := ascii "ENGINE_HOST_CAPACITY"

def validContainersSection (s : Section (ContainerRow F)) (enabled : Bool) : Bool :=
  s.cpuBasis = containerBasis && validSection (containerRowCodec F) s enabled maxContainers &&
    validContainers (s.quality.state = .degraded) s.items

/-- The parts of the envelope that come from the identity. -/
def validIdentity (source version : Bytes) : Bool :=
  sourcePattern source && version.length ≤ 40 && versionPattern version

def validDocument (d : Document F) (source : Bytes) : Bool :=
  d.schema = schemaVersion && d.profile = profile && validIdentity source d.version &&
    d.source = source && validTime d.collectedAt && d.policy.classification = ascii "SENSITIVE" &&
    d.policy.readOnly && d.processes.cpuBasis = processBasis &&
    validSection (processRowCodec F) d.processes d.policy.processes maxProcesses &&
    validContainersSection d.containers d.policy.containers &&
    validProcesses d.processes.items

/-! ## Encoding -/

/-- Print a document that is valid and not too long. -/
def printDocument (d : Document F) (source : Bytes) : Except Error Bytes :=
  if validDocument d source = true ∧ (marshal (documentCodec F) d).length ≤ maxBytes then
    .ok (marshal (documentCodec F) d)
  else .error .data

def validEnvelope (raw : Observation.Snapshot F) (id : Identity) : Bool :=
  raw.schemaVersion = Observation.schemaVersion && validTime (formatRFC3339Nano raw.observedAt) &&
    raw.observedAt ≠ 0 && validIdentity id.sourceId id.version

def fitProcesses (s : Section (ProcessRow F)) : Section (ProcessRow F) :=
  fitSection (processRowCodec F) { s with cpuBasis := processBasis } maxProcesses

def fitContainers (s : Section (ContainerRow F)) : Section (ContainerRow F) :=
  fitSection (containerRowCodec F) { s with cpuBasis := containerBasis } maxContainers

/-- The document around two sections. -/
def document (raw : Observation.Snapshot F) (id : Identity) (consent : Consent)
    (processes : Section (ProcessRow F)) (containers : Section (ContainerRow F)) : Document F where
  schema := schemaVersion
  profile := profile
  source := id.sourceId
  version := id.version
  collectedAt := formatRFC3339Nano raw.observedAt
  policy := ⟨ascii "SENSITIVE", true, consent.processes, consent.containers⟩
  processes := processes
  containers := containers

/-- A group that is not enabled is not read. -/
def processesOf (raw : Observation.Snapshot F) (enabled : Bool) :
    Option (Section (ProcessRow F)) :=
  if enabled then projectProcesses raw.processes (formatRFC3339Nano raw.observedAt)
  else some (empty _ .disabled none)

def containersOf (docker : Containers.Inventory F) (enabled : Bool) :
    Option (Section (ContainerRow F)) :=
  if enabled then projectContainers docker else some (empty _ .disabled none)

def encode (raw : Observation.Snapshot F) (docker : Containers.Inventory F) (id : Identity)
    (consent : Consent) : Except Error Bytes :=
  if validEnvelope raw id = false then .error .envelope
  else
    match processesOf raw consent.processes, containersOf docker consent.containers with
    | some p, some c => printDocument (document raw id consent (fitProcesses p) (fitContainers c)) id.sourceId
    | _, _ => .error .data

/-- Accept the bytes that `encode` prints, and no others. -/
def validate (b source : Bytes) : Bool :=
  b ≠ [] && b.length ≤ maxBytes && Utf8.valid b &&
    (unmarshal (documentCodec F) b).any fun d =>
      validDocument d source && marshal (documentCodec F) d = b

/-! ## The section of containers alone -/

/-- `ProjectContainers` -/
def containerSection (raw : Containers.Inventory F) : Except Error (Section (ContainerRow F)) :=
  match projectContainers raw with
  | none => .error .data
  | some s =>
    if validContainersSection (fitContainers s) true then .ok (fitContainers s) else .error .data

def bytes (s : Section (ContainerRow F)) : Except Error Bytes :=
  if validContainersSection s true = true ∧
      (marshal (sectionCodec (containerRowCodec F)) s).length ≤ maxSectionBytes then
    .ok (marshal (sectionCodec (containerRowCodec F)) s)
  else .error .data

def parseContainers (b : Bytes) : Except Error (Section (ContainerRow F)) :=
  if b = [] ∨ maxSectionBytes < b.length ∨ Utf8.valid b = false then .error .validation
  else
    match unmarshal (sectionCodec (containerRowCodec F)) b with
    | none => .error .validation
    | some s =>
      if validContainersSection s true = true ∧ bytes s = .ok b then .ok s else .error .validation

/-- An inventory without any data. -/
def noInventory : Containers.Inventory F where
  schemaVersion := []
  observedAt := none
  supportState := .other
  collectionState := .other
  freshness := .other
  reasonCode := none
  totalCount := 0
  returnedCount := 0
  truncated := false
  items := []

def encodeProcessesAndContainers (raw : Observation.Snapshot F) (id : Identity)
    (containers : Section (ContainerRow F)) : Except Error Bytes :=
  if validContainersSection containers true = false then .error .data
  else
    match encode raw noInventory id ⟨true, false⟩ with
    | .error e => .error e
    | .ok b =>
      match unmarshal (documentCodec F) b with
      | none => .error .data
      | some d =>
        printDocument { d with policy := { d.policy with containers := true }, containers := containers }
          id.sourceId

end

end Workload

end HomeLab
