/-
  The container collector.

  One cycle asks the engine for its version and its containers, and a few
  workers ask for the counters of each container that runs.  The counters of the
  last cycle are kept by alias.  What the engine answers, when the cycle is
  cancelled and in which order the workers proceed is up to the environment
  (`Cycle`).
-/
import Mathlib.Data.List.DropRight
import HomeLab.Containers.Inventory
import HomeLab.Lib.Confined
import HomeLab.Lib.Regex
import HomeLab.Lib.Unicode

namespace HomeLab

namespace Containers

/-! ## What the engine answers -/

structure EngineContainer where
  id : Bytes
  names : List (List Char)
  image : List Char
  state : List Char

structure EngineVersion where
  apiVersion : List Char
  minApiVersion : List Char
  os : List Char

/-- The counters of a container; a pointer that is not set is `none`. -/
structure EngineStats where
  totalUsage : Option ℕ
  percpuUsage : List ℕ
  systemUsage : Option ℕ
  onlineCpus : ℕ
  preTotalUsage : Option ℕ
  preSystemUsage : Option ℕ
  memoryUsage : Option ℕ

structure CpuCounters where
  total : ℕ
  system : ℕ
  capacity : ℕ
  deriving DecidableEq

inductive EngineError where
  /-- The request failed: past the deadline, cancelled, not permitted, or otherwise. -/
  | transport (deadline canceled permission : Bool)
  | protocol (code : Reason) (permission unsupported : Bool)

def EngineError.isPermission : EngineError → Bool
  | transport _ _ permission => permission
  | protocol _ permission _ => permission

def EngineError.isUnsupported : EngineError → Bool
  | transport _ _ _ => false
  | protocol _ _ unsupported => unsupported

def reasonCode : EngineError → Reason
  | .transport deadline canceled permission =>
    if deadline then .deadlineExceeded
    else if canceled then .collectionCanceled
    else if permission then .permissionDenied
    else .engineUnavailable
  | .protocol code permission _ => if permission then .permissionDenied else code

/-- What becomes of a request; `body` is none if it cannot be read. -/
inductive Reply where
  | notSent
  | failed (deadline canceled permission : Bool)
  | answered (status contentLength : ℤ) (body : Option Bytes)

/-- How the engine's JSON is decoded.  A list of values takes at least a byte for each. -/
class EngineJson where
  version : Bytes → Option EngineVersion
  containers : Bytes → Option (Option (List EngineContainer))
  stats : Bytes → Option EngineStats
  bounded : ∀ {b l}, containers b = some (some l) → l.length ≤ b.length

/-- The values of an answer, if it is one of the right kind. -/
def getJson {α : Type} (maxBytes : ℕ) (decode : Bytes → Option α) : Reply → Except EngineError α
  | .notSent => .error (.protocol .invalidRequest false false)
  | .failed deadline canceled permission => .error (.transport deadline canceled permission)
  | .answered status contentLength body =>
    if 300 ≤ status ∧ status < 400 then .error (.protocol .redirectRejected false false)
    else if status = 401 ∨ status = 403 then .error (.protocol .permissionDenied true false)
    else if status < 200 ∨ 300 ≤ status then .error (.protocol .engineResponseError false false)
    else if (maxBytes : ℤ) < contentLength then .error (.protocol .responseTooLarge false false)
    else
      match body with
      | none => .error (.protocol .engineUnavailable false false)
      | some b =>
        if maxBytes < b.length then .error (.protocol .responseTooLarge false false)
        else
          match decode b with
          | none => .error (.protocol .invalidResponse false false)
          | some a => .ok a

/-! ## Texts -/

/-- Lower case, as far as it can become ASCII. -/
def lowerRune (c : Char) : Char :=
  if c.isUpper then c.toLower
  else if c = '\u212a' then 'k'
  else if c = '\u0130' then 'i'
  else c

def trimSpace (s : List Char) : List Char :=
  (s.dropWhile Unicode.isSpace).rdropWhile Unicode.isSpace

def normalizeState (value : List Char) : State :=
  let v := (trimSpace value).map lowerRune
  if v = "created".toList then .created
  else if v = "running".toList then .running
  else if v = "paused".toList then .paused
  else if v = "restarting".toList then .restarting
  else if v = "removing".toList then .removing
  else if v = "exited".toList then .exited
  else if v = "dead".toList then .dead
  else .unknown

section
open Regex

/-- `[^\s]` -/
def visible (c : Char) : Bool := !isSpace c

def sensitiveMetadataPatterns : List Regex :=
  [sequence [boundary, one (caseless Char.isLower),
     repeats (caseless fun c => c.isLower || c.isDigit || c = '+' || c = '.' || c = '-') 0 none,
     exactText "://", repeats userChar 1 none, exactText ":", repeats passwordChar 1 none,
     exactText "@", repeats visible 1 none],
   sequence [boundary, repeats userChar 1 none, exactText ":", repeats passwordChar 1 none,
     exactText "@", repeats (caseless fun c => c.isLower || c.isDigit || c = '.' || c = '-') 1 none,
     optional (sequence [exactText ":", repeats Char.isDigit 1 none]),
     optional (sequence [exactText "/", repeats visible 0 none])],
   sequence [boundary,
     repeats (caseless fun c => c.isLower || c.isDigit || c = '.' || c = '_' || c = '%' ||
       c = '+' || c = '-') 1 none,
     exactText "@", repeats (caseless fun c => c.isLower || c.isDigit || c = '.' || c = '-') 1 none,
     exactText ".", repeats (caseless Char.isLower) 2 none, boundary],
   sequence [boundary, anyOf [caselessText "token", caselessText "password",
     caselessText "passwd", caselessText "secret", keyName "api", keyName "access"],
     one fun c => c = '=' || c = ':', repeats visible 1 none],
   sequence [boundary, caselessText "bearer", repeats isSpace 1 none, repeats visible 1 none],
   sequence [boundary, exactText "gh",
     one fun c => c = 'p' || c = 'o' || c = 'u' || c = 's' || c = 'r', exactText "_",
     repeats Char.isAlphanum 20 none, boundary],
   sequence [boundary, exactText "github_pat_",
     repeats (fun c => c.isAlphanum || c = '_') 20 none, boundary],
   sequence [boundary, exactText "AKIA",
     repeats (fun c => c.isDigit || c.isUpper) 16 (some 16), boundary]]

end

def sanitizeMetadata (value : List Char) (maxRunes : ℕ) (fallback : String) : List Char :=
  let line := Unicode.joinFields (value.map fun c => if Unicode.isControl c then ' ' else c)
  let redacted := sensitiveMetadataPatterns.foldl
    (fun text pattern => pattern.replaceAllString text "[REDACTED]".toList) line
  let short := redacted.take maxRunes
  if short = [] then fallback.toList else short

/-- The first name in order, without its slash. -/
def firstName (names : List (List Char)) : List Char :=
  match names.mergeSort fun a b => !(b < a : Bool) with
  | [] => []
  | ('/' :: name) :: _ => name
  | name :: _ => name

/-! ## Requests -/

def maxVersionBody : ℕ := 64 * 1024

def maxInventoryBody : ℕ := 2 * 1024 * 1024

def maxStatsBody : ℕ := 256 * 1024

/-- `major.minor`, both decimal and below 2⁶³. -/
def parseApiVersion (value : List Char) : Option (ℕ × ℕ) :=
  let major := value.takeWhile (· ≠ '.')
  let minor := value.drop (major.length + 1)
  let number (s : List Char) : ℕ := s.foldl (fun n c => 10 * n + (c.toNat - 48)) 0
  if value.length ≤ major.length || major.isEmpty || minor.isEmpty || !major.all Char.isDigit ||
      !minor.all Char.isDigit || 2 ^ 63 ≤ number major || 2 ^ 63 ≤ number minor then none
  else some (number major, number minor)

def lessVersion (a b : ℕ × ℕ) : Bool := a.1 < b.1 || a.1 = b.1 && a.2 < b.2

def minSupportedApi : ℕ × ℕ := (1, 41)

def maxSupportedApi : ℕ × ℕ := (1, 45)

def versionUnsupported : EngineError := .protocol .apiVersionUnsupported false true

/-- The version to speak, if both sides know one. -/
def chooseVersion (response : EngineVersion) : Option (ℕ × ℕ) := do
  let api ← parseApiVersion response.apiVersion
  if lessVersion api minSupportedApi then none
  else
    let spoken := if lessVersion maxSupportedApi api then maxSupportedApi else api
    if response.minApiVersion = [] then some spoken
    else
      let least ← parseApiVersion response.minApiVersion
      if lessVersion maxSupportedApi least || lessVersion spoken least then none
      else some spoken

section
variable [Sha256] [EngineJson]

/-- The version and the operating system of the engine. -/
def negotiateVersion (reply : Reply) : Except EngineError ((ℕ × ℕ) × List Char) := do
  let response ← getJson maxVersionBody EngineJson.version reply
  match chooseVersion response with
  | none => .error versionUnsupported
  | some version => .ok (version, (trimSpace response.os).map lowerRune)

def isHexDigit (b : UInt8) : Bool := hexByte b || 65 ≤ b && b ≤ 70

/-- `^[[:xdigit:]]{12,128}$` -/
def containerIdPattern (id : Bytes) : Bool :=
  12 ≤ id.length && id.length ≤ 128 && id.all isHexDigit

def listContainers (reply : Reply) : Except EngineError (List EngineContainer) := do
  match ← getJson maxInventoryBody EngineJson.containers reply with
  | none => .error (.protocol .invalidResponse false false)
  | some response =>
    if (response.all fun c => containerIdPattern c.id) = true ∧
        (response.map EngineContainer.id).Nodup then .ok response
    else .error (.protocol .invalidResponse false false)

def aliasFor (id : Bytes) : Bytes := ascii "ctr_" ++ hexText ((Sha256.sum256 id).toList.take 8)

/-! ## One container -/

variable {F : Type} [Float64 F]

def currentCpuCounters (stats : EngineStats) : Option CpuCounters :=
  match stats.systemUsage, stats.totalUsage with
  | some system, some total =>
    let capacity := if stats.onlineCpus = 0 then stats.percpuUsage.length else stats.onlineCpus
    if system = 0 ∨ capacity = 0 ∨ 4096 < capacity then none else some ⟨total, system, capacity⟩
  | _, _ => none

/-- The counters to compare with: those that the engine reports, or else those of the last
    cycle. -/
def previousCounters (stats : EngineStats) (prior : Option CpuCounters) : Option (ℕ × ℕ) :=
  match stats.preTotalUsage, stats.preSystemUsage with
  | some total, some system =>
    if system = 0 then prior.map fun p => (p.total, p.system) else some (total, system)
  | _, _ => prior.map fun p => (p.total, p.system)

def cpuPercent (stats : EngineStats) (prior : Option CpuCounters) : Option F := do
  let current ← currentCpuCounters stats
  let previous ← previousCounters stats prior
  if current.system ≤ previous.2 ∨ current.total < previous.1 then none
  else
    let value : F := Float64.percentage (current.total - previous.1) (current.system - previous.2)
    if Float64.within 100 value then some value else none

/-- The metrics of a container whose counters were read. -/
def metricsOf (cpu : Option F) (memory : Option ℕ) : Metrics × Option Reason :=
  if cpu.isSome && memory.isSome then (.available, none)
  else if cpu.isSome || memory.isSome then (.partially, some .metricCounterInvalid)
  else (.unavailable, some .metricCounterInvalid)

def normalizedContainer (source : EngineContainer) (stats : Option EngineStats) (cpu : Option F)
    (failure : Option Reason) : Container F :=
  let item : Container F :=
    { idAlias := aliasFor source.id
      name := Utf8.encode (sanitizeMetadata (firstName source.names) 128 "container")
      image := Utf8.encode (sanitizeMetadata source.image 256 "unknown")
      state := normalizeState source.state
      cpuPercent := none
      memoryBytes := none
      metricsState := .unavailable
      reasonCode := failure }
  match stats with
  | none =>
    { item with
      metricsState := if item.state = .running then .unavailable else .notRunning
      reasonCode := some (failure.getD .statsUnavailable) }
  | some stats =>
    { item with
      cpuPercent := cpu
      memoryBytes := stats.memoryUsage
      metricsState := (metricsOf cpu stats.memoryUsage).1
      reasonCode := (metricsOf cpu stats.memoryUsage).2 }

/-- The calls of a worker: the engine's counters, and the counters of the last cycle. -/
inductive Call where
  | stats (id : Bytes)
  | loadPrior (idAlias : Bytes)
  | storePrior (idAlias : Bytes) (current : CpuCounters)

def engine : Interface where
  Call := Call
  Answer
    | .stats _ => Reply
    | .loadPrior _ => Option CpuCounters
    | .storePrior _ _ => Unit

/-- Keep the counters for the next cycle, if they are usable. -/
def storeCounters (idAlias : Bytes) : Option CpuCounters → Prog engine Unit
  | none => .ret ()
  | some current => .ask (I := engine) (.storePrior idAlias current)

/-- What is made of the counters of a container, or of the failure to read them. -/
def observeStats (source : EngineContainer) :
    Except EngineError EngineStats → Prog engine (Container F)
  | .error e => pure (normalizedContainer source none none (some (reasonCode e)))
  | .ok stats => do
    let previous ← Prog.ask (I := engine) (.loadPrior (aliasFor source.id))
    storeCounters (aliasFor source.id) (currentCpuCounters stats)
    pure (normalizedContainer source (some stats) (cpuPercent stats previous) none)

/-- Read the counters of a container that runs. -/
def observeRunning (source : EngineContainer) : Prog engine (Container F) := do
  let reply ← Prog.ask (I := engine) (.stats source.id)
  observeStats source (getJson maxStatsBody EngineJson.stats reply)

def observeContainer (engineOs : List Char) (source : EngineContainer) :
    Prog engine (Container F) :=
  if normalizeState source.state ≠ .running then
    .ret (normalizedContainer source none none (some .notRunning))
  else if engineOs ≠ "linux".toList then
    .ret (normalizedContainer source none none (some .engineOsUnsupported))
  else observeRunning source

/-! ## Cycles -/

/-- What the environment decides in one cycle. -/
structure Cycle where
  version : Reply
  containers : Reply
  /-- The answers to the requests for counters, by container. -/
  stats : Bytes → Reply
  /-- How many containers are handed to a worker before the context ends. -/
  handed : ℕ
  /-- The context ends at its deadline. -/
  deadline : Bool
  /-- The order in which the workers proceed. -/
  schedule : List ℕ
  now : Instant

/-- The counters that are kept, by alias. -/
abbrev PriorCpu := Bytes → Option CpuCounters

def handleCall (cycle : Cycle) : (c : engine.Call) → PriorCpu → PriorCpu × engine.Answer c
  | .stats id, prior => (prior, cycle.stats id)
  | .loadPrior idAlias, prior => (prior, prior idAlias)
  | .storePrior idAlias current, prior => (Function.update prior idAlias (some current), ())

variable (F) in
/-- One worker's task for each container. -/
def tasks (engineOs : List Char) (prior : PriorCpu) (sources : List EngineContainer) :
    Pool engine PriorCpu Bytes (Container F) where
  shared := prior
  threads := sources.map fun source => ⟨aliasFor source.id, observeContainer engineOs source⟩

variable (F) in
/-- The tasks proceed as scheduled, and what they have not done then is done before the cycle
    goes on: the counters that are kept then, and the items. -/
def runTasks (cycle : Cycle) (engineOs : List Char) (prior : PriorCpu)
    (sources : List EngineContainer) : PriorCpu × List (Container F) :=
  let scheduled := cycle.schedule.foldl
    (fun p i => p.advance (Pool.cellHandler (handleCall cycle)) i ()) (tasks F engineOs prior sources)
  Pool.drain (handleCall cycle) scheduled.shared scheduled.threads

def pruneCpu (containers : List EngineContainer) (prior : PriorCpu) : PriorCpu := fun idAlias =>
  if containers.any fun c => normalizeState c.state = .running && aliasFor c.id = idAlias then
    prior idAlias
  else none

def successfulInventory (observed : Instant) (items : List (Container F)) (total : ℕ) :
    Inventory F :=
  let failed := items.any fun c => c.metricsState ≠ .available && c.reasonCode.any (· ≠ .notRunning)
  { schemaVersion := schemaVersion
    observedAt := some observed
    supportState := .supported
    collectionState := if failed then .partially else .ok
    freshness := .current
    reasonCode := if failed then some .statsPartial else none
    totalCount := total
    returnedCount := items.length
    truncated := items.length < total
    items := items }

/-- An inventory without an observation. -/
def unobserved (support : Support) (reason : Reason) : Inventory F where
  schemaVersion := schemaVersion
  observedAt := none
  supportState := support
  collectionState := .notRun
  freshness := .unknown
  reasonCode := some reason
  totalCount := 0
  returnedCount := 0
  truncated := false
  items := []

def failedInventory (e : EngineError) : Inventory F :=
  unobserved (if e.isPermission then .permissionDenied
    else if e.isUnsupported then .unsupported else .unavailable) (reasonCode e)

def notRun (reason : Reason) : Inventory F := unobserved .unavailable reason

variable (F) in
/-- `Disabled()` -/
def disabledInventory : Inventory F := unobserved .disabled .dockerNotConfigured

/-- The items of a cycle: those that the workers observed, in the order of their aliases, or
    with the containers that no worker was handed after them. -/
def gather (cycle : Cycle) (seen : List (Container F)) (left : List EngineContainer) :
    List (Container F) :=
  if left.isEmpty then seen.mergeSort fun a b => !(b.idAlias < a.idAlias : Bool)
  else seen ++ left.map fun source => normalizedContainer source none none
    (some (if cycle.deadline then .deadlineExceeded else .collectionCanceled))

/-- Observe the containers that the engine listed. -/
def observeListed (cycle : Cycle) (engineOs : List Char) (prior : PriorCpu)
    (listed : List EngineContainer) : PriorCpu × Inventory F :=
  let containers := listed.take maxContainers
  let done := runTasks F cycle engineOs prior (containers.take cycle.handed)
  (pruneCpu containers done.1,
    successfulInventory cycle.now (gather cycle done.2 (containers.drop cycle.handed)) listed.length)

def observe (cycle : Cycle) (prior : PriorCpu) : PriorCpu × Inventory F :=
  match negotiateVersion cycle.version with
  | .error e => (prior, failedInventory e)
  | .ok version =>
    match listContainers cycle.containers with
    | .error e => (prior, failedInventory e)
    | .ok listed => observeListed cycle version.2 prior listed

variable (F) in
/-- The collector; one that is disabled never observes anything. -/
structure Collector where
  disabled : Bool
  current : Inventory F
  priorCpu : PriorCpu
  idle : disabled = true → current = disabledInventory F

/-- `Collect` -/
def Collector.collect (c : Collector F) (cycle : Cycle) : Collector F × Inventory F :=
  if h : c.disabled = true then (c, c.current)
  else
    let r := observe cycle c.priorCpu
    (⟨c.disabled, r.2, r.1, fun hd => absurd hd h⟩, r.2)

end

end Containers

end HomeLab
