/-
  Inventories of containers.

  The data that the container collector returns and that the projections read.
  Texts that stand for one of a few values are values of an enumeration, in
  which `other` stands for any other text.
-/
import HomeLab.Lib.Calendar
import HomeLab.Lib.Float64

namespace HomeLab

namespace Containers

def schemaVersion : Bytes := ascii "observer-container-inventory/v1"

def maxContainers : ℕ := 500

inductive Support where
  | supported
  | disabled
  | unavailable
  | permissionDenied
  | unsupported
  | other
  deriving DecidableEq

inductive Collection where
  | ok
  | partially
  | notRun
  | other
  deriving DecidableEq

inductive Freshness where
  | current
  | unknown
  | other
  deriving DecidableEq

inductive Metrics where
  | available
  | partially
  | unavailable
  | notRunning
  | other
  deriving DecidableEq

inductive State where
  | unknown
  | created
  | running
  | paused
  | restarting
  | removing
  | exited
  | dead
  | other
  deriving DecidableEq

/-- The reasons of the collector and of the projections. -/
inductive Reason where
  | apiVersionUnsupported
  | invalidRequest
  | invalidResponse
  | redirectRejected
  | engineResponseError
  | responseTooLarge
  | engineUnavailable
  | engineOsUnsupported
  | statsUnavailable
  | statsPartial
  | metricCounterInvalid
  | collectorNotRun
  | dockerNotConfigured
  | notRunning
  | permissionDenied
  | deadlineExceeded
  | collectionCanceled
  | partialCollection
  | disabledByConfiguration
  | unsupported
  | noData
  | collectionFailed
  | notYetObserved
  | invalidCounter
  | metricUnavailable
  | other
  deriving DecidableEq

structure Container (F : Type) where
  idAlias : Bytes
  name : Bytes
  image : Bytes
  state : State
  cpuPercent : Option F
  memoryBytes : Option ℕ
  metricsState : Metrics
  reasonCode : Option Reason

structure Inventory (F : Type) where
  schemaVersion : Bytes
  observedAt : Option Instant
  supportState : Support
  collectionState : Collection
  freshness : Freshness
  reasonCode : Option Reason
  totalCount : ℕ
  returnedCount : ℕ
  truncated : Bool
  items : List (Container F)

end Containers

end HomeLab
