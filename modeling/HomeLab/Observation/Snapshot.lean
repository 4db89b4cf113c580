/-
  Snapshots of the host, as far as the workload projection reads them.
-/
import HomeLab.Lib.Calendar
import HomeLab.Lib.Float64

namespace HomeLab

namespace Observation

def schemaVersion : Bytes := ascii "home-lab-observer/host-snapshot/v1"

/-- Whether a part of the host could be observed; `other` stands for any other text. -/
inductive SupportState where
  | available
  | degraded
  | unavailable
  | disabled
  | permissionDenied
  | unsupported
  | unknown
  | other
  deriving DecidableEq

inductive ReasonCode where
  | collectionFailed
  | permissionDenied
  | deadlineExceeded
  | collectionStopped
  | partialCollection
  | disabled
  | noData
  | unsupported
  | other
  deriving DecidableEq

structure SectionQuality where
  samples : ℤ
  total : ℤ
  truncated : Bool
  errors : ℤ

/-- A part of a snapshot with its data, if there is any. -/
structure Section (α : Type) where
  state : SupportState
  reasonCode : ReasonCode
  quality : SectionQuality
  data : Option α

structure Process (F : Type) where
  pid : Int32
  name : Bytes
  state : Bytes
  cpuPercent : F
  memoryBytes : ℕ
  uptimeSeconds : ℕ

structure Snapshot (F : Type) where
  schemaVersion : Bytes
  observedAt : Instant
  processes : Section (List (Process F))

end Observation

end HomeLab
