/-
  The controller of the background service.

  The controller keeps four files under the install root (the settings, the
  registration, a marker that both are complete, a marker that a disable is under
  way) and a job with the manager of the platform.  Each file is written under a
  temporary name and renamed into place.

  The operations are programs over the file system and the manager.  The
  settings are fixed, so a file holds one of the texts that the controller
  writes, or nothing yet; settings that do not read back as they were given
  are left out.
-/
import HomeLab.Lib.Crash

namespace HomeLab

namespace Background

open Prog

/-! ## Status -/

inductive Code where
  | ok
  | managerUnavailable
  | notRegistered
  | stopped
  | unreachable
  | notReady
  | readinessUnknown
  | unsafeManagedState
  | registrationMismatch
  | operationActive
  | gracefulStopFailed
  | managerOperationFailed
  deriving DecidableEq, Repr

inductive JobState where
  | managerUnavailable
  | notRegistered
  | registeredStopped
  | running
  | unreachable
  | notReady
  deriving DecidableEq, Repr

inductive Readiness where
  | unknown
  | ready
  | notReady
  | unreachable
  deriving DecidableEq, Repr

inductive Diagnostics where
  | unknown
  | available
  | unavailable
  | disabled
  deriving DecidableEq, Repr

structure ManagerState where
  available : Bool := false
  registered : Bool := false
  running : Bool := false
  deriving DecidableEq, Repr

structure Status where
  state : JobState
  code : Code
  readiness : Readiness
  diagnostics : Diagnostics
  registered : Bool
  running : Bool
  deriving DecidableEq, Repr

def statusFor (m : ManagerState) (readiness : Readiness) : Status :=
  let state :=
    if !m.available then (.managerUnavailable, .managerUnavailable)
    else if !m.registered then (.notRegistered, .notRegistered)
    else if !m.running then (.registeredStopped, .stopped)
    else
      match readiness with
      | .unreachable => (.unreachable, .unreachable)
      | .notReady => (.notReady, .notReady)
      | .unknown => (.running, .readinessUnknown)
      | .ready => (.running, .ok)
  { state := state.1, code := state.2, readiness := readiness, diagnostics := .unknown,
    registered := m.registered, running := m.running }

abbrev Result := Except Code Status

/-! ## Files and calls -/

/-- The files that the controller manages. -/
inductive Managed where
  | settings
  | registration
  | marker
  | disabling
  deriving DecidableEq, Repr

/-- The names in the background directory; `next` is the temporary name of a file. -/
inductive Name where
  | lock
  | final (f : Managed)
  | next (f : Managed)
  deriving DecidableEq, Repr

/-- The names as `os.ReadDir` sorts them: `.disabling`, `.managed`, `.operation-lock`, the
    registration (`home-lab-observer.service`) and `settings.json`. -/
def Name.all : List Name :=
  [.final .disabling, .next .disabling, .final .marker, .next .marker, .lock, .final .registration,
    .next .registration, .final .settings, .next .settings]

/-- What the controller writes to a file. -/
inductive Text where
  | settings
  | definition
  | marker
  deriving DecidableEq, Repr

inductive Call where
  | lock (create : Bool)
  | unlock
  | directory
  | lstat (n : Name)
  | read (n : Name)
  | readDir
  | create (n : Name)
  | write (n : Name) (t : Text)
  | rename (f : Managed)
  | remove (n : Name)
  | available
  | inspect
  | register
  | start
  | stop (force : Bool)
  /-- Wait until the job does not run any more. -/
  | awaitStopped
  | unregister
  | probe

/-- A lock is refused with a code; a file that is read may be absent, or empty. -/
@[reducible] def Call.Answer : Call → Type
  | lock _ => Option Code
  | read _ => Option (Option Text)
  | readDir => List Name
  | inspect => Except Code ManagerState
  | probe => Readiness × Diagnostics
  | unlock => Unit
  | write _ _ => Unit
  | rename _ => Unit
  | remove _ => Unit
  | _ => Bool

abbrev calls : Interface := ⟨Call, Call.Answer⟩

/-- Make one call. -/
def query (c : Call) : Prog calls c.Answer := ask (I := calls) c

/-! ## The managed files -/

def hasManagedState : Prog calls (Except Code Bool) := do
  if !(← query .directory) then return .ok false
  match ← query (.read (.final .marker)) with
  | none =>
    if (← query .readDir).any (· ≠ .lock) then return .error .unsafeManagedState
    return .ok false
  | some t => return if t = some .marker then .ok true else .error .unsafeManagedState

def writePrivateAtomic (f : Managed) (t : Text) : Prog calls Bool := do
  if !(← query (.create (.next f))) then return false
  query (.write (.next f) t)
  query (.rename f)
  return true

def initializeManagedState : Prog calls Bool := do
  if !(← writePrivateAtomic .settings .settings) then return false
  if !(← writePrivateAtomic .registration .definition) then return false
  writePrivateAtomic .marker .marker

/-- The names that an interrupted enable may leave. -/
def partialName : Name → Bool
  | .lock | .final .settings | .next .settings | .final .registration | .next .registration
  | .next .marker => true
  | _ => false

def recoverEntries : List Name → Prog calls (Option Code)
  | [] => return none
  | n :: rest => do
    if !partialName n then return some .unsafeManagedState
    if n ≠ .lock then
      if (← query (.read n)).isNone then return some .unsafeManagedState
      query (.remove n)
    recoverEntries rest

def recoverPartialEnable : Prog calls (Option Code) := do
  recoverEntries (← query .readDir)

/-- The names of a managed directory. -/
def managedName : Name → Bool
  | .lock | .final _ => true
  | .next _ => false

def validateManagedFiles : Prog calls (Option Code) := do
  if (← query .readDir).any (!managedName ·) then return some .unsafeManagedState
  if (← query (.read (.final .registration))) ≠ some (some .definition) then
    return some .registrationMismatch
  return none

def readSettings : Prog calls Bool := do
  return (← query (.read (.final .settings))) = some (some .settings)

def loadManaged : Prog calls (Option Code) := do
  match ← hasManagedState with
  | .error code => return some code
  | .ok false => return some .notRegistered
  | .ok true =>
    if !(← readSettings) then return some .unsafeManagedState
    validateManagedFiles

def removeAll : List Name → Prog calls Unit
  | [] => return
  | n :: rest => do
    query (.remove n)
    removeAll rest

/-! ## Operations -/

/-- A step that is left out if it has been done. -/
def ensure (done : Bool) (p : Prog calls Bool) : Prog calls Bool := if done then return true else p

def statusLocked : Prog calls Result := do
  match ← query .inspect with
  | .error _ => return .error .managerOperationFailed
  | .ok m =>
    if m.running then
      let p ← query .probe
      return .ok { statusFor m p.1 with diagnostics := p.2 }
    return .ok (statusFor m .unknown)

/-- An operation under the operation lock. -/
def locked (create : Bool) (p : Prog calls Result) : Prog calls Result := do
  match ← query (.lock create) with
  | some code => return .error code
  | none =>
    let r ← p
    query .unlock
    return r

def withManaged (p : Prog calls Result) : Prog calls Result :=
  locked false do
    match ← loadManaged with
    | some code => return .error code
    | none => p

/-- An operation with a manager that is available. -/
def onAvailable (p : ManagerState → Prog calls Result) : Prog calls Result := do
  match ← query .inspect with
  | .error code => return .error code
  | .ok m =>
    if !m.available then return .error .managerUnavailable
    p m

/-- The end of an enable: the job is registered and started. -/
def enableJob : Prog calls Result :=
  onAvailable fun m => do
    if !(← ensure m.registered (query .register)) then return .error .managerOperationFailed
    match ← query .inspect with
    | .error code => return .error code
    | .ok m =>
      if !(← ensure m.running (query .start)) then return .error .managerOperationFailed
      statusLocked

def enableNew : Prog calls Result := do
  match ← recoverPartialEnable with
  | some code => return .error code
  | none =>
    if !(← initializeManagedState) then return .error .unsafeManagedState
    enableJob

def enableManaged : Prog calls Result := do
  if !(← readSettings) then return .error .registrationMismatch
  match ← validateManagedFiles with
  | some code => return .error code
  | none => enableJob

def enable : Prog calls Result :=
  locked true do
    if ← query (.lstat (.final .disabling)) then return .error .operationActive
    match ← hasManagedState with
    | .ok true => enableManaged
    | .ok false => enableNew
    | .error code =>
      if ← query (.lstat (.final .marker)) then return .error code
      match ← recoverPartialEnable with
      | some code => return .error code
      | none => enableNew

/-- An operation on a job that is registered. -/
def onRegistered (p : ManagerState → Prog calls Result) : Prog calls Result := do
  if ← query (.lstat (.final .disabling)) then return .error .operationActive
  onAvailable fun m => do
    if !m.registered then return .error .registrationMismatch
    p m

def start : Prog calls Result :=
  withManaged <| onRegistered fun m => do
    if !(← ensure m.running (query .start)) then return .error .managerOperationFailed
    statusLocked

/-- Stop a job that runs, and wait until it has stopped. -/
def stopRunning (m : ManagerState) (force : Bool) : Prog calls (Option Code) := do
  if ← ensure (!m.running) (do if ← query (.stop force) then query .awaitStopped else return false)
  then return none
  return some (if force then .managerOperationFailed else .gracefulStopFailed)

def stop (force restart : Bool) : Prog calls Result :=
  withManaged <| onRegistered fun m => do
    match ← stopRunning m force with
    | some code => return .error code
    | none =>
      if !(← ensure (!restart) (query .start)) then return .error .managerOperationFailed
      statusLocked

def status : Prog calls Result := do
  match ← hasManagedState with
  | .error code => return .error code
  | .ok false => return .ok (statusFor { available := ← query .available } .unknown)
  | .ok true =>
    match ← loadManaged with
    | some code => return .error code
    | none => statusLocked

/-- The names that an interrupted disable may leave. -/
def disablingName : Name → Bool
  | .lock | .final .disabling | .final .settings | .final .registration => true
  | _ => false

/-- The end of an interrupted disable; `none` if there is none. -/
def resumeLocked : Prog calls (Option Result) := do
  if ← query (.lstat (.final .marker)) then return none
  match ← query (.read (.final .disabling)) with
  | none => return none
  | some t =>
    if t ≠ some .marker then return some (.error .unsafeManagedState)
    if (← query .readDir).any (!disablingName ·) then return some (.error .unsafeManagedState)
    removeAll [.final .settings, .final .registration, .final .disabling]
    return some (.ok (statusFor { available := ← query .available } .unknown))

def resumeInterruptedDisable : Prog calls (Option Result) := do
  if !(← query .directory) then return none
  match ← query (.lock false) with
  | some code => return some (.error code)
  | none =>
    let r ← resumeLocked
    query .unlock
    return r

/-- The job is unregistered, under the marker that a disable is under way. -/
def unregisterJob (m : ManagerState) : Prog calls (Option Code) := do
  if !m.registered then return none
  if !(← writePrivateAtomic .disabling .marker) then return some .unsafeManagedState
  if !(← query .unregister) then return some .managerOperationFailed
  return none

/-- The end of a disable: the job is unregistered and the files are removed. -/
def disableJob (force : Bool) : Prog calls Result :=
  onAvailable fun m => do
    match ← stopRunning m force with
    | some code => return .error code
    | none =>
      match ← unregisterJob m with
      | some code => return .error code
      | none =>
        removeAll [.final .marker, .final .settings, .final .registration, .final .disabling]
        return .ok (statusFor { available := m.available } .unknown)

def disable (force : Bool) : Prog calls Result := do
  match ← resumeInterruptedDisable with
  | some r => return r
  | none =>
    match ← hasManagedState with
    | .error code => return .error code
    | .ok false => return .ok (statusFor { available := ← query .available } .unknown)
    | .ok true => withManaged (disableJob force)

/-! ## The world -/

/-- A file is absent, empty or holds a text. -/
structure State where
  dir : Bool := false
  file : Name → Option (Option Text) := fun _ => none
  registered : Bool := false

/-- What the outside world decides: whether the lock is refused, whether the manager is available,
    answers and succeeds, whether an operation that fails has taken effect, and whether the job
    runs. -/
structure Environment where
  lock : Option Code := none
  available : Bool := true
  inspect : Option Code := none
  ok : Bool := true
  effect : Bool := false
  running : Bool := true
  probe : Readiness × Diagnostics := (.unknown, .unknown)

namespace State

def setFile (s : State) (n : Name) (t : Option (Option Text)) : State :=
  { s with file := Function.update s.file n t }

def names (s : State) : List Name := Name.all.filter fun n => (s.file n).isSome

/-- The lock file is made, in its directory. -/
def enter (s : State) : State := { s.setFile .lock (some none) with dir := true }

def lock (s : State) (create : Bool) (e : Environment) : State × Option Code :=
  match e.lock with
  | some code => (s, some code)
  | none => if !create && !s.dir then (s, some .notRegistered) else (s.enter, none)

def inspect (s : State) (e : Environment) : Except Code ManagerState :=
  if !e.available then .ok {}
  else
    match e.inspect with
    | some code => .error code
    | none => .ok ⟨true, s.registered, s.registered && e.running⟩

/-- An operation of the manager on the registration. -/
def register (s : State) (registered : Bool) (e : Environment) : State × Bool :=
  ({ s with registered := if e.ok || e.effect then registered else s.registered }, e.ok)

end State

def handler : (c : Call) → Environment → State → State × c.Answer
  | .lock create, e, s => s.lock create e
  | .unlock, _, s => (s, ())
  | .directory, _, s => (s, s.dir)
  | .lstat n, _, s => (s, (s.file n).isSome)
  | .read n, _, s => (s, s.file n)
  | .readDir, _, s => (s, s.names)
  | .create n, _, s =>
    if (s.file n).isSome then (s, false) else (s.setFile n (some none), true)
  | .write n t, _, s => (s.setFile n (some (some t)), ())
  | .rename f, _, s => ((s.setFile (.final f) (s.file (.next f))).setFile (.next f) none, ())
  | .remove n, _, s => (s.setFile n none, ())
  | .available, e, s => (s, e.available)
  | .inspect, e, s => (s, s.inspect e)
  | .register, e, s => s.register true e
  | .start, e, s => (s, e.ok)
  | .stop _, e, s => (s, e.ok)
  | .awaitStopped, e, s => (s, e.ok)
  | .unregister, e, s => s.register false e
  | .probe, e, s => (s, e.probe)

/-! ## Runs -/

inductive Operation where
  | enable
  | disable (force : Bool)
  | start
  | stop (force restart : Bool)
  deriving DecidableEq, Repr

def Operation.program : Operation → Prog calls Result
  | enable => Background.enable
  | disable force => Background.disable force
  | start => Background.start
  | stop force restart => Background.stop force restart

/-- An operation with what the outside world decides while it runs.  If its decisions are
    fewer than its calls it is killed. -/
structure Attempt where
  operation : Operation
  decisions : List Environment

/-- Where an attempt leaves its operation. -/
def State.attempt (s : State) (a : Attempt) : State × Prog calls Result :=
  exec (I := calls) handler s a.operation.program a.decisions

/-- An operation that is not killed. -/
def State.call (s : State) (o : Operation) (e : ℕ → Environment) : State × Result :=
  complete (I := calls) handler e s o.program

/-- What `Status` says. -/
def State.status (s : State) (e : ℕ → Environment) : Result :=
  (complete (I := calls) handler e s Background.status).2

/-- The attempts one after the other. -/
def State.after (s : State) (as : List Attempt) : State := as.foldl (fun s a => (s.attempt a).1) s

end Background

end HomeLab
