/-
  The install guard and the operation lock.

  An operation of the background service first makes the guard directory, puts
  an owner file into it, locks the file and writes a marker to it; then it locks
  the operation file.  A process that finds a guard recovers it if its owner file
  holds the marker and is not locked: it clears the marker under the lock, and
  then removes the file and the directory.

  Files are told apart by their number, so that a file that was opened stays the
  same when its name goes to another one.  Processes run in any order and die at
  any point, which frees their locks.  Calls may fail, except that an open file
  can always be truncated.
-/
import HomeLab.Background.Service
import HomeLab.Lib.Rely

namespace HomeLab

namespace InstallGuard

open Prog Background

/-! ## Calls -/

/-- Who removes a guard: the process that made it, or one that recovers it. -/
inductive Role where
  | owner
  | recovery
  deriving DecidableEq, Repr

inductive Entry where
  | owner
  deriving DecidableEq, Repr

/-- How the creation of a name ends. -/
inductive Creation where
  | made
  | exist
  | failed
  deriving DecidableEq, Repr

inductive Contents where
  | empty
  | short
  | marker
  deriving DecidableEq, Repr

inductive Call where
  | lstatRoot
  | mkdirGuard
  | lstatGuard
  | readGuard
  | restrictGuard
  | removeGuard (role : Role)
  | createOwner
  | restrictOwner
  | validateOwner
  | openOwner
  | removeOwner (role : Role)
  | tryLock (i : ℕ)
  | unlock (i : ℕ)
  | close (i : ℕ)
  | sync (i : ℕ)
  | readAll (i : ℕ)
  | writeMarker (i : ℕ)
  | truncate (role : Role) (i : ℕ)
  | validateRoot
  | mkdirBackground
  | lstatBackground
  | restrictBackground
  | createOperation
  | validateOperation
  | openOperation
  | restrictOperation
  | statOperation
  | tryOperationLock
  | releaseOperationLock
  | closeOperation
  /-- What the lock is taken for. -/
  | work

@[reducible] def Call.Answer : Call → Type
  | mkdirGuard | mkdirBackground | createOperation => Creation
  | readGuard => Option (List Entry)
  | createOwner | validateOwner | openOwner => Option ℕ
  | readAll _ => Option Contents
  | unlock _ | truncate _ _ | releaseOperationLock | closeOperation | work => Unit
  | _ => Bool

abbrev calls : Interface := ⟨Call, Call.Answer⟩

/-- Make one call. -/
def query (c : Call) : Prog calls c.Answer := ask (I := calls) c

/-! ## The guard -/

/-- How the maker of a guard removes it. -/
def cleanup (i : ℕ) : Prog calls Unit := do
  query (.truncate .owner i)
  let _ ← query (.sync i)
  query (.unlock i)
  let _ ← query (.close i)
  let _ ← query (.removeOwner .owner)
  let _ ← query (.removeGuard .owner)

/-- The file is closed and the guard not recovered. -/
def closeUnrecovered (i : ℕ) : Prog calls (Option Bool) := do
  let _ ← query (.close i)
  return some false

/-- A recovery that has found the marker. -/
def removeRecovered (i : ℕ) : Prog calls (Option Bool) := do
  query (.truncate .recovery i)
  let synced ← query (.sync i)
  query (.unlock i)
  let closed ← query (.close i)
  if !(synced && closed) then return none
  if !(← query (.removeOwner .recovery)) then return none
  if !(← query (.removeGuard .recovery)) then return none
  return some true

/-- A recovery that has opened the owner file. -/
def recoverOpened (i : ℕ) : Prog calls (Option Bool) := do
  if !(← query (.tryLock i)) then closeUnrecovered i
  else if (← query (.readAll i)) ≠ some .marker then do
    query (.unlock i)
    closeUnrecovered i
  else removeRecovered i

/-- `none` if the recovery fails. -/
def recoverBackgroundInstallGuard : Prog calls (Option Bool) := do
  if !(← query .lstatGuard) then return some false
  if (← query .readGuard) ≠ some [.owner] then return some false
  match ← query .validateOwner with
  | none => return some false
  | some i =>
    match ← query .openOwner with
    | none => return some false
    | some j => if j ≠ i then closeUnrecovered j else recoverOpened j

/-- Give up a guard with its owner file. -/
def giveUp (i : ℕ) (code : Code) : Prog calls (Except Code ℕ) := do
  cleanup i
  return .error code

/-- Give up a guard without an owner file. -/
def giveUpEmpty : Prog calls (Except Code ℕ) := do
  let _ ← query (.removeGuard .owner)
  return .error .unsafeManagedState

/-- A guard that has its owner file. -/
def markOwner (i : ℕ) : Prog calls (Except Code ℕ) := do
  if !(← query .restrictOwner) then giveUp i .unsafeManagedState
  else if !(← query (.tryLock i)) then giveUp i .operationActive
  else if !(← query (.writeMarker i)) then giveUp i .unsafeManagedState
  else if !(← query (.sync i)) then giveUp i .unsafeManagedState
  else return .ok i

/-- A guard directory that has just been made. -/
def fillGuard : Prog calls (Except Code ℕ) := do
  if !(← query .restrictGuard) then giveUpEmpty
  else
    match ← query .createOwner with
    | none => giveUpEmpty
    | some i => markOwner i

def acquireInstallGuard : Prog calls (Except Code ℕ) := do
  if !(← query .lstatRoot) then return .error .unsafeManagedState
  match ← query .mkdirGuard with
  | .made => fillGuard
  | .failed => return .error .unsafeManagedState
  | .exist =>
    match ← recoverBackgroundInstallGuard with
    | none => return .error .unsafeManagedState
    | some false => return .error .operationActive
    | some true =>
      match ← query .mkdirGuard with
      | .made => fillGuard
      | _ => return .error .operationActive

/-! ## The operation lock -/

/-- The directory of the operation file; `none` if it cannot be made. -/
def prepareBackground (create : Bool) : Prog calls (Option Bool) := do
  if !create then return some false
  match ← query .mkdirBackground with
  | .made => return some true
  | .exist => return some false
  | .failed => return none

/-- A directory that has just been made is restricted to its owner. -/
def restrictCreated (created : Bool) : Prog calls Bool :=
  if created then query .restrictBackground else return true

def openOperationFile : Prog calls (Option Code) := do
  match ← query .createOperation with
  | .made =>
    if !(← query .restrictOperation) then return some .unsafeManagedState
    return none
  | .exist =>
    if !(← query .validateOperation) then return some .unsafeManagedState
    if !(← query .openOperation) then return some .operationActive
    return none
  | .failed => return some .operationActive

/-- What `lock` does once it has the guard. -/
def lockOperation (create : Bool) : Prog calls (Option Code) := do
  if !(← query .validateRoot) then return some .unsafeManagedState
  match ← prepareBackground create with
  | none => return some .unsafeManagedState
  | some created =>
    if !(← query .lstatBackground) then return some .notRegistered
    if !(← restrictCreated created) then return some .unsafeManagedState
    match ← openOperationFile with
    | some code => return some code
    | none =>
      if !(← query .statOperation) then return some .unsafeManagedState
      if !(← query .tryOperationLock) then return some .operationActive
      return none

def lock (create : Bool) : Prog calls (Except Code ℕ) := do
  match ← acquireInstallGuard with
  | .error code => return .error code
  | .ok i =>
    match ← lockOperation create with
    | some code => giveUp i code
    | none => return .ok i

def release (i : ℕ) : Prog calls Unit := do
  query .releaseOperationLock
  query .closeOperation
  cleanup i

/-- A process that takes the lock and gives it back. -/
def operate (create : Bool) : Prog calls Unit := do
  match ← lock create with
  | .error _ => return
  | .ok i =>
    query .work
    release i

/-! ## The world -/

/-- A guard directory, who made it, its owner file, and who has cleared the marker to recover
    it. -/
structure Guard where
  maker : ℕ
  owner : Option ℕ := none
  clearer : Option ℕ := none
  deriving DecidableEq

structure World where
  guard : Option Guard := none
  contents : ℕ → Contents := fun _ => .empty
  holder : ℕ → Option ℕ := fun _ => none
  files : ℕ := 0
  background : Bool := false
  operation : Bool := false
  operationHolder : Option ℕ := none
  processes : ℕ := 0
  dead : List ℕ := []

structure Environment where
  ok : Bool := true

instance : Inhabited Environment := ⟨{}⟩

namespace World

def owner (w : World) : Option ℕ := w.guard.bind (·.owner)

def mkdirGuard (w : World) (me : ℕ) (e : Environment) : World × Creation :=
  if w.guard.isSome then (w, .exist)
  else if e.ok then ({ w with guard := some { maker := me } }, .made)
  else (w, .failed)

def removeGuard (w : World) (e : Environment) : World × Bool :=
  match w.guard with
  | none => (w, false)
  | some g => if e.ok && g.owner.isNone then ({ w with guard := none }, true) else (w, false)

def createOwner (w : World) (e : Environment) : World × Option ℕ :=
  match w.guard with
  | none => (w, none)
  | some g =>
    if e.ok && g.owner.isNone then
      ({ w with guard := some { g with owner := some w.files }, files := w.files + 1,
                contents := Function.update w.contents w.files .empty }, some w.files)
    else (w, none)

def removeOwner (w : World) (e : Environment) : World × Bool :=
  match w.guard with
  | none => (w, false)
  | some g =>
    if e.ok && g.owner.isSome then ({ w with guard := some { g with owner := none } }, true)
    else (w, false)

def tryLock (w : World) (i me : ℕ) (e : Environment) : World × Bool :=
  if e.ok && (w.holder i).isNone then
    ({ w with holder := Function.update w.holder i (some me) }, true)
  else (w, false)

def unlock (w : World) (i me : ℕ) : World :=
  if w.holder i = some me then { w with holder := Function.update w.holder i none } else w

def write (w : World) (i : ℕ) (c : Contents) : World :=
  { w with contents := Function.update w.contents i c }

/-- A recovery that clears the marker is remembered. -/
def truncate (w : World) (role : Role) (i me : ℕ) : World :=
  { w.write i .empty with
    guard :=
      match role with
      | .owner => w.guard
      | .recovery => w.guard.map fun g => if g.owner = some i then { g with clearer := some me } else g }

def create (present : Bool) (e : Environment) : Creation :=
  if present then .exist else if e.ok then .made else .failed

def tryOperationLock (w : World) (me : ℕ) (e : Environment) : World × Bool :=
  if e.ok && w.operationHolder.isNone then ({ w with operationHolder := some me }, true)
  else (w, false)

def releaseOperationLock (w : World) (me : ℕ) : World :=
  if w.operationHolder = some me then { w with operationHolder := none } else w

/-- A process dies. -/
def exit (w : World) (me : ℕ) : World :=
  { w with
    holder := fun i => if w.holder i = some me then none else w.holder i
    operationHolder := if w.operationHolder = some me then none else w.operationHolder
    dead := me :: w.dead }

end World

def handler : Handler calls World ℕ Environment
  | .lstatRoot, e, w, me => (w, me, e.ok)
  | .mkdirGuard, e, w, me => ((w.mkdirGuard me e).1, me, (w.mkdirGuard me e).2)
  | .lstatGuard, e, w, me => (w, me, e.ok && w.guard.isSome)
  | .readGuard, e, w, me =>
    (w, me, if e.ok then w.guard.map fun g => (g.owner.map fun _ => Entry.owner).toList else none)
  | .restrictGuard, e, w, me => (w, me, e.ok)
  | .removeGuard _, e, w, me => ((w.removeGuard e).1, me, (w.removeGuard e).2)
  | .createOwner, e, w, me => ((w.createOwner e).1, me, (w.createOwner e).2)
  | .restrictOwner, e, w, me => (w, me, e.ok)
  | .validateOwner, e, w, me => (w, me, if e.ok then w.owner else none)
  | .openOwner, e, w, me => (w, me, if e.ok then w.owner else none)
  | .removeOwner _, e, w, me => ((w.removeOwner e).1, me, (w.removeOwner e).2)
  | .tryLock i, e, w, me => ((w.tryLock i me e).1, me, (w.tryLock i me e).2)
  | .unlock i, _, w, me => (w.unlock i me, me, ())
  | .close i, e, w, me => (w.unlock i me, me, e.ok)
  | .sync _, e, w, me => (w, me, e.ok)
  | .readAll i, e, w, me => (w, me, if e.ok then some (w.contents i) else none)
  | .writeMarker i, e, w, me => (w.write i (if e.ok then .marker else .short), me, e.ok)
  | .truncate role i, _, w, me => (w.truncate role i me, me, ())
  | .validateRoot, e, w, me => (w, me, e.ok)
  | .mkdirBackground, e, w, me =>
    ({ w with background := w.background || e.ok }, me, World.create w.background e)
  | .lstatBackground, e, w, me => (w, me, e.ok && w.background)
  | .restrictBackground, e, w, me => (w, me, e.ok)
  | .createOperation, e, w, me =>
    ({ w with operation := w.operation || e.ok }, me, World.create w.operation e)
  | .validateOperation, e, w, me => (w, me, e.ok && w.operation)
  | .openOperation, e, w, me => (w, me, e.ok && w.operation)
  | .restrictOperation, e, w, me => (w, me, e.ok)
  | .statOperation, e, w, me => (w, me, e.ok && w.operation)
  | .tryOperationLock, e, w, me => ((w.tryOperationLock me e).1, me, (w.tryOperationLock me e).2)
  | .releaseOperationLock, _, w, me => (w.releaseOperationLock me, me, ())
  | .closeOperation, _, w, me => (w, me, ())
  | .work, _, w, me => (w, me, ())

/-! ## Runs -/

/-- The call that a program makes next. -/
def pending {α : Type} : Prog calls α → Option Call
  | .ret _ => none
  | .call c _ => some c

/-- A process has taken the lock and not begun to release it. -/
def AtWork {α : Type} (p : Prog calls α) : Prop :=
  pending p = some .work ∨ pending p = some .releaseOperationLock

/-- A process is about to remove a guard, or its owner file, to recover it. -/
def RemovesRecovered {α : Type} (p : Prog calls α) : Prop :=
  pending p = some (.removeOwner .recovery) ∨ pending p = some (.removeGuard .recovery)

/-- A call of a process while no other runs and nothing fails. -/
def alone (me : ℕ) (c : Call) (w : World) : World × c.Answer :=
  ((handler c {} w me).1, (handler c {} w me).2.2)

/-- A process that acquires the guard while no other runs. -/
def World.acquire (w : World) (me : ℕ) : World × Except Code ℕ :=
  finish (I := calls) (alone me) w acquireInstallGuard

abbrev System := Pool calls World ℕ Unit

/-- An install root without a guard. -/
def System.empty : System := ⟨{}, []⟩

inductive Move where
  | start (create : Bool)
  | advance (i : ℕ) (e : Environment)
  | exit (me : ℕ)

def alive (me : ℕ) (w : World) : Bool := me ∉ w.dead

namespace System

def start (s : System) (create : Bool) : System :=
  (s.spawn ⟨s.shared.processes, operate create⟩).outside fun w =>
    { w with processes := w.processes + 1 }

def step (s : System) : Move → System
  | .start create => s.start create
  | .advance i e => s.proceed handler alive i e
  | .exit me => s.outside (·.exit me)

/-- The moves one after the other. -/
def after (s : System) (ms : List Move) : System := ms.foldl step s

end System

end InstallGuard

end HomeLab
