/-
  The graceful-stop channel of a managed observer.

  An endpoint takes a file lock, replaces the record that an earlier one may have
  left, publishes its own under a fresh nonce and watches for a request that
  carries it; it ends with `Close`, which removes the record, or with `Abandon`,
  which leaves it.  `requestStop` reads the record, publishes a request and polls
  until the record is gone.

  Endpoints and requesters are programs over the operations on the control
  directory.  Reading a file is one operation: a file is only ever put in place
  by a rename, and a file that changes between its validation and its opening
  is refused.  Every operation may also fail.
-/
import HomeLab.Lib.Bytes
import HomeLab.Lib.Calendar
import HomeLab.Lib.Interaction

namespace HomeLab

namespace Lifecycle

open Prog

/-- The control files; each is written under a temporary name of its own. -/
inductive File where
  | record
  | request
  deriving DecidableEq

/-- What reading a control file gives: its nonce, `ErrNotExist` or another error. -/
inductive Read where
  | found (nonce : Bytes)
  | missing
  | failed
  deriving DecidableEq

/-- What becomes of a temporary file: it is not created, not finished, or written. -/
inductive Staging where
  | refused
  | broken
  | written
  deriving DecidableEq

/-- How an endpoint ends. -/
inductive Ending where
  | close
  | abandon
  deriving DecidableEq

/-- Why a file is removed: `New` replaces what it finds or withdraws what it published, or the
    endpoint removes its own. -/
inductive Removal where
  | replace
  | withdraw
  | own
  deriving DecidableEq

/-- What wakes an endpoint. -/
inductive Wake where
  | tick
  | ended (how : Ending)
  deriving DecidableEq

inductive Call where
  /-- The checks of the directory. -/
  | prepare
  | lock
  | unlock
  | cleanupTemp (f : File)
  | read (f : File)
  | remove (f : File) (why : Removal)
  | random
  | create (f : File) (nonce : Bytes)
  | absent (f : File)
  | rename (f : File)
  | discard (f : File)
  /-- The watcher's ticker, or `Close` or `Abandon`. -/
  | wait
  /-- The requester's context and ticker; `false` when the context is done. -/
  | poll

@[reducible] def Call.Answer : Call → Type
  | prepare => Bool
  | lock => Bool
  | unlock => Unit
  | cleanupTemp _ => Bool
  | read _ => Read
  | remove _ _ => Bool
  | random => Option Bytes
  | create _ _ => Staging
  | absent _ => Bool
  | rename _ => Bool
  | discard _ => Unit
  | wait => Wake
  | poll => Bool

abbrev calls : Interface := ⟨Call, Call.Answer⟩

/-- Make one call. -/
def query (c : Call) : Prog calls c.Answer := ask (I := calls) c

/-! ## Files -/

def writeAtomic (f : File) (nonce : Bytes) : Prog calls Bool := do
  match ← query (.create f nonce) with
  | .refused => return false
  | .broken =>
    query (.discard f)
    return false
  | .written =>
    if !(← query (.absent f)) then
      query (.discard f)
      return false
    if !(← query (.rename f)) then
      query (.discard f)
      return false
    return true

/-- Remove the file that an earlier process may have left. -/
def replace (f : File) : Prog calls Bool := do
  match ← query (.read f) with
  | .found _ => query (.remove f .replace)
  | .missing => return true
  | .failed => return false

def removeOwn (f : File) (nonce : Bytes) (why : Removal) : Prog calls Bool := do
  match ← query (.read f) with
  | .found n => if n ≠ nonce then return false else query (.remove f why)
  | .missing => return true
  | .failed => return false

/-! ## Endpoints -/

def interval (configured : Duration) : Duration :=
  if configured = 0 then 100 * 1000000 else configured

/-- The part of `New` under the lock. -/
def newLocked (configured : Duration) : Prog calls (Option Bytes) := do
  if !(← query (.cleanupTemp .record)) then return none
  if !(← query (.cleanupTemp .request)) then return none
  if !(← replace .record) then return none
  if !(← replace .request) then return none
  match ← query .random with
  | none => return none
  | some nonce =>
    if !(← writeAtomic .record nonce) then return none
    if interval configured < 10 * 1000000 || second < interval configured then
      let _ ← removeOwn .record nonce .withdraw
      return none
    return some nonce

/-- The nonce of the new endpoint, if there is one. -/
def new (configured : Duration) : Prog calls (Option Bytes) := do
  if !(← query .prepare) then return none
  if !(← query .lock) then return none
  match ← newLocked configured with
  | some nonce => return some nonce
  | none =>
    query .unlock
    return none

/-- Watch until the endpoint is ended, for at most the given number of wakes; a watcher that has
    signalled the stop reads no more. -/
def watch (nonce : Bytes) : Bool → ℕ → Prog calls (Option Ending)
  | _, 0 => return none
  | signalled, n + 1 => do
    match ← query .wait with
    | .ended how => return some how
    | .tick =>
      if signalled then watch nonce true n
      else
        match ← query (.read .request) with
        | .found r =>
          if r ≠ nonce then watch nonce false n
          else if !(← query (.remove .request .own)) then watch nonce false n
          else watch nonce true n
        | _ => watch nonce false n

def finish (nonce : Bytes) (how : Ending) : Prog calls Unit := do
  if how = .close then
    let _ ← removeOwn .request nonce .own
    let _ ← removeOwn .record nonce .own
  query .unlock

/-- What a party comes to; `waiting` is a party that goes on. -/
inductive Outcome where
  | failed
  | waiting
  | ended
  /-- `RequestStop` returns `nil`. -/
  | stopped
  deriving DecidableEq

/-- The life of an endpoint. -/
def endpoint (configured : Duration) (wakes : ℕ) : Prog calls Outcome := do
  match ← new configured with
  | none => return .failed
  | some nonce =>
    match ← watch nonce false wakes with
    | none => return .waiting
    | some how =>
      finish nonce how
      return .ended

/-! ## The requester -/

/-- Publish the request, unless it is already there. -/
def publish (nonce : Bytes) : Prog calls Bool := do
  match ← query (.read .request) with
  | .found r => return r = nonce
  | .missing =>
    if !(← query (.cleanupTemp .request)) then return false
    writeAtomic .request nonce
  | .failed => return false

/-- Wait until the record is gone, for at most the given number of polls. -/
def await (nonce : Bytes) : ℕ → Prog calls Outcome
  | 0 => return .waiting
  | n + 1 => do
    if !(← query .poll) then return .failed
    match ← query (.read .record) with
    | .missing => return .stopped
    | .failed => return .failed
    | .found current => if current ≠ nonce then return .failed else await nonce n

def requestStop (polls : ℕ) : Prog calls Outcome := do
  if !(← query .poll) then return .failed
  if !(← query .prepare) then return .failed
  match ← query (.read .record) with
  | .found nonce =>
    if !(← publish nonce) then return .failed
    await nonce polls
  | _ => return .failed

/-! ## The directory -/

/-- The lock with its holder, and the control files with the nonces they carry. -/
structure Directory where
  lock : Option ℕ
  file : File → Option Bytes
  temp : File → Option Bytes

/-- An endpoint or a requester: the nonce it drew or read, and how it was ended. -/
structure Party where
  id : ℕ
  requester : Bool
  nonce : Option Bytes
  ended : Option Ending

/-- What the outside world decides during one operation. -/
structure Answers where
  ok : Bool := true
  random : Bytes := []
  staging : Staging := .written
  wake : Wake := .tick

/-- Write one file. -/
def put (files : File → Option Bytes) (f : File) (content : Option Bytes) : File → Option Bytes :=
  fun g => if g = f then content else files g

/-- The answer to a read. -/
def Directory.read (d : Directory) (ok : Bool) (f : File) : Read :=
  if !ok then .failed
  else
    match d.file f with
    | none => .missing
    | some nonce => .found nonce

/-- A requester keeps the nonce that it reads first. -/
def Party.reads (x : Party) (f : File) : Read → Party
  | .found nonce => if x.requester && f = .record && x.nonce.isNone then
      { x with nonce := some nonce } else x
  | _ => x

/-- How an operation changes the directory and the party, and its answer. -/
def handler : Handler calls Directory Party Answers
  | .prepare, e, d, x | .poll, e, d, x => (d, x, e.ok)
  | .lock, e, d, x =>
    if e.ok && d.lock.isNone then ({ d with lock := some x.id }, x, true) else (d, x, false)
  | .unlock, _, d, x => ({ d with lock := if d.lock = some x.id then none else d.lock }, x, ())
  | .cleanupTemp f, e, d, x =>
    if e.ok then ({ d with temp := put d.temp f none }, x, true) else (d, x, false)
  | .read f, e, d, x => (d, x.reads f (d.read e.ok f), d.read e.ok f)
  | .remove f _, e, d, x =>
    if e.ok && (d.file f).isSome then ({ d with file := put d.file f none }, x, true)
    else (d, x, false)
  | .random, e, d, x =>
    if e.ok then (d, { x with nonce := some e.random }, some e.random) else (d, x, none)
  | .create f nonce, e, d, x =>
    if e.staging = .refused || (d.temp f).isSome then (d, x, .refused)
    else ({ d with temp := put d.temp f (some nonce) }, x, e.staging)
  | .absent f, e, d, x => (d, x, e.ok && (d.file f).isNone)
  | .rename f, e, d, x =>
    if e.ok && (d.temp f).isSome then
      ({ d with file := put d.file f (d.temp f), temp := put d.temp f none }, x, true)
    else (d, x, false)
  | .discard f, e, d, x => ({ d with temp := if e.ok then put d.temp f none else d.temp }, x, ())
  | .wait, e, d, x =>
    match e.wake with
    | .tick => (d, x, .tick)
    | .ended how => (d, { x with ended := some how }, .ended how)

/-! ## Runs -/

abbrev Parties := Pool calls Directory Party Outcome

inductive Move where
  | endpoint (configured : Duration) (wakes : ℕ)
  | requestStop (polls : ℕ)
  | advance (i : ℕ) (e : Answers)

def step (p : Parties) : Move → Parties
  | .endpoint configured wakes =>
    p.spawn ⟨⟨p.threads.length, false, none, none⟩, endpoint configured wakes⟩
  | .requestStop polls => p.spawn ⟨⟨p.threads.length, true, none, none⟩, requestStop polls⟩
  | .advance i e => p.advance handler i e

/-- The parties after a sequence of moves on an empty directory. -/
def run (ms : List Move) : Parties :=
  ms.foldl step ⟨⟨none, fun _ => none, fun _ => none⟩, []⟩

theorem run_concat (ms : List Move) (m : Move) : run (ms ++ [m]) = step (run ms) m := by
  simp [run]

end Lifecycle

end HomeLab
