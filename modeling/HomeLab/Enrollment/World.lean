/-
  The world of an enrollment directory.

  The directory holds files that are synced and named durably or not yet, and the
  ledger directory.  The world also remembers what no file shows: which process
  created the lock file, every exchange and its answer, and every record that a
  ledger was provisioned with.

  Processes are started, perform their calls one at a time in any order and die
  at any point.  A process that dies gives its locks free and does nothing more.
-/
import HomeLab.Enrollment.Store

namespace HomeLab

namespace Enrollment

open Prog UploadState

/-! ## Files -/

/-- `content` is absent while the file holds no complete record. -/
structure File where
  content : Option EnrollmentRecord := none
  synced : Bool := false
  named : Bool := false

structure Database where
  pages : ℕ := 0
  record : Option Record := none

/-- `journal` is the size of the rollback journal, if there is one. -/
structure LedgerDirectory where
  lock : Bool := false
  holder : Option ℕ := none
  database : Option Database := none
  journal : Option ℕ := none

/-- How large the files of a ledger may grow. -/
structure StorageLimits where
  pages : ℕ
  databaseBytes : ℕ
  totalBytes : ℕ

def pageBytes : ℕ := 4096

def limits : ProfileKind → StorageLimits
  | .richProcesses | .richProcessesDocker => ⟨128, 4096 * 128, 2 * 1024 * 1024⟩
  | .numeric => ⟨64, 4096 * 64, 1024 * 1024⟩

/-- The limits of `ledgerPrivacy`. -/
def privacyLimits (kind : ProfileKind) : ℕ × ℕ :=
  if kind = .richProcesses then (4096 * 128, 2 * 1024 * 1024) else (4096 * 64, 1024 * 1024)

namespace LedgerDirectory

def databaseBytes (l : LedgerDirectory) : ℕ := (l.database.map (pageBytes * ·.pages)).getD 0

def journalBytes (l : LedgerDirectory) : ℕ := l.journal.getD 0

def ledgerPrivacy (l : LedgerDirectory) (kind : ProfileKind) : Bool :=
  l.databaseBytes ≤ (privacyLimits kind).1 && l.journalBytes ≤ (privacyLimits kind).2

def checkFiles (l : LedgerDirectory) (kind : ProfileKind) : Bool :=
  l.lock && l.database.isSome && l.databaseBytes ≤ (limits kind).databaseBytes &&
    l.journalBytes ≤ (limits kind).totalBytes &&
    l.databaseBytes + l.journalBytes ≤ (limits kind).totalBytes

/-- The header and the schema of the database are those of the kind. -/
def ofKind (l : LedgerDirectory) (kind : ProfileKind) : Bool :=
  l.database.any fun d => d.record.any (·.profile.kind = kind)

def configure (l : LedgerDirectory) (kind : ProfileKind) : Bool :=
  l.database.any (·.pages ≤ (limits kind).pages)

def record (l : LedgerDirectory) : Option Record := l.database.bind (·.record)

def unlocked (l : LedgerDirectory) : LedgerDirectory := { l with holder := none }

/-- Give the lock free if the process holds it. -/
def release (l : LedgerDirectory) (me : ℕ) : LedgerDirectory :=
  if l.holder = some me then l.unlocked else l

end LedgerDirectory

/-! ## The world -/

structure World where
  file : Name → Option File := fun _ => none
  ledger : Option LedgerDirectory := none
  /-- Who holds the lock of the directory. -/
  holder : Option ℕ := none
  /-- Who created the lock file. -/
  creator : Option ℕ := none
  exchanges : List (ExchangeRequest × Option ExchangeResponse) := []
  provisions : List (Binding × ProfileBinding) := []
  processes : ℕ := 0
  dead : List ℕ := []

/-- What the outside world decides: whether an operation succeeds, whether a creation that fails
    has left its file, what is answered, and how many pages a transaction needs. -/
structure Environment where
  ok : Bool := true
  effect : Bool := true
  grant : Option Grant := none
  identity : Option (Vector UInt8 16) := none
  response : Option ExchangeResponse := none
  commit : Commit := .done
  pages : ℕ := 2

namespace World

def names (w : World) : List Name :=
  Name.all.filter fun n => if n = .ledger then w.ledger.isSome else (w.file n).isSome

def setFile (w : World) (n : Name) (f : Option File) : World :=
  { w with file := Function.update w.file n f }

def create (w : World) (n : Name) (me : ℕ) (e : Environment) : World × Bool :=
  if (w.file n).isSome || !(e.ok || e.effect) then (w, false)
  else ({ w.setFile n (some {}) with creator := if n = .lock then some me else w.creator }, e.ok)

def write (w : World) (r : EnrollmentRecord) (e : Environment) : World × Bool :=
  if !e.ok then (w, false)
  else
    match w.file .stage with
    | none => (w, false)
    | some f => (w.setFile .stage (some { f with content := some r }), true)

/-- A rename does not replace a file. -/
def rename (w : World) (n : Name) (e : Environment) : World × Bool :=
  if !e.ok || (w.file n).isSome then (w, false)
  else
    match w.file .stage with
    | none => (w, false)
    | some f => ((w.setFile .stage none).setFile n (some { f with named := false }), true)

def syncFile (w : World) (n : Name) (e : Environment) : World × Bool :=
  if !e.ok then (w, false)
  else (w.setFile n ((w.file n).map fun f => { f with synced := true }), (w.file n).isSome)

def syncDirectory (w : World) (e : Environment) : World × Bool :=
  if !e.ok then (w, false)
  else ({ w with file := fun n => (w.file n).map fun f => { f with named := true } }, true)

def flock (w : World) (me : ℕ) (e : Environment) : World × Bool :=
  if !e.ok || w.holder.isSome then (w, false) else ({ w with holder := some me }, true)

def close (w : World) (me : ℕ) : World := if w.holder = some me then { w with holder := none } else w

def mkdirLedger (w : World) (e : Environment) : World × Bool :=
  if !e.ok || w.ledger.isSome then (w, false) else ({ w with ledger := some {} }, true)

/-- The lock file of the ledger is created, or opened; then it is locked. -/
def ledgerLock (w : World) (create : Bool) (me : ℕ) (e : Environment) : World × Bool :=
  match w.ledger with
  | none => (w, false)
  | some l =>
    if create then
      if l.lock || !(e.ok || e.effect) then (w, false)
      else ({ w with ledger := some { l with lock := true, holder := if e.ok then some me else l.holder } },
        e.ok)
    else if !e.ok || !l.lock || l.holder.isSome then (w, false)
    else ({ w with ledger := some { l with holder := some me } }, true)

def createDatabase (w : World) (e : Environment) : World × Bool :=
  match w.ledger with
  | none => (w, false)
  | some l =>
    if !e.ok || l.database.isSome then (w, false)
    else ({ w with ledger := some { l with database := some {} } }, true)

/-- The provisioning transaction: it may be durable although it reports a failure. -/
def insert (w : World) (r : Record) (e : Environment) : World × Bool :=
  match w.ledger with
  | none => (w, false)
  | some l =>
    if l.database.isNone || l.record.isSome || e.commit = .lost ||
        (limits r.profile.kind).pages < e.pages then (w, false)
    else
      ({ w with
          ledger := some { l with database := some ⟨e.pages, some r⟩ }
          provisions := w.provisions ++ [(r.binding, r.profile)] },
        e.commit = .done)

def closeLedger (w : World) (me : ℕ) : World :=
  { w with ledger := w.ledger.map (·.release me) }

/-- A process dies. -/
def exit (w : World) (me : ℕ) : World :=
  { (w.close me).closeLedger me with dead := me :: w.dead }

end World

def handler : Handler calls World ℕ Environment
  | .alive, e, w, me => (w, me, e.ok)
  | .prepare, e, w, me => (w, me, e.ok)
  | .checkRoot, e, w, me => (w, me, e.ok)
  | .closeStage, e, w, me => (w, me, e.ok)
  | .entries, e, w, me => (w, me, if e.ok then some w.names else none)
  | .create n, e, w, me => ((w.create n me e).1, me, (w.create n me e).2)
  | .openLock, e, w, me => (w, me, e.ok && (w.file .lock).isSome)
  | .flock, e, w, me => ((w.flock me e).1, me, (w.flock me e).2)
  | .write r, e, w, me => ((w.write r e).1, me, (w.write r e).2)
  | .rename n, e, w, me => ((w.rename n e).1, me, (w.rename n e).2)
  | .read n, e, w, me => (w, me, if e.ok then (w.file n).bind (·.content) else none)
  | .syncFile n, e, w, me => ((w.syncFile n e).1, me, (w.syncFile n e).2)
  | .syncDirectory, e, w, me => ((w.syncDirectory e).1, me, (w.syncDirectory e).2)
  | .close, e, w, me => (w.close me, me, e.ok)
  | .grant, e, w, me => (w, me, e.grant)
  | .random, e, w, me => (w, me, e.identity)
  | .exchange q, e, w, me =>
    ({ w with exchanges := w.exchanges ++ [(q, e.response)] }, me, e.response)
  | .mkdirLedger, e, w, me => ((w.mkdirLedger e).1, me, (w.mkdirLedger e).2)
  | .ledgerPrivacy kind, e, w, me => (w, me, e.ok && w.ledger.any (·.ledgerPrivacy kind))
  | .ledgerLock create, e, w, me => ((w.ledgerLock create me e).1, me, (w.ledgerLock create me e).2)
  | .ledgerFresh, e, w, me =>
    (w, me, e.ok && w.ledger.any fun l => l.lock && l.database.isNone && l.journal.isNone)
  | .createDatabase, e, w, me => ((w.createDatabase e).1, me, (w.createDatabase e).2)
  | .checkFiles kind, e, w, me => (w, me, e.ok && w.ledger.any (·.checkFiles kind))
  | .checkHeader kind, e, w, me => (w, me, e.ok && w.ledger.any (·.ofKind kind))
  | .configure kind, e, w, me => (w, me, e.ok && w.ledger.any (·.configure kind))
  | .verifySchema kind, e, w, me => (w, me, e.ok && w.ledger.any (·.ofKind kind))
  | .insert r, e, w, me => ((w.insert r e).1, me, (w.insert r e).2)
  | .syncLedger, e, w, me => (w, me, e.ok)
  | .readRecord, e, w, me => (w, me, if e.ok then w.ledger.bind (·.record) else none)
  | .closeLedger, e, w, me => (w.closeLedger me, me, e.ok)

/-! ## Runs -/

abbrev System := Pool calls World ℕ Finish

/-- A directory that nobody has used. -/
def System.empty : System := ⟨{}, []⟩

inductive Move where
  | enroll (principals : Principals)
  | openReady (principals : Principals) (b : Binding)
  | advance (i : ℕ) (e : Environment)
  | exit (me : ℕ)

section
variable [Sha256] [Projection]

namespace System

def start (s : System) (p : Prog calls Finish) : System :=
  (s.spawn ⟨s.shared.processes, p⟩).outside fun w => { w with processes := w.processes + 1 }

/-- A process that has died does nothing. -/
def proceed (s : System) (i : ℕ) (e : Environment) : System :=
  match s.threads[i]? with
  | none => s
  | some t => if t.loc ∈ s.shared.dead then s else s.advance handler i e

def step (s : System) : Move → System
  | .enroll principals => s.start (enroll principals)
  | .openReady principals b => s.start (openReady principals b)
  | .advance i e => s.proceed i e
  | .exit me => s.outside (·.exit me)

/-- The moves one after the other. -/
def after (s : System) (ms : List Move) : System := ms.foldl step s

end System

end

end Enrollment

end HomeLab
