/-
  Executions over one journal.

  Any number of calls of `Worker.execute` run over one journal, one call to the
  outside at a time and in any order, while the journal may be pruned, closed
  and reopened and the process may crash.  The engine's changes of containers
  are logged.
-/
import HomeLab.ActionJournal.Attempts

namespace HomeLab

namespace Execution

open ActionCore ActionJournal Prog

/-- One change of a container by the engine. -/
structure Invocation where
  request : Request
  binding : ActionCore.Binding
  attempt : Option ℕ
  op : Operation
  container : Bytes
  deriving DecidableEq

/-- The journal and the history of the engine. -/
structure World where
  sys : System
  invoked : List Invocation

/-- A call of `Execute`: its arguments, the handle it uses and its attempt. -/
structure Activation where
  request : Request
  binding : ActionCore.Binding
  guard : Option ExecutionCommit
  generation : ℕ
  attempt : Option ℕ

/-- What the outside world decides during one call. -/
structure Answers where
  now : Instant
  context : Context
  check : Bool
  state : Option State
  mutated : Bool
  /-- The error of a handle that is no longer open. -/
  stale : Error
  journal : ActionJournal.Call

/-- The errors `Execute` tells apart. -/
def acquireError : Error → AcquireError
  | .identityConflict => .identityConflict
  | .unresolvedTarget => .unresolvedTarget
  | _ => .other

section
variable [Sha256]

/-- An `Intent` or `Finish` on the attempt of an execution. -/
def World.transition (w : World) (e : Answers) (x : Activation) (t : Transition) : World × Bool :=
  match x.attempt with
  | none => (w, false)
  | some i =>
    match w.sys.transition e.journal i t with
    | (sys, .ok _) => ({ w with sys }, true)
    | (sys, .error _) => ({ w with sys }, false)

def World.acquire (w : World) (e : Answers) (x : Activation) (k : Key) :
    World × Activation × Except AcquireError Unit :=
  if x.generation ≠ w.sys.generation then (w, x, .error (acquireError e.stale))
  else
    match w.sys.acquire e.journal k x.guard with
    | (sys, .ok i) => ({ w with sys }, { x with attempt := some i }, .ok ())
    | (sys, .error err) => ({ w with sys }, x, .error (acquireError err))

/-- How a call of an execution changes the world, and its answer. -/
def handler : Handler calls World Activation Answers
  | .now, e, w, x => (w, x, e.now)
  | .context _, e, w, x => (w, x, e.context)
  | .check, e, w, x => (w, x, e.check)
  | .acquire k, e, w, x => w.acquire e x k
  | .existing, _, w, x =>
    (w, x, match x.attempt with
      | none => some .unavailable
      | some i => w.sys.existing i)
  | .intent, e, w, x => ((w.transition e x .intent).1, x, (w.transition e x .intent).2)
  | .finish code, e, w, x =>
    ((w.transition e x (.finish code)).1, x, (w.transition e x (.finish code)).2)
  | .close, _, w, x =>
    ({ w with sys := match x.attempt with
        | none => w.sys
        | some i => w.sys.closeAttempt i }, x, ())
  | .inspect _, e, w, x => (w, x, e.state)
  | .mutate op container _, e, w, x =>
    ({ w with invoked := w.invoked ++ [⟨x.request, x.binding, x.attempt, op, container⟩] }, x,
      e.mutated)

/-- The journal and the executions that run over it. -/
abbrev Executions := Pool calls World Activation Code

inductive Move where
  /-- A call of `Execute`. -/
  | begin (w : Worker) (request : Request) (binding : ActionCore.Binding) (delivery : Delivery)
      (guard : Option ExecutionCommit)
  /-- The next call of an execution to the outside. -/
  | advance (i : ℕ) (e : Answers)
  | prune (c : ActionJournal.Call)
  | close
  | openExisting (b : ActionJournal.Binding) (o : Opening)
  | crash

/-- Change the journal from outside. -/
def World.journal (f : System → System) (w : World) : World := { w with sys := f w.sys }

def step (p : Executions) : Move → Executions
  | .begin w request binding delivery guard =>
    p.spawn ⟨⟨request, binding, guard, p.shared.sys.generation, none⟩,
      w.execute request binding delivery⟩
  | .advance i e => p.advance handler i e
  | .prune c => p.outside (World.journal fun sys => (sys.prune c).1)
  | .close => p.outside (World.journal System.close)
  | .openExisting b o => p.outside (World.journal fun sys => (sys.openExisting b o).1)
  -- the executions end with their process
  | .crash => ⟨p.shared.journal System.crash, []⟩

/-- The executions after a sequence of moves on a store just provisioned. -/
def run (b : ActionJournal.Binding) (ms : List Move) : Executions :=
  ms.foldl step ⟨⟨System.provisioned b, []⟩, []⟩

theorem run_concat (b : ActionJournal.Binding) (ms : List Move) (m : Move) :
    run b (ms ++ [m]) = step (run b ms) m := by
  simp [run]

end

end Execution

end HomeLab
