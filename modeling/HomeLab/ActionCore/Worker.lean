/-
  The execution of one action.

  `Worker.execute` is a program: it reads the clock and its contexts, asks the
  authority, inspects and changes the container and keeps the journal.  What it
  is answered is left open.  Its calls follow a protocol (`next`): one attempt
  is acquired, for the key of the request; the container is changed at most
  once, after `Intent` has succeeded and before `Finish`; and a code that
  stands for a known outcome is returned only when `Finish` has stored it or
  `Existing` has replayed it (`execute_follows`).
-/
import HomeLab.Lib.Interaction
import HomeLab.ActionCore.Key

namespace HomeLab

namespace ActionCore

/-- The state of a container. -/
inductive State where
  | created
  | exited
  | running
  | paused
  | restarting
  | removing
  | dead
  | unknownState
  deriving DecidableEq, Repr

/-- When a request was delivered, and until when the lease lasts. -/
structure Delivery where
  startedAt : Instant
  receivedAt : Instant
  leaseDeadline : Instant
  deriving DecidableEq

/-- The parts a worker was made with; a missing part is `nil`. -/
structure Worker where
  authority : Bool := true
  journal : Bool := true
  engine : Bool := true

/-! ## Time -/

/-- What a context answers: whether it is done, and the time left until its
    deadline if it has one. -/
structure Context where
  done : Bool
  deadline : Option Duration
  deriving DecidableEq

def remaining (ctx : Context) (now limit : Instant) : Duration :=
  if ctx.done then 0
  else
    match ctx.deadline with
    | some d => min (timeSub limit now) d
    | none => timeSub limit now

/-- The difference of two durations wraps around. -/
def callBudget (ctx : Context) (now limit : Instant) (grace : UInt8) : Duration :=
  let budget := min (45 * second) ((remaining ctx now limit - 5 * second).bmod (2 ^ 64))
  if budget < grace.toNat * second + 5 * second then 0 else budget

/-- The instant at which an execution must be over. -/
def endOf (request : Request) (delivery : Delivery) : Instant :=
  min (min (min request.expiresAt (delivery.startedAt + 90 * second))
    (delivery.receivedAt + minute)) (delivery.leaseDeadline - 30 * second)

/-! ## Codes -/

def classify : Operation → State → Code × Bool
  | .start, .running => (.alreadyRunning, false)
  | .start, .created | .start, .exited => (.started, true)
  | .stop, .created | .stop, .exited => (.alreadyStopped, false)
  | .stop, .running => (.stopped, true)
  | .restart, .running => (.restarted, true)
  | _, _ => (.stateConflict, false)

/-- The codes a replay may return. -/
def retained (code : Code) (op : Operation) : Bool :=
  match code with
  | .denied | .stateConflict | .outcomeUnknown => true
  | .started | .alreadyRunning => op = .start
  | .stopped | .alreadyStopped => op = .stop
  | .restarted => op = .restart
  | _ => false

/-- The codes that stand for a known outcome. -/
def Code.known : Code → Bool
  | .started | .stopped | .restarted | .alreadyRunning | .alreadyStopped | .stateConflict => true
  | _ => false

/-! ## Calls -/

/-- The contexts of an execution. -/
inductive Scope where
  | parent
  | execution
  | call
  deriving DecidableEq

inductive AcquireError where
  | identityConflict
  | unresolvedTarget
  | other
  deriving DecidableEq

/-- The calls of an execution; `mutate` is the engine's `Start`, `Stop` and
    `Restart`. -/
inductive Call where
  | now
  | context (s : Scope)
  | check
  | acquire (key : Key)
  | existing
  | intent
  | finish (code : Code)
  | close
  | inspect (container : Bytes)
  | mutate (op : Operation) (container : Bytes) (grace : UInt8)

@[reducible] def Call.Answer : Call → Type
  | now => Instant
  | context _ => Context
  | check => Bool
  | acquire _ => Except AcquireError Unit
  | existing => Option Code
  | intent => Bool
  | finish _ => Bool
  | close => Unit
  | inspect _ => Option State
  | mutate _ _ _ => Bool

abbrev calls : Interface := ⟨Call, Call.Answer⟩

open Prog

/-- Make one call. -/
def query (c : Call) : Prog calls c.Answer := ask (I := calls) c

/-! ## Execute -/

/-- `remaining` of the execution's context, now. -/
def remainingNow (limit : Instant) : Prog calls Duration := do
  let now ← query .now
  let ctx ← query (.context .execution)
  return remaining ctx now limit

/-- `callBudget` of the execution's context, now. -/
def callBudgetNow (limit : Instant) (grace : UInt8) : Prog calls Duration := do
  let now ← query .now
  let ctx ← query (.context .execution)
  return callBudget ctx now limit grace

/-- Change the container as the request says. -/
def mutate (request : Request) (binding : Binding) : Prog calls Bool :=
  match request.operation with
  | .start => query (.mutate .start binding.containerId 0)
  | .stop => query (.mutate .stop binding.containerId request.graceSeconds)
  | .restart => query (.mutate .restart binding.containerId request.graceSeconds)

/-- The engine call came back too late. -/
def late (limit callStarted : Instant) (budget : Duration) : Prog calls Bool := do
  let ctx ← query (.context .call)
  if ctx.done then return true
  let now ← query .now
  if budget ≤ timeSub now callStarted then return true
  return (← remainingNow limit) ≤ 5 * second

/-- The part of `Execute` that changes the container. -/
def dispatch (request : Request) (binding : Binding) (limit : Instant) (code : Code) :
    Prog calls Code := do
  if (← callBudgetNow limit request.graceSeconds) ≤ 0 then return .budgetExceeded
  if !(← query .intent) then return .outcomeUnknown
  let budget ← callBudgetNow limit request.graceSeconds
  if budget ≤ 0 then return .outcomeUnknown
  let callStarted ← query .now
  let ok ← mutate request binding
  let late ← late limit callStarted budget
  if !ok || late then return .outcomeUnknown
  if !(← query (.finish code)) then return .outcomeUnknown
  if (← remainingNow limit) ≤ 0 then return .outcomeUnknown
  return code

/-- The part of `Execute` on an attempt that was never dispatched. -/
def perform (request : Request) (binding : Binding) (limit : Instant) : Prog calls Code := do
  if (← remainingNow limit) ≤ 0 then return .budgetExceeded
  match ← query (.inspect binding.containerId) with
  | none => return .unavailable
  | some state =>
    if (← remainingNow limit) ≤ 0 then return .budgetExceeded
    if !(← query .check) then return .denied
    if (← remainingNow limit) ≤ 0 then return .budgetExceeded
    match classify request.operation state with
    | (code, true) => dispatch request binding limit code
    | (code, false) =>
      if !(← query (.finish code)) then return .unavailable
      if (← remainingNow limit) ≤ 0 then return .budgetExceeded
      return code

/-- The part of `Execute` that holds an attempt. -/
def hold (request : Request) (binding : Binding) (limit : Instant) : Prog calls Code := do
  if (← remainingNow limit) ≤ 0 then return .budgetExceeded
  match ← query .existing with
  | some code =>
    if (← remainingNow limit) ≤ 0 then return .budgetExceeded
    if retained code request.operation then return code
    return .unavailable
  | none => perform request binding limit

section
variable [Sha256]

def Worker.execute (w : Worker) (request : Request) (binding : Binding) (delivery : Delivery) :
    Prog calls Code := do
  let now ← query .now
  if !valid request binding now then return .denied
  if !w.authority || !w.journal || !w.engine then return .unavailable
  if delivery.startedAt = 0 || delivery.receivedAt < delivery.startedAt ||
      30 * second < timeSub delivery.receivedAt delivery.startedAt ||
      now < delivery.receivedAt then
    return .budgetExceeded
  let limit := endOf request delivery
  let parent ← query (.context .parent)
  if remaining parent now limit ≤ 0 then return .budgetExceeded
  if !(← query .check) then return .denied
  if (← remainingNow limit) ≤ 0 then return .budgetExceeded
  match newJournalKey request binding with
  | none => return .unavailable
  | some key =>
    match ← query (.acquire key) with
    | .error .identityConflict => return .identityConflict
    | .error .unresolvedTarget => return .outcomeUnknown
    | .error .other => return .unavailable
    | .ok () =>
      let code ← hold request binding limit
      -- the deferred `Close` of the attempt
      query .close
      return code

/-! ## The protocol -/

/-- How far an execution has come with its attempt. -/
inductive Phase where
  | idle
  | held
  | replayed (code : Code)
  | dispatched
  | invoked
  | settled (code : Code)
  | failed
  deriving DecidableEq

/-- The place of an execution in the protocol. -/
structure Position where
  request : Request
  binding : Binding
  phase : Phase

/-- The phase reached by a call, if the call is allowed. -/
def Phase.next (request : Request) (binding : Binding) :
    Phase → (c : Call) → c.Answer → Option Phase
  | q, .now, _ | q, .context _, _ | q, .check, _ | q, .inspect _, _ | q, .close, _ => some q
  | .idle, .acquire key, x =>
    if newJournalKey request binding = some key then
      some (match x with | .ok _ => .held | .error _ => .failed)
    else none
  | .held, .existing, x => some (match x with | none => .held | some code => .replayed code)
  | .held, .intent, x => some (if x then .dispatched else .failed)
  | .dispatched, .mutate op container _, _ =>
    if op = request.operation ∧ container = binding.containerId then some .invoked else none
  | .held, .finish code, x | .invoked, .finish code, x =>
    some (if x then .settled code else .failed)
  | _, _, _ => none

def next (q : Position) (c : Call) (x : c.Answer) : Option Position :=
  (q.phase.next q.request q.binding c x).map fun phase => { q with phase }

/-- A known outcome was stored or replayed. -/
def Returns (q : Position) (code : Code) : Prop :=
  code.known = true → q.phase = .settled code ∨ q.phase = .replayed code

/-- The program follows the protocol from the given place. -/
abbrev Conforms (q : Position) (p : Prog calls Code) : Prop :=
  Follows (I := calls) next Returns q p

/-- The program only looks: it stays where it is. -/
def Quiet {α : Type} (p : Prog calls α) : Prop :=
  ∀ q : Position, Follows (I := calls) next (fun q' _ => q' = q) q p

/-! ## Execute follows the protocol -/

variable {request : Request} {binding : Binding} {limit : Instant} {q : Position}

theorem conforms_call {c : Call} {k : c.Answer → Prog calls Code}
    (h : ∀ x, ∃ phase, q.phase.next q.request q.binding c x = some phase ∧
      Conforms ⟨q.request, q.binding, phase⟩ (k x)) : Conforms q (query c >>= k) := by
  refine fun x => ?_
  obtain ⟨phase, hnext, hk⟩ := h x
  exact ⟨_, by rw [next, hnext]; rfl, hk⟩

theorem Quiet.conforms {α : Type} {p : Prog calls α} (hp : Quiet p) {k : α → Prog calls Code}
    (hk : ∀ a, Conforms q (k a)) : Conforms q (p >>= k) := by
  refine Follows.bind (hp q) ?_
  rintro q' a rfl
  exact hk a

theorem Quiet.ret {α : Type} (a : α) : Quiet (pure a) := fun _ => rfl

theorem Quiet.look {α : Type} {c : Call}
    (hc : ∀ (q : Position) x, q.phase.next q.request q.binding c x = some q.phase)
    {k : c.Answer → Prog calls α} (hk : ∀ x, Quiet (k x)) : Quiet (query c >>= k) :=
  fun q => Follows.stay (fun x => by rw [next, hc]; rfl) fun x => hk x q

theorem quiet_query {c : Call}
    (hc : ∀ (q : Position) x, q.phase.next q.request q.binding c x = some q.phase) :
    Quiet (query c) := Quiet.look hc fun x => Quiet.ret x

theorem quiet_remainingNow : Quiet (remainingNow limit) :=
  Quiet.look (fun _ _ => rfl) fun _ => Quiet.look (fun _ _ => rfl) fun _ => Quiet.ret _

theorem quiet_callBudgetNow {grace : UInt8} : Quiet (callBudgetNow limit grace) :=
  Quiet.look (fun _ _ => rfl) fun _ => Quiet.look (fun _ _ => rfl) fun _ => Quiet.ret _

theorem quiet_late {callStarted : Instant} {budget : Duration} :
    Quiet (late limit callStarted budget) := by
  refine Quiet.look (fun _ _ => rfl) fun ctx => ?_
  split_ifs
  · exact Quiet.ret _
  refine Quiet.look (fun _ _ => rfl) fun now => ?_
  split_ifs
  · exact Quiet.ret _
  · exact Quiet.look (fun _ _ => rfl) fun _ => Quiet.look (fun _ _ => rfl) fun _ => Quiet.ret _

/-- Any code may be returned that does not stand for a known outcome. -/
theorem conforms_unknown {code : Code} (h : code.known = false) : Conforms q (pure code) :=
  fun hk => absurd (h.symm.trans hk) (by decide)

theorem conforms_settled {code failure : Code} (hfailure : failure.known = false) :
    Conforms ⟨request, binding, .settled code⟩ (do
      if (← remainingNow limit) ≤ 0 then return failure
      return code) := by
  refine quiet_remainingNow.conforms fun d => ?_
  split_ifs
  · exact conforms_unknown hfailure
  · exact fun _ => Or.inl rfl

theorem mutate_conforms {k : Bool → Prog calls Code}
    (hk : ∀ ok, Conforms ⟨request, binding, .invoked⟩ (k ok)) :
    Conforms ⟨request, binding, .dispatched⟩ (mutate request binding >>= k) := by
  rw [mutate]
  cases hop : request.operation <;>
  · refine conforms_call fun ok => ⟨.invoked, ?_, hk ok⟩
    simp [Phase.next, hop]

theorem dispatch_conforms (code : Code) :
    Conforms ⟨request, binding, .held⟩ (dispatch request binding limit code) := by
  refine quiet_callBudgetNow.conforms fun d => ?_
  split_ifs
  · exact conforms_unknown rfl
  refine conforms_call fun ok => ?_
  cases ok with
  | false => exact ⟨.failed, rfl, conforms_unknown rfl⟩
  | true =>
    refine ⟨.dispatched, rfl, quiet_callBudgetNow.conforms fun budget => ?_⟩
    split_ifs
    · exact conforms_unknown rfl
    refine (quiet_query fun _ _ => rfl).conforms fun callStarted => ?_
    refine mutate_conforms fun ok => quiet_late.conforms fun late => ?_
    split_ifs
    · exact conforms_unknown rfl
    refine conforms_call fun ok => ?_
    cases ok with
    | false => exact ⟨.failed, rfl, conforms_unknown rfl⟩
    | true => exact ⟨.settled code, rfl, conforms_settled rfl⟩

theorem perform_conforms :
    Conforms ⟨request, binding, .held⟩ (perform request binding limit) := by
  refine quiet_remainingNow.conforms fun d => ?_
  split_ifs
  · exact conforms_unknown rfl
  refine (quiet_query fun _ _ => rfl).conforms fun state => ?_
  cases state with
  | none => exact conforms_unknown rfl
  | some state =>
    refine quiet_remainingNow.conforms fun d => ?_
    split_ifs
    · exact conforms_unknown rfl
    refine (quiet_query fun _ _ => rfl).conforms fun permitted => ?_
    split_ifs
    · exact conforms_unknown rfl
    refine quiet_remainingNow.conforms fun d => ?_
    split_ifs
    · exact conforms_unknown rfl
    rcases classify request.operation state with ⟨code, mutates⟩
    cases mutates with
    | true => exact dispatch_conforms code
    | false =>
      refine conforms_call fun ok => ?_
      cases ok with
      | false => exact ⟨.failed, rfl, conforms_unknown rfl⟩
      | true => exact ⟨.settled code, rfl, conforms_settled rfl⟩

theorem hold_conforms : Conforms ⟨request, binding, .held⟩ (hold request binding limit) := by
  refine quiet_remainingNow.conforms fun d => ?_
  split_ifs
  · exact conforms_unknown rfl
  refine conforms_call fun existing => ?_
  cases existing with
  | none => exact ⟨.held, rfl, perform_conforms⟩
  | some code =>
    refine ⟨.replayed code, rfl, quiet_remainingNow.conforms fun d => ?_⟩
    split_ifs
    · exact conforms_unknown rfl
    · exact fun _ => Or.inr rfl
    · exact conforms_unknown rfl

/-- **`Execute` follows the protocol.** -/
theorem execute_follows (w : Worker) (delivery : Delivery) :
    Conforms ⟨request, binding, .idle⟩ (w.execute request binding delivery) := by
  refine (quiet_query fun _ _ => rfl).conforms fun now => ?_
  split_ifs
  · exact conforms_unknown rfl
  · exact conforms_unknown rfl
  · exact conforms_unknown rfl
  refine (quiet_query fun _ _ => rfl).conforms fun parent => ?_
  split_ifs
  · exact conforms_unknown rfl
  refine (quiet_query fun _ _ => rfl).conforms fun permitted => ?_
  split_ifs
  · exact conforms_unknown rfl
  refine quiet_remainingNow.conforms fun d => ?_
  split_ifs
  · exact conforms_unknown rfl
  cases hkey : newJournalKey request binding with
  | none => exact conforms_unknown rfl
  | some key =>
    refine conforms_call fun acquired => ?_
    have hnext : ∀ x, Phase.idle.next request binding (.acquire key) x =
        some (match x with | .ok _ => .held | .error _ => .failed) := fun x => if_pos hkey
    cases acquired with
    | error e => exact ⟨.failed, hnext _, by cases e <;> exact conforms_unknown rfl⟩
    | ok u =>
      refine ⟨.held, hnext _, Follows.bind hold_conforms fun q code hcode => ?_⟩
      exact (quiet_query fun _ _ => rfl).conforms fun _ => hcode

end

end ActionCore

end HomeLab
