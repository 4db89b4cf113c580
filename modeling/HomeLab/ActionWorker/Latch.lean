/-
  The worker does not poll again after an uncertain conversation.

  A conversation is uncertain if it failed after it claimed or published, if it
  saw a decision other than `permitted`, if it reported an unknown outcome or if
  it relayed a recovery.  Before it ends, the latch `disabled` is set; it is
  never cleared, and while it is set nothing is claimed, checked, reported or
  published.
-/
import HomeLab.ActionWorker.Conversation

namespace HomeLab

namespace ActionWorker

open ActionProtocol Prog

/-! ## Conversations as they happen -/

/-- A call and its answer. -/
abbrev Event := (c : Call) × c.Answer

/-- The answers to the claims of a conversation. -/
def claims (events : List Event) : List (Option (Option Claim)) :=
  events.filterMap fun
    | ⟨.claim _ _, x⟩ => some x
    | _ => none

def checks (events : List Event) : List (CheckRequest × Option ExecutionDecision) :=
  events.filterMap fun
    | ⟨.check q, x⟩ => some (q, x)
    | _ => none

def reports (events : List Event) : List Report :=
  events.filterMap fun
    | ⟨.report _ r, _⟩ => some r
    | _ => none

def published (events : List Event) : List SnapshotQuery :=
  events.filterMap fun
    | ⟨.refreshSnapshot q, _⟩ => some q
    | _ => none

/-- The results of the conversations that were closed. -/
def results (events : List Event) : List Outcome :=
  events.filterMap fun
    | ⟨.close r, _⟩ => some r
    | _ => none

@[simp] theorem claims_append (a b : List Event) : claims (a ++ b) = claims a ++ claims b :=
  List.filterMap_append ..

@[simp] theorem checks_append (a b : List Event) : checks (a ++ b) = checks a ++ checks b :=
  List.filterMap_append ..

@[simp] theorem reports_append (a b : List Event) : reports (a ++ b) = reports a ++ reports b :=
  List.filterMap_append ..

@[simp] theorem published_append (a b : List Event) :
    published (a ++ b) = published a ++ published b := List.filterMap_append ..

@[simp] theorem results_append (a b : List Event) : results (a ++ b) = results a ++ results b :=
  List.filterMap_append ..

section
variable [Sha256]

/-- The operation of the recovery that the broker selected. -/
def relayed : Received → Option RecoveryOperation
  | x =>
    match selection x with
    | .message ⟨_, _, .recoveryQuery q⟩ => some q.operation
    | _ => none

/-- The recoveries that a conversation started to relay. -/
def relays (events : List Event) : List RecoveryOperation :=
  events.filterMap fun
    | ⟨.receive .selection, x⟩ => relayed x
    | _ => none

@[simp] theorem relays_append (a b : List Event) : relays (a ++ b) = relays a ++ relays b :=
  List.filterMap_append ..

theorem relays_selection (x : Received) :
    relays [⟨.receive .selection, x⟩] = (relayed x).toList := by
  cases h : relayed x <;> simp [relays, h]

/-- The worker cannot know what its conversation led to, or must not go on after it. -/
def Uncertain (events : List Event) : Prop :=
  (∃ r ∈ results events, r ≠ .ok) ∧ (claims events ≠ [] ∨ published events ≠ []) ∨
  (∃ q d, (q, some d) ∈ checks events ∧ d.decision ≠ .permitted) ∨
  (∃ r ∈ reports events, r.resultCode = .outcomeUnknown) ∨
  ∃ op ∈ relays events, op ≠ .status

end

/-- Nothing was claimed, checked, reported or published. -/
def Quiet (events : List Event) : Prop :=
  claims events = [] ∧ checks events = [] ∧ reports events = [] ∧ published events = []

/-- The server permitted the claim at a checkpoint, in answer to its own query. -/
def Permitted (claim : Claim) (checkpoint : ℕ) (q : CheckRequest) (d : ExecutionDecision) : Prop :=
  q.request = claim.request ∧ q.executionLeaseId = claim.executionLeaseId ∧
  q.checkpoint = checkpoint ∧ d.decision = .permitted ∧ d.request = q.request ∧
  d.executionLeaseId = q.executionLeaseId ∧ d.checkpoint = q.checkpoint ∧
  d.checkNonce = q.checkNonce

/-- The claims and checks so far are those of a claim that may be reported. -/
def Reportable (claimed : List (Option (Option Claim)))
    (checked : List (CheckRequest × Option ExecutionDecision)) (actionId : Bytes) (r : Report) :
    Prop :=
  ∃ claim q₁ d₁ q₂ d₂, claimed = [some (some claim)] ∧ checked = [(q₁, some d₁), (q₂, some d₂)] ∧
    Permitted claim 1 q₁ d₁ ∧ Permitted claim 2 q₂ d₂ ∧ actionId = claim.request.actionId ∧
    r.request = claim.request ∧ r.executionLeaseId = claim.executionLeaseId ∧
    r.correlationId = claim.correlationId

/-- Whether a call may follow the events of its conversation. -/
def Allowed (before : List Event) : Call → Prop
  | .claim _ _ => claims before = []
  | .report actionId r =>
    reports before = [] ∧ Reportable (claims before) (checks before) actionId r
  | _ => True

/-- Every call of the conversation was allowed when it was made. -/
def Orderly (events : List Event) : Prop :=
  ∀ before e after, events = before ++ e :: after → Allowed before e.1

theorem orderly_nil : Orderly [] := by
  intro before e after h
  simp at h

variable {e : Event} {claim : Claim} {first : Envelope}

theorem Orderly.concat {events : List Event} (h : Orderly events) (he : Allowed events e.1) :
    Orderly (events ++ [e]) := by
  intro before e' after heq
  rcases List.eq_nil_or_concat after with rfl | ⟨after, last, rfl⟩
  · obtain ⟨rfl, h'⟩ := List.append_inj' heq rfl
    obtain rfl := List.singleton_injective h'
    exact he
  · rw [List.concat_eq_append, ← List.cons_append, ← List.append_assoc] at heq
    exact h before e' after (List.append_inj' heq rfl).1

/-! ## What the worker accepts -/

theorem challenge_spec {n : ℕ} {previous : Bytes} {e : Option Envelope} {q : CheckRequest}
    (h : challenge first claim n previous e = some q) :
    q.request = claim.request ∧ q.executionLeaseId = claim.executionLeaseId ∧ q.checkpoint = n := by
  unfold challenge at h
  split at h
  · split_ifs at h with hq
    cases h
    simp only [Bool.and_eq_true, decide_eq_true_eq] at hq
    exact ⟨hq.1.1.1.2, hq.1.1.2, hq.1.2⟩
  · cases h

theorem resultOf_spec {e : Option Envelope} {r : Report} (h : resultOf first claim e = some r) :
    r.request = claim.request ∧ r.executionLeaseId = claim.executionLeaseId ∧
      r.correlationId = claim.correlationId := by
  unfold resultOf at h
  split at h
  · split_ifs at h with hr
    cases h
    simp only [Bool.and_eq_true, decide_eq_true_eq] at hr
    exact ⟨hr.1.1.2, hr.1.2, hr.2⟩
  · cases h

/-! ## Runs -/

/-- The latch of a worker and the conversations that it held. -/
structure State where
  disabled : Bool
  past : List (List Event)
  current : List Event

def State.conversations (s : State) : List (List Event) := s.past ++ [s.current]

/-- A worker that starts. -/
def State.fresh : State := ⟨false, [], []⟩

/-- Take note of a call. -/
def State.record (s : State) : Event → State
  | ⟨.connect, x⟩ => { s with past := s.past ++ [s.current], current := [⟨.connect, x⟩] }
  | ⟨.disableExecution, x⟩ =>
    { s with disabled := true, current := s.current ++ [⟨.disableExecution, x⟩] }
  | e => { s with current := s.current ++ [e] }

/-- The answer to a call; only the latch is the worker's own. -/
def State.answer (s : State) (outside : (c : Call) → c.Answer) : (c : Call) → c.Answer
  | .executionDisabled => s.disabled
  | c => outside c

/-- Everything but the latch is answered by the outside world. -/
def handler (c : calls.Call) (outside : (c : Call) → c.Answer) (s : State) :
    State × calls.Answer c :=
  (s.record ⟨c, s.answer outside c⟩, s.answer outside c)

/-! ## The protocol of the worker -/

/-- What a conversation is judged by. -/
@[ext] structure Record where
  claims : List (Option (Option Claim)) := []
  checks : List (CheckRequest × Option ExecutionDecision) := []
  reports : List Report := []
  published : List SnapshotQuery := []
  relays : List RecoveryOperation := []
  results : List Outcome := []

/-- What is known of the latch and of the conversation. -/
structure Phase extends Record where
  enabled : Bool := false
  disabled : Bool := false

/-- The conversation is uncertain if it has one of these results. -/
def Phase.Doubtful (q : Phase) (results : List Outcome) : Prop :=
  (∃ r ∈ results, r ≠ .ok) ∧ (q.claims ≠ [] ∨ q.published ≠ []) ∨
  (∃ c d, (c, some d) ∈ q.checks ∧ d.decision ≠ .permitted) ∨
  (∃ r ∈ q.reports, r.resultCode = .outcomeUnknown) ∨ ∃ op ∈ q.relays, op ≠ .status

/-- The conversation may end with this result: the latch is set if it is uncertain. -/
def Settled (q : Phase) (r : Outcome) : Prop := q.Doubtful [r] → q.disabled = true

variable {q : Phase}

theorem settled_ok (hchecks : ∀ c d, (c, some d) ∈ q.checks → d.decision = .permitted)
    (hreports : ∀ r ∈ q.reports, r.resultCode ≠ .outcomeUnknown)
    (hrelays : ∀ op ∈ q.relays, op = .status) : Settled q .ok := by
  intro hdoubt
  rcases hdoubt with ⟨⟨r, hr, hne⟩, -⟩ | ⟨c, d, hmem, hne⟩ | ⟨r, hr, hcode⟩ | ⟨op, hop, hne⟩
  · exact absurd (List.mem_singleton.1 hr) hne
  · exact absurd (hchecks c d hmem) hne
  · exact absurd hcode (hreports r hr)
  · exact absurd (hrelays op hop) hne

/-- The conversation may end, and it was not closed before. -/
def Ends (q : Phase) (r : Outcome) : Prop := q.results = [] ∧ Settled q r

/-- A conversation that did nothing but relay a status is not doubtful. -/
theorem ends_quiet {r : Outcome} (hclaims : q.claims = []) (hchecks : q.checks = [])
    (hreports : q.reports = []) (hpublished : q.published = [])
    (hrelays : ∀ op ∈ q.relays, op = .status) (hresults : q.results = []) : Ends q r := by
  refine ⟨hresults, fun hdoubt => ?_⟩
  rcases hdoubt with ⟨-, h | h⟩ | ⟨c, d, hmem, -⟩ | ⟨r, hr, -⟩ | ⟨op, hop, hne⟩
  · exact absurd hclaims h
  · exact absurd hpublished h
  · rw [hchecks] at hmem
    cases hmem
  · rw [hreports] at hr
    cases hr
  · exact absurd (hrelays op hop) hne

/-- A conversation that has just begun. -/
def Phase.begun (q : Phase) : Phase := { disabled := q.disabled }

section
variable [Sha256]

open Classical in
/-- The phase reached by a call, if the call is allowed. -/
noncomputable def next : Phase → (c : Call) → c.Answer → Option Phase
  | q, .executionDisabled, x =>
    some (if x then { q with disabled := true } else { q with enabled := true })
  | q, .disableExecution, _ => some { q with enabled := false, disabled := true }
  | q, .claim _ _, x =>
    if q.enabled ∧ q.claims = [] then some { q with claims := q.claims ++ [x] } else none
  | q, .check r, x =>
    if q.enabled then some { q with checks := q.checks ++ [(r, x)] } else none
  | q, .report id r, _ =>
    if q.enabled ∧ q.reports = [] ∧ Reportable q.claims q.checks id r then
      some { q with reports := q.reports ++ [r] }
    else none
  | q, .refreshSnapshot r, _ =>
    if q.enabled then some { q with published := q.published ++ [r] } else none
  | q, .receive .selection, x => some { q with relays := q.relays ++ (relayed x).toList }
  | q, .close r, _ => some { q with results := q.results ++ [r] }
  | q, .connect, _ => if q.Doubtful q.results → q.disabled then some q.begun else none
  | q, .alive, _ | q, .sample, _ | q, .random, _ | q, .send _, _ | q, .receive .execution, _
  | q, .receive .continuation, _ | q, .retained _, _ | q, .propose _ _, _
  | q, .recoveryStatus _, _ | q, .recoveryCheck _ _, _ | q, .finalize _ _, _ | q, .pace, _ => some q

/-- The program ends in a phase that the returned value allows. -/
abbrev Leads {α : Type} (q : Phase) (p : Prog calls α) (post : Phase → α → Prop) : Prop :=
  Follows (I := calls) next post q p

variable {α β : Type} {start : NativeStamp} {w : Client} {disabled : Bool} {s : State}

theorem leads_call {post : Phase → α → Prop} {c : Call} {k : c.Answer → Prog calls α}
    (h : ∀ x, ∃ q', next q c x = some q' ∧ Leads q' (k x) post) :
    Leads q (query c >>= k) post := h

theorem next_claim {nonce : Bytes} {targets : List Bytes} {x : Option (Option Claim)}
    (henabled : q.enabled = true) (hclaims : q.claims = []) :
    next q (.claim nonce targets) x = some { q with claims := q.claims ++ [x] } := by
  rw [next, if_pos ⟨henabled, hclaims⟩]

theorem next_check {r : CheckRequest} {x : Option ExecutionDecision} (henabled : q.enabled = true) :
    next q (.check r) x = some { q with checks := q.checks ++ [(r, x)] } := by
  rw [next, if_pos henabled]

theorem next_report {id : Bytes} {r : Report} {x : Option ResultReceipt}
    (henabled : q.enabled = true) (hreports : q.reports = [])
    (h : Reportable q.claims q.checks id r) :
    next q (.report id r) x = some { q with reports := q.reports ++ [r] } := by
  rw [next, if_pos ⟨henabled, hreports, h⟩]

theorem next_refreshSnapshot {r : SnapshotQuery} {x : SnapshotReply × Bool}
    (henabled : q.enabled = true) :
    next q (.refreshSnapshot r) x = some { q with published := q.published ++ [r] } := by
  rw [next, if_pos henabled]

/-- The program makes only calls that the protocol does not track. -/
abbrev Idle {α : Type} (p : Prog calls α) : Prop := ∀ q, Leads q p fun q' _ => q' = q

theorem Idle.bind {p : Prog calls α} {f : α → Prog calls β} (hp : Idle p) (hf : ∀ a, Idle (f a)) :
    Idle (p >>= f) := by
  intro q
  refine Follows.bind (hp q) ?_
  rintro q a rfl
  exact hf a q

theorem Idle.then {p : Prog calls α} {f : α → Prog calls β} {post : Phase → β → Prop} (hp : Idle p)
    (hf : ∀ a, Leads q (f a) post) :
    Leads q (p >>= f) post := by
  refine Follows.bind (hp q) ?_
  rintro q a rfl
  exact hf a

theorem Idle.option {p : Prog calls (Option α)} {f : Option α → Prog calls β}
    {post : Phase → β → Prop} (hp : Idle p) (hnone : Leads q (f none) post)
    (hsome : ∀ a, Leads q (f (some a)) post) : Leads q (p >>= f) post := by
  refine hp.then fun a => ?_
  cases a with
  | none => exact hnone
  | some a => exact hsome a

theorem Idle.bool {p : Prog calls Bool} {f : Bool → Prog calls β} {post : Phase → β → Prop}
    (hp : Idle p) (hfalse : Leads q (f false) post) (htrue : Leads q (f true) post) :
    Leads q (p >>= f) post := by
  refine hp.then fun ok => ?_
  cases ok with
  | false => exact hfalse
  | true => exact htrue

theorem leads_alive {f : Bool → Prog calls β} {post : Phase → β → Prop}
    (hfalse : Leads q (f false) post) (htrue : Leads q (f true) post) :
    Leads q (query .alive >>= f) post :=
  Idle.bool (fun q _ => ⟨q, rfl, rfl⟩) hfalse htrue

theorem leads_disabled {f : Bool → Prog calls β} {post : Phase → β → Prop}
    (htrue : Leads { q with disabled := true } (f true) post)
    (hfalse : Leads { q with enabled := true } (f false) post) :
    Leads q (query .executionDisabled >>= f) post := by
  refine leads_call fun x => ⟨_, rfl, ?_⟩
  cases x with
  | true => exact htrue
  | false => exact hfalse

theorem idle_captureStamp : Idle captureStamp := by
  intro q
  refine leads_call fun x => ⟨q, rfl, ?_⟩
  cases x with
  | none => rfl
  | some s =>
    dsimp only
    split_ifs <;> rfl

theorem idle_elapsedSince (start : NativeStamp) (limit : Duration) :
    Idle (elapsedSince start limit) := by
  refine idle_captureStamp.bind fun now q => ?_
  cases now <;> rfl

theorem idle_sendLocal (nonce : Bytes) (ordinal : ℕ) (m : Message) :
    Idle (sendLocal nonce ordinal m) := by
  intro q
  rw [sendLocal]
  split_ifs
  · rfl
  · exact fun x => ⟨q, rfl, rfl⟩

theorem leads_inTime {limit : Duration} :
    Leads q (inTime start limit) fun q' ok => q'.results = q.results ∧
      (ok = true → q' = { q with enabled := true }) := by
  refine idle_captureStamp.option ⟨rfl, nofun⟩ fun now => ?_
  refine leads_call fun x => ⟨_, rfl, ?_⟩
  cases x with
  | true => exact ⟨rfl, nofun⟩
  | false => exact ⟨rfl, fun _ => rfl⟩

/-! ## Claims -/

theorem leads_decide {r : CheckRequest} :
    Leads q (decide_ first start r) fun q' ok => q'.results = q.results ∧
      (ok = true → ∃ d : ExecutionDecision, d.decision = .permitted ∧ answers r d = true ∧
        q' = { q with enabled := true, checks := q.checks ++ [(r, some d)] }) := by
  refine idle_captureStamp.option ⟨rfl, nofun⟩ fun checkStart => ?_
  refine leads_disabled ⟨rfl, nofun⟩ ?_
  simp only [Bool.false_eq_true, if_false]
  split_ifs
  · exact ⟨rfl, nofun⟩
  refine leads_call fun answer => ⟨_, next_check rfl, ?_⟩
  cases answer with
  | none => exact ⟨rfl, nofun⟩
  | some d =>
  refine idle_captureStamp.option ⟨rfl, nofun⟩ fun checkEnd => ?_
  refine leads_disabled ⟨rfl, nofun⟩ ?_
  simp only [Bool.false_eq_true, if_false]
  by_cases hleg : (elapsed checkStart checkEnd (5 * second)).isNone = true
  · rw [if_pos hleg]
    exact ⟨rfl, nofun⟩
  rw [if_neg hleg]
  by_cases hall : (elapsed start checkEnd executionHorizon).isNone = true
  · rw [if_pos hall]
    exact ⟨rfl, nofun⟩
  rw [if_neg hall]
  by_cases hd : d.decision = .permitted
  · rw [if_neg (not_not.2 hd)]
    by_cases ha : answers r d = true
    · simp only [ha]
      exact (idle_sendLocal _ _ _).bool ⟨rfl, nofun⟩ ⟨rfl, fun _ => ⟨d, hd, ha, rfl⟩⟩
    · simp only [ha]
      exact ⟨rfl, nofun⟩
  · rw [if_pos hd]
    refine leads_call fun _ => ⟨_, rfl, ?_⟩
    by_cases ha : answers r d = true
    · simp only [ha]
      exact (idle_sendLocal _ _ _).bool ⟨rfl, nofun⟩ ⟨rfl, fun h => absurd (of_decide_eq_true h) hd⟩
    · simp only [ha]
      exact ⟨rfl, nofun⟩

theorem leads_checkpoint {n : ℕ} {previous : Bytes} :
    Leads q (checkpoint first start claim n previous) fun q' nonce => q'.results = q.results ∧
      (nonce.isSome = true → ∃ r d, Permitted claim n r d ∧
        q' = { q with enabled := true, checks := q.checks ++ [(r, some d)] }) := by
  refine Follows.bind leads_inTime ?_
  rintro q' ok ⟨hres, hq'⟩
  cases ok with
  | false => exact ⟨hres, nofun⟩
  | true =>
  obtain rfl := hq' rfl
  refine leads_call fun message => ⟨_, rfl, ?_⟩
  cases hc : challenge first claim n previous (executionMessage message) with
  | none =>
    exact ⟨rfl, nofun⟩
  | some r =>
  refine Follows.bind leads_decide ?_
  rintro q'' ok ⟨hres', hq''⟩
  cases ok with
  | false => exact ⟨hres', nofun⟩
  | true =>
  refine ⟨hres', fun _ => ?_⟩
  obtain ⟨d, hd, ha, rfl⟩ := hq'' rfl
  obtain ⟨h1, h2, h3⟩ := challenge_spec hc
  simp only [answers, Bool.and_eq_true, decide_eq_true_eq] at ha
  exact ⟨r, d, ⟨h1, h2, h3, hd, ha.1.1.1, ha.1.1.2, ha.1.2, ha.2⟩, rfl⟩

theorem leads_deliverReport {q₁ q₂ : CheckRequest} {d₁ d₂ : ExecutionDecision}
    (hclaims : q.claims = [some (some claim)]) (hchecks : q.checks = [(q₁, some d₁), (q₂, some d₂)])
    (hreports : q.reports = []) (hrelays : q.relays = []) (h₁ : Permitted claim 1 q₁ d₁)
    (h₂ : Permitted claim 2 q₂ d₂) :
    Leads q (deliverReport first start claim) fun q' r => q'.results = q.results ∧
      (r = .ok → Settled q' r) := by
  refine Follows.bind leads_inTime ?_
  rintro q' ok ⟨hres, hq'⟩
  cases ok with
  | false => exact ⟨hres, nofun⟩
  | true =>
  obtain rfl := hq' rfl
  refine leads_call fun message => ⟨_, rfl, ?_⟩
  cases hr : resultOf first claim (executionMessage message) with
  | none =>
    exact ⟨rfl, nofun⟩
  | some r =>
  obtain ⟨hrequest, hlease, hcorrelation⟩ := resultOf_spec hr
  refine (idle_elapsedSince _ _).option ⟨rfl, nofun⟩ fun since => ?_
  refine leads_disabled ⟨rfl, nofun⟩ ?_
  refine leads_call fun answer => ⟨_, next_report rfl hreports ?_, ?_⟩
  · exact ⟨claim, q₁, d₁, q₂, d₂, hclaims, hchecks, h₁, h₂, rfl, hrequest, hlease, hcorrelation⟩
  cases answer with
  | none => exact ⟨rfl, nofun⟩
  | some receipt =>
  dsimp only
  split
  · exact ⟨rfl, nofun⟩
  refine (idle_elapsedSince _ _).option ⟨rfl, nofun⟩ fun since => ?_
  simp only [Option.isNone_some, Bool.false_eq_true, if_false]
  by_cases hunknown : r.resultCode = .outcomeUnknown
  · rw [if_pos hunknown]
    exact leads_call fun _ => ⟨_, rfl, rfl, fun _ _ => rfl⟩
  rw [if_neg hunknown]
  refine ⟨rfl, ?_⟩
  rintro -
  refine settled_ok ?_ ?_ ?_
  · intro c d hmem
    simp only [hchecks, List.mem_cons, Prod.mk.injEq, Option.some.injEq, List.not_mem_nil,
      or_false] at hmem
    rcases hmem with ⟨-, rfl⟩ | ⟨-, rfl⟩
    · exact h₁.2.2.2.1
    · exact h₂.2.2.2.1
  · intro r' hr'
    simp only [hreports, List.nil_append, List.mem_singleton] at hr'
    exact hr' ▸ hunknown
  · simp only [hrelays, List.not_mem_nil, IsEmpty.forall_iff, implies_true]

theorem leads_executeClaim (hclaims : q.claims = [some (some claim)]) (hchecks : q.checks = [])
    (hreports : q.reports = []) (hrelays : q.relays = []) :
    Leads q (executeClaim first start claim) fun q' r => q'.results = q.results ∧
      (r = .ok → Settled q' r) := by
  refine Follows.bind leads_checkpoint ?_
  rintro q' nonce ⟨hres, hq'⟩
  cases nonce with
  | none => exact ⟨hres, nofun⟩
  | some previous =>
  obtain ⟨q₁, d₁, h₁, rfl⟩ := hq' rfl
  refine Follows.bind leads_checkpoint ?_
  rintro q'' nonce ⟨hres', hq''⟩
  cases nonce with
  | none => exact ⟨hres', nofun⟩
  | some _ =>
  obtain ⟨q₂, d₂, h₂, rfl⟩ := hq'' rfl
  exact leads_deliverReport hclaims (by simp only [hchecks, List.nil_append, List.cons_append])
    hreports hrelays h₁ h₂

theorem leads_sent {p : Prog calls Bool} (hp : Idle p) :
    Leads q (sent p) fun q' _ => q' = q := by
  refine hp.then fun ok => ?_
  cases ok <;> rfl

theorem leads_claimFor {approval : ApprovalSnapshot} (henabled : q.enabled = true)
    (hclaims : q.claims = []) (hchecks : q.checks = []) (hreports : q.reports = [])
    (hrelays : q.relays = []) :
    Leads q (claimFor w first approval) fun q' r => q'.results = q.results ∧
      (r = .ok → Settled q' r) := by
  refine idle_captureStamp.option ⟨rfl, nofun⟩ fun start => ?_
  refine leads_call fun random => ⟨_, rfl, ?_⟩
  cases random with
  | none => exact ⟨rfl, nofun⟩
  | some random =>
  refine leads_call fun answer => ⟨_, next_claim henabled hclaims, ?_⟩
  cases answer with
  | none => exact ⟨rfl, nofun⟩
  | some claimed =>
  refine leads_disabled ⟨rfl, nofun⟩ ?_
  cases claimed with
  | none =>
    refine Follows.mono (leads_sent (idle_sendLocal _ _ _)) ?_
    rintro q' r rfl
    refine ⟨rfl, ?_⟩
    rintro rfl
    refine settled_ok ?_ ?_ ?_ <;> simp [hchecks, hreports, hrelays]
  | some claim =>
  refine (idle_elapsedSince _ _).option ⟨rfl, nofun⟩ fun rtt => ?_
  split_ifs
  · exact ⟨rfl, nofun⟩
  refine (idle_sendLocal _ _ _).bool ⟨rfl, nofun⟩ ?_
  exact leads_executeClaim (by simp only [hclaims, List.nil_append]) hchecks hreports hrelays

theorem leads_publish {r : SnapshotQuery} (henabled : q.enabled = true) (hchecks : q.checks = [])
    (hreports : q.reports = []) (hrelays : q.relays = []) :
    Leads q (publish first r) fun q' r => q'.results = q.results ∧ (r = .ok → Settled q' r) := by
  refine leads_call fun x => ⟨_, next_refreshSnapshot henabled, ?_⟩
  obtain ⟨reply, failed⟩ := x
  dsimp only
  split_ifs
  · exact ⟨rfl, nofun⟩
  · exact ⟨rfl, nofun⟩
  refine Follows.mono (leads_sent (idle_sendLocal _ _ _)) ?_
  rintro q' r rfl
  refine ⟨rfl, ?_⟩
  rintro rfl
  refine settled_ok ?_ ?_ ?_ <;> simp [hchecks, hreports, hrelays]

theorem leads_latched {p : Prog calls Outcome} (hres : q.results = [])
    (hp : Leads q p fun q' r => q'.results = q.results ∧ (r = .ok → Settled q' r)) :
    Leads q (latched p) Ends := by
  refine Follows.bind hp ?_
  rintro q' r ⟨hres', hsettled⟩
  dsimp only
  by_cases hr : r = .ok
  · subst hr
    exact ⟨hres'.trans hres, hsettled rfl⟩
  · rw [if_pos hr]
    exact leads_call fun _ => ⟨_, rfl, hres'.trans hres, fun _ => rfl⟩

/-! ## Recovery -/

theorem idle_deliver (s : RecoveryRelay) (w : Client) (r : RecoveryQuery) :
    Idle (deliver s w r) := by
  intro q
  obtain ⟨operation, actionId, digest, body⟩ := r
  cases operation with
  | retained =>
    refine leads_call fun x => ⟨q, rfl, ?_⟩
    cases x <;> dsimp only <;> (try split_ifs) <;> rfl
  | status => exact leads_call fun x => ⟨q, rfl, rfl⟩
  | propose =>
    cases body with
    | proposal p =>
      rw [deliver]
      dsimp only
      split_ifs
      · rfl
      · exact leads_call fun x => ⟨q, rfl, rfl⟩
    | _ => rfl
  | check | finalize =>
    cases body with
    | check _ | finalize _ =>
      -- The body is that of the operation, or the query is refused.
      first
      | rfl
      | rw [deliver]
        dsimp only
        cases s.approval with
        | none => rfl
        | some a =>
          dsimp only
          split_ifs
          · rfl
          refine leads_call fun x => ⟨q, rfl, ?_⟩
          cases x <;> dsimp only <;> (try split_ifs) <;> rfl
    | _ => rfl

theorem idle_relayInBudget (origin start stop : NativeStamp) :
    Idle (relayInBudget origin start stop) := by
  intro q
  refine leads_call fun live => ⟨q, rfl, ?_⟩
  cases live <;> rfl

theorem idle_relayLegs (w : Client) (first : Envelope) (origin : NativeStamp) (n : ℕ) :
    ∀ s r, Idle (relayLegs w first origin n s r) := by
  induction n with
  | zero => exact fun s r q => rfl
  | succ n ih =>
    intro s r
    refine idle_captureStamp.bind fun start q => ?_
    cases start with
    | none => rfl
    | some start =>
    refine leads_alive rfl ?_
    simp only [Bool.not_true, Bool.false_eq_true, if_false]
    split_ifs
    · rfl
    refine (idle_deliver s w r).then fun delivered => ?_
    obtain ⟨s, reply⟩ := delivered
    refine idle_captureStamp.option rfl fun stop => ?_
    refine (idle_relayInBudget _ _ _).bool rfl ?_
    refine (idle_sendLocal _ _ _).then fun written => ?_
    refine idle_captureStamp.option rfl fun stop => ?_
    cases written with
    | false => rfl
    | true =>
    refine (idle_relayInBudget _ _ _).bool rfl ?_
    simp only [Bool.not_true, Bool.false_eq_true, if_false]
    split_ifs
    · rfl
    refine leads_call fun message => ⟨q, rfl, ?_⟩
    refine idle_captureStamp.option rfl fun received => ?_
    refine leads_alive rfl ?_
    simp only [Bool.not_true, Bool.false_eq_true, if_false]
    split_ifs
    · rfl
    cases followingQuery first s r (5 - n) (continuation message) with
    | none => rfl
    | some next => exact ih s next q

theorem idle_relaySelected (w : Client) (first : Envelope) (r : RecoveryQuery) :
    Idle (relaySelected w first r) := by
  intro q
  rw [relaySelected]
  split_ifs
  · rfl
  · rfl
  refine idle_captureStamp.then fun origin => ?_
  cases origin with
  | none => rfl
  | some origin => exact idle_relayLegs w first origin 5 _ r q

theorem leads_relayRecovery {r : RecoveryQuery} :
    Leads { disabled := disabled, relays := [r.operation] } (relayRecovery w first r) Ends := by
  rw [relayRecovery]
  by_cases hop : r.operation = .status
  · rw [if_neg (not_not.2 hop)]
    refine Follows.mono (idle_relaySelected w first r _) ?_
    rintro q result rfl
    exact ends_quiet rfl rfl rfl rfl (fun op h => (List.mem_singleton.1 h).trans hop) rfl
  · rw [if_pos hop]
    refine leads_call fun _ => ⟨_, rfl, ?_⟩
    refine Follows.mono (idle_relaySelected w first r _) ?_
    rintro q result rfl
    exact ⟨rfl, fun _ => rfl⟩

/-! ## Conversations and the loop -/

theorem leads_converseAbout :
    Leads { disabled := disabled } (converseAbout w first) Ends := by
  refine leads_call fun x => ⟨_, rfl, ?_⟩
  cases x with
  | true => exact ⟨rfl, fun _ => rfl⟩
  | false =>
  have hquiet : Ends { enabled := true, disabled := disabled } .refused :=
    ends_quiet rfl rfl rfl rfl (fun op h => nomatch h) rfl
  simp only [Bool.false_eq_true, if_false]
  split
  · split_ifs
    · exact hquiet
    · exact leads_latched rfl (leads_publish rfl rfl rfl rfl)
  · split_ifs
    · exact hquiet
    · exact leads_latched rfl (leads_claimFor rfl rfl rfl rfl rfl)
  · exact hquiet

theorem leads_converse :
    Leads { disabled := disabled } (converse w) Ends := by
  have hquiet : ∀ r, Ends { disabled := disabled } r :=
    fun r => ends_quiet rfl rfl rfl rfl (fun op h => nomatch h) rfl
  refine leads_alive (hquiet _) ?_
  refine (idle_sendLocal _ _ _).bool (hquiet _) ?_
  refine leads_call fun x => ⟨_, rfl, ?_⟩
  simp only [relayed, List.nil_append]
  cases selection x with
  | closed | failed => exact hquiet _
  | message first =>
  obtain ⟨nonce, ordinal, m⟩ := first
  cases m with
  | recoveryQuery r => exact leads_relayRecovery
  | _ => exact leads_converseAbout

theorem idle_paced : Idle paced := by
  intro q
  refine leads_call fun x => ⟨q, rfl, ?_⟩
  cases x with
  | true => rfl
  | false =>
    refine leads_call fun live => ⟨q, rfl, ?_⟩
    cases live <;> rfl

/-- The loop goes on in a phase in which the worker may connect. -/
theorem leads_goesOn (r : Outcome) (hq : q.Doubtful q.results → q.disabled = true) :
    Leads q (goesOn r) fun q' _ => q'.Doubtful q'.results → q'.disabled = true := by
  cases r with
  | refused =>
    refine fun x => ⟨_, rfl, ?_⟩
    cases x with
    | true => exact fun _ => rfl
    | false => exact hq
  | _ => exact hq

theorem leads_runWorkerLoop (w : Client) (n : ℕ) :
    ∀ q : Phase, (q.Doubtful q.results → q.disabled = true) →
      Leads q (runWorkerLoop w n) fun _ _ => True := by
  induction n with
  | zero => exact fun _ _ => trivial
  | succ n ih =>
    intro q hq
    refine leads_alive trivial ?_
    refine leads_call fun dial => ⟨q.begun, by rw [next, if_pos hq], ?_⟩
    have hbegun : q.begun.Doubtful q.begun.results → q.begun.disabled = true :=
      fun h => absurd h (by simp [Phase.Doubtful, Phase.begun])
    refine leads_alive trivial ?_
    cases dial with
    | failed => trivial
    | absent =>
      refine idle_paced.then fun how => ?_
      cases how with
      | some _ => trivial
      | none => exact ih q.begun hbegun
    | connected =>
    refine Follows.bind leads_converse ?_
    rintro q' r ⟨hres, hsettled⟩
    refine leads_call fun _ => ⟨_, rfl, ?_⟩
    refine leads_alive trivial ?_
    refine Follows.bind (leads_goesOn r ?_) ?_
    · rw [hres]
      exact hsettled
    intro q'' on hq''
    cases on with
    | false => trivial
    | true =>
    refine idle_paced.then fun how => ?_
    cases how with
    | some _ => trivial
    | none => exact ih q'' hq''

/-! ## Every run -/

def record (events : List Event) : Record where
  claims := claims events
  checks := checks events
  reports := reports events
  published := published events
  relays := relays events
  results := results events

/-- An event that is added to the conversation. -/
def Record.note (r : Record) : Event → Record
  | ⟨.claim _ _, x⟩ => { r with claims := r.claims ++ [x] }
  | ⟨.check q, x⟩ => { r with checks := r.checks ++ [(q, x)] }
  | ⟨.report _ report, _⟩ => { r with reports := r.reports ++ [report] }
  | ⟨.refreshSnapshot q, _⟩ => { r with published := r.published ++ [q] }
  | ⟨.receive .selection, x⟩ => { r with relays := r.relays ++ (relayed x).toList }
  | ⟨.close result, _⟩ => { r with results := r.results ++ [result] }
  | _ => r

theorem record_concat (events : List Event) : record (events ++ [e]) = (record events).note e := by
  simp only [record, claims_append, checks_append, reports_append, published_append,
    relays_append, results_append]
  obtain ⟨c, x⟩ := e
  cases c with
  | receive w =>
    cases w with
    | selection =>
      rw [relays_selection]
      apply Record.ext <;> first | exact List.append_nil _ | rfl
    | _ => apply Record.ext <;> exact List.append_nil _
  | _ => apply Record.ext <;> first | exact List.append_nil _ | rfl

/-- What the state of a worker has to do with the phase of its program. -/
structure Tracks (s : State) (q : Phase) : Prop where
  enabled : q.enabled = true → s.disabled = false
  disabled : q.disabled = true → s.disabled = true
  noted : q.toRecord = record s.current
  orderly : ∀ conversation ∈ s.conversations, Orderly conversation
  latched : ∀ conversation ∈ s.past, Uncertain conversation → s.disabled = true
  quiet : s.conversations.Pairwise fun a b => Uncertain a → Quiet b

theorem Tracks.uncertain_iff (h : Tracks s q) :
    q.Doubtful q.results ↔ Uncertain s.current := by
  rw [Phase.Doubtful, h.noted]
  exact Iff.rfl

theorem Tracks.append {q' : Phase} (h : Tracks s q) (hnoted : q'.toRecord = q.note e)
    (hallowed : Allowed s.current e.1) (hquiet : Quiet [e] ∨ s.disabled = false)
    (henabled : q'.enabled = true → disabled = false)
    (hdisabled : q'.disabled = true → disabled = true) (hkeep : s.disabled = true → disabled = true) :
    Tracks { s with disabled := disabled, current := s.current ++ [e] } q' where
  enabled := henabled
  disabled := hdisabled
  noted := by rw [hnoted, h.noted, ← record_concat]
  orderly := by
    intro conversation hc
    rcases List.mem_append.1 hc with hc | hc
    · exact h.orderly _ (List.mem_append_left _ hc)
    · obtain rfl := List.mem_singleton.1 hc
      exact (h.orderly _ (List.mem_append_right _ (List.mem_singleton_self _))).concat hallowed
  latched := fun conversation hc hu => hkeep (h.latched conversation hc hu)
  quiet := by
    obtain ⟨hpast, -, hlast⟩ := List.pairwise_append.1 h.quiet
    refine List.pairwise_append.2 ⟨hpast, List.pairwise_singleton _ _, ?_⟩
    intro a ha b hb hu
    obtain rfl := List.mem_singleton.1 hb
    rcases hquiet with ⟨h1, h2, h3, h4⟩ | hoff
    · obtain ⟨g1, g2, g3, g4⟩ := hlast a ha s.current (List.mem_singleton_self _) hu
      exact ⟨by rw [claims_append, g1, h1]; rfl, by rw [checks_append, g2, h2]; rfl,
        by rw [reports_append, g3, h3]; rfl, by rw [published_append, g4, h4]; rfl⟩
    · rw [h.latched a ha hu] at hoff
      cases hoff

/-- A new conversation; the latch is set if the last one was uncertain. -/
theorem Tracks.connect {x : Dial} (h : Tracks s q) (hq : q.Doubtful q.results → q.disabled = true) :
    Tracks { s with past := s.past ++ [s.current], current := [⟨.connect, x⟩] } q.begun where
  enabled := nofun
  disabled := h.disabled
  noted := rfl
  orderly := by
    intro conversation hc
    rcases List.mem_append.1 hc with hc | hc
    · exact h.orderly _ hc
    · obtain rfl := List.mem_singleton.1 hc
      exact orderly_nil.concat (e := ⟨.connect, x⟩) trivial
  latched := by
    intro conversation hc hu
    rcases List.mem_append.1 hc with hc | hc
    · exact h.latched conversation hc hu
    · obtain rfl := List.mem_singleton.1 hc
      exact h.disabled (hq (h.uncertain_iff.2 hu))
  quiet := by
    refine List.pairwise_append.2 ⟨h.quiet, List.pairwise_singleton _ _, ?_⟩
    intro a _ b hb _
    obtain rfl := List.mem_singleton.1 hb
    exact ⟨rfl, rfl, rfl, rfl⟩

/-- One call of the worker. -/
theorem Tracks.step {q' : Phase} {outside : (c : Call) → c.Answer} {c : Call} (h : Tracks s q)
    (hnext : next q c (handler c outside s).2 = some q') :
    Tracks (handler c outside s).1 q' := by
  cases c with
  | connect =>
    rw [next] at hnext
    split_ifs at hnext with hq
    cases hnext
    exact h.connect hq
  | disableExecution =>
    cases hnext
    exact h.append rfl trivial (Or.inl ⟨rfl, rfl, rfl, rfl⟩) nofun (fun _ => rfl) (fun _ => rfl)
  | executionDisabled =>
    -- The answer is the latch itself.
    have hanswer : (handler .executionDisabled outside s).2 = s.disabled := rfl
    rw [hanswer, next] at hnext
    cases hs : s.disabled with
    | true =>
      rw [hs] at hnext
      cases hnext
      exact h.append rfl trivial (Or.inl ⟨rfl, rfl, rfl, rfl⟩) h.enabled (fun _ => hs) id
    | false =>
      rw [hs] at hnext
      cases hnext
      exact h.append rfl trivial (Or.inl ⟨rfl, rfl, rfl, rfl⟩) (fun _ => hs) h.disabled id
  | claim nonce targets =>
    rw [next] at hnext
    split_ifs at hnext with hq
    cases hnext
    obtain ⟨henabled, hclaims⟩ := hq
    rw [h.noted] at hclaims
    exact h.append rfl hclaims (Or.inr (h.enabled henabled)) h.enabled h.disabled id
  | report _ r =>
    rw [next] at hnext
    split_ifs at hnext with hq
    cases hnext
    obtain ⟨henabled, hreports, hreportable⟩ := hq
    rw [h.noted] at hreports hreportable
    exact h.append rfl ⟨hreports, hreportable⟩ (Or.inr (h.enabled henabled))
      h.enabled h.disabled id
  | check r | refreshSnapshot r =>
    rw [next] at hnext
    split_ifs at hnext with hq
    cases hnext
    exact h.append rfl trivial (Or.inr (h.enabled hq)) h.enabled h.disabled id
  | receive w =>
    cases w <;> cases hnext <;>
      exact h.append rfl trivial (Or.inl ⟨rfl, rfl, rfl, rfl⟩) h.enabled h.disabled id
  | _ =>
    cases hnext
    exact h.append rfl trivial (Or.inl ⟨rfl, rfl, rfl, rfl⟩) h.enabled h.disabled id

theorem tracks_fresh : Tracks State.fresh {} where
  enabled := nofun
  disabled := nofun
  noted := rfl
  orderly := fun _ hc => List.mem_singleton.1 hc ▸ orderly_nil
  latched := nofun
  quiet := List.pairwise_singleton _ _

/-- **The worker never polls again after an uncertain conversation.**  However the broker, the
    server and the clocks behave, every conversation of the loop claims at most once and reports at
    most once, after both of its checks were permitted; and after an uncertain conversation
    nothing is claimed, checked, reported or published. -/
theorem never_polls_after_uncertainty (w : Client) (rounds : ℕ)
    (outside : List ((c : Call) → c.Answer)) :
    let worker := (Prog.exec handler State.fresh (runWorkerLoop w rounds) outside).1
    (∀ conversation ∈ worker.conversations, Orderly conversation) ∧
      worker.conversations.Pairwise fun a b => Uncertain a → Quiet b := by
  intro worker
  have hloop := leads_runWorkerLoop w rounds {} fun h => absurd h (by simp [Phase.Doubtful])
  obtain ⟨q, hq, -⟩ := hloop.exec (h := handler) tracks_fresh outside
    fun e _ s q c q' hs hnext => hs.step hnext
  exact ⟨hq.orderly, hq.quiet⟩

end

end ActionWorker

end HomeLab
