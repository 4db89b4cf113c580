/-
  Local time budgets of a claimed action.

  Every reading of the clock has three parts: the time of the process, its wall
  projection and the boot time, which goes on while the machine sleeps.  A
  conversation starts before the claim is asked for; `acceptClaim` derives from
  its start a deadline in boot time, and the guards (`checkExecution`,
  `checkMutation`, `checkReport`) compare later readings with it.

  Durations are 64-bit numbers of nanoseconds, and their sums wrap around.
-/
import HomeLab.ActionCore.Worker
import HomeLab.ActionProtocol.Claims

namespace HomeLab

namespace ActionBudget

open ActionCore (Operation Delivery Request endOf)
open ActionProtocol

/-! ## Durations -/

def addD (a b : Duration) : Duration := (a + b).bmod (2 ^ 64)

def subD (a b : Duration) : Duration := (a - b).bmod (2 ^ 64)

/-- A duration that 64 bits hold. -/
def Fits (x : ℤ) : Prop := minDuration ≤ x ∧ x ≤ maxDuration

theorem bmod_of_fits {x : ℤ} (h : Fits x) : x.bmod (2 ^ 64) = x := by
  obtain ⟨h0, h1⟩ := h
  rw [minDuration] at h0
  rw [maxDuration] at h1
  exact Int.bmod_eq_of_le (by norm_num; linarith) (by norm_num; linarith)

def continuity : Duration := 100 * 1000000

def skew : Duration := 4900 * 1000000

/-! ## Stamps -/

structure Reading where
  goTime : Instant
  wall : Instant
  boot : Duration
  deriving DecidableEq

def Reading.sane (r : Reading) : Bool :=
  r.goTime ≠ 0 && r.wall ≠ 0 && 0 ≤ r.boot && r.boot ≤ maxDuration - 134 * second

/-- Which of the clocks of the process; a stamp belongs to the one it was
    captured with. -/
abbrev ClockId := ℕ

/-- A captured reading.  Stamps are made by `capture` only. -/
structure Stamp where
  clock : ClockId
  goTime : Instant
  wall : Instant
  boot : Duration
  sane : Reading.sane ⟨goTime, wall, boot⟩ = true

/-- `answer` is what the clock reads, if it can be read. -/
def capture (clock : ClockId) (answer : Option Reading) : Option Stamp := do
  let r ← answer
  if h : r.sane = true then some ⟨clock, r.goTime, r.wall, r.boot, h⟩ else none

def continuousWithin (a b : Stamp) (maximum : Duration) : Bool :=
  let boot := subD b.boot a.boot
  let mono := timeSub b.goTime a.goTime
  let wall := timeSub b.wall a.wall
  a.clock = b.clock && a.boot ≤ b.boot && a.wall ≤ b.wall && boot ≤ maximum &&
  0 ≤ mono && subD boot continuity ≤ mono && mono ≤ addD boot continuity &&
  subD boot continuity ≤ wall && wall ≤ addD boot continuity

def continuous (a b : Stamp) : Bool := continuousWithin a b (134 * second)

/-- Reporting has a longer interval. -/
def reportContinuous (a b : Stamp) : Bool :=
  subD b.boot a.boot < 5 * second + 15 * second + 119 * second &&
    continuousWithin a b (139 * second)

def serverBracket (server : Instant) (send recv : Stamp) : Bool :=
  continuous send recv && server ≠ 0 && -skew ≤ timeSub server recv.wall &&
    timeSub server send.wall ≤ skew

/-! ## Readiness and conversations -/

structure Readiness where
  clock : ClockId
  origin : Stamp

/-- A conversation with the server; `used` once a claim was offered to it. -/
structure Conversation where
  clock : ClockId
  readiness : Readiness
  start : Stamp
  used : Bool := false

/-! ## Claims -/

/-- The guard of an execution. -/
structure Budget where
  clock : ClockId
  origin : Stamp
  deadline : Duration
  actionId : Bytes
  digest : Digest
  containerId : Bytes
  operation : Operation

structure Execution where
  guard : Budget
  delivery : Delivery
  start : Stamp

def fullId (s : Bytes) : Bool := s.length = 64 && s.all hexByte

def actionId (s : Bytes) : Bool :=
  s.length = 36 && s.take 4 = ascii "hla_" && (s.drop 4).all hexByte

section
variable [Sha256]

/-- The claim may be executed: it is well formed, and it arrived in time. -/
def Conversation.admits (c : Conversation) (now : Stamp) (claim : Claim) (rtt : Duration)
    (containerId : Bytes) : Bool :=
  validClaim claim && continuous c.readiness.origin now &&
  subD now.boot c.start.boot < 30 * second && c.start.boot ≤ now.boot && 0 ≤ rtt &&
  rtt ≤ 30 * second && rtt ≤ subD now.boot c.start.boot &&
  (parseHTTPTime claim.claimedAt).any (fun claimed => serverBracket claimed c.start now) &&
  fullId containerId

/-- The deadline of an execution in boot time. -/
def Conversation.deadline (c : Conversation) (rtt : Duration) : Duration :=
  addD c.start.boot (min (89 * second) (addD rtt (60 * second)))

def Conversation.execution (c : Conversation) (claim : Claim) (rtt : Duration)
    (containerId : Bytes) (digest : Digest) : Execution where
  guard :=
    { clock := c.clock, origin := c.readiness.origin, deadline := c.deadline rtt,
      actionId := claim.request.actionId, digest := digest, containerId := containerId,
      operation := claim.request.operation }
  delivery := ⟨c.start.goTime, c.start.goTime + rtt, c.start.goTime + 119 * second⟩
  start := c.start

def Conversation.accepted (c : Conversation) (answer : Option Reading) (claim : Claim)
    (rtt : Duration) (containerId : Bytes) : Option Execution := do
  let now ← capture c.clock answer
  if !c.admits now claim rtt containerId then none
  else
    let digest ← receiptDigest claim.request
    if c.deadline rtt ≤ now.boot then none else some (c.execution claim rtt containerId digest)

/-- A conversation takes one claim. -/
def Conversation.acceptClaim (c : Conversation) (answer : Option Reading) (claim : Claim)
    (rtt : Duration) (containerId : Bytes) : Option Execution × Conversation :=
  if c.used then (none, c)
  else (c.accepted answer claim rtt containerId, { c with used := true })

end

/-! ## Guards -/

/-- The budget admits a step at this reading. -/
def Budget.checked (b : Budget) (alive : Bool) (answer : Option Reading) : Bool :=
  alive && (capture b.clock answer).any fun now =>
    continuous b.origin now && now.boot < b.deadline && subD now.boot b.origin.boot ≤ 134 * second

def checkExecution (b : Budget) (alive : Bool) (answer : Option Reading) (actionId : Bytes)
    (digest : Digest) : Bool :=
  b.checked alive answer && b.actionId = actionId && b.digest = digest

def checkMutation (b : Budget) (alive : Bool) (answer : Option Reading) (containerId : Bytes)
    (operation : Operation) : Bool :=
  b.checked alive answer && b.containerId = containerId && b.operation = operation

def Execution.checkReport (e : Execution) (alive : Bool) (answer : Option Reading) : Bool :=
  alive && actionId e.guard.actionId && e.start.clock = e.guard.clock &&
  continuous e.guard.origin e.start && (capture e.guard.clock answer).any fun now =>
    reportContinuous e.guard.origin now && e.start.boot ≤ now.boot &&
      subD now.boot e.start.boot < 119 * second

/-! ## Sums of durations -/

/-- The sums that `continuousWithin` forms. -/
def continuitySums (a b : Stamp) : List ℤ :=
  [b.boot - a.boot, b.boot - a.boot - continuity, b.boot - a.boot + continuity]

/-- The sums that `acceptClaim` forms for a claim that it takes. -/
def Conversation.sums (c : Conversation) (now : Stamp) (rtt : Duration) : List ℤ :=
  continuitySums c.readiness.origin now ++ continuitySums c.start now ++
    [now.boot - c.start.boot, rtt + 60 * second,
      c.start.boot + min (89 * second) (rtt + 60 * second)]

/-- The sums that the guards form at a reading. -/
def Execution.sums (e : Execution) (now : Stamp) : List ℤ :=
  continuitySums e.guard.origin now ++ continuitySums e.guard.origin e.start ++
    [now.boot - e.guard.origin.boot, now.boot - e.start.boot]

theorem Stamp.boot_bounds (s : Stamp) : 0 ≤ s.boot ∧ s.boot ≤ maxDuration - 134 * second := by
  have h := s.sane
  simp only [Reading.sane, Bool.and_eq_true, decide_eq_true_eq] at h
  exact ⟨h.1.2, h.2⟩

theorem fits_boot_sub (a b : Stamp) : Fits (b.boot - a.boot) := by
  obtain ⟨ha0, ha1⟩ := a.boot_bounds
  obtain ⟨hb0, hb1⟩ := b.boot_bounds
  have hs : (0 : ℤ) ≤ 134 * second := by decide
  have hm : minDuration ≤ -maxDuration := by decide
  exact ⟨by linarith, by linarith⟩

theorem fits_continuitySums {a b : Stamp} : ∀ x ∈ continuitySums a b, Fits x := by
  obtain ⟨ha0, ha1⟩ := a.boot_bounds
  obtain ⟨hb0, hb1⟩ := b.boot_bounds
  have hc0 : (0 : ℤ) ≤ continuity := by decide
  have hc1 : continuity ≤ 134 * second := by decide
  have hm : minDuration ≤ -maxDuration := by decide
  intro x hx
  simp only [continuitySums, List.mem_cons, List.not_mem_nil, or_false] at hx
  rcases hx with rfl | rfl | rfl
  · exact fits_boot_sub a b
  · exact ⟨by linarith, by linarith⟩
  · exact ⟨by linarith, by linarith⟩

@[simp] theorem subD_boot (a b : Stamp) : subD b.boot a.boot = b.boot - a.boot :=
  bmod_of_fits (fits_boot_sub a b)

/-! ## What the guards establish -/

variable {answer : Option Reading} {rtt : Duration} {c : Conversation} {containerId : Bytes}
  {claim : Claim}

theorem Budget.checked_spec {b : Budget} {alive : Bool} (h : b.checked alive answer = true) :
    ∃ s, capture b.clock answer = some s ∧ s.boot < b.deadline := by
  simp only [Budget.checked, Bool.and_eq_true] at h
  obtain ⟨now, hc, h⟩ := (Option.any_eq_true _ _).1 h.2
  simp only [Bool.and_eq_true, decide_eq_true_eq] at h
  exact ⟨now, hc, h.1.2⟩

theorem Execution.checkReport_spec {e : Execution} {alive : Bool}
    (h : e.checkReport alive answer = true) :
    ∃ s, capture e.guard.clock answer = some s ∧ s.boot - e.start.boot < 119 * second := by
  simp only [Execution.checkReport, Bool.and_eq_true] at h
  obtain ⟨now, hc, h⟩ := (Option.any_eq_true _ _).1 h.2
  simp only [Bool.and_eq_true, decide_eq_true_eq, subD_boot] at h
  exact ⟨now, hc, h.2⟩

theorem Conversation.deadline_eq (h0 : 0 ≤ rtt) (h1 : rtt ≤ 30 * second) :
    c.deadline rtt = c.start.boot + min (89 * second) (rtt + 60 * second) ∧
      Fits (rtt + 60 * second) ∧
      Fits (c.start.boot + min (89 * second) (rtt + 60 * second)) := by
  obtain ⟨hs0, hs1⟩ := c.start.boot_bounds
  have h60 : (0 : ℤ) ≤ 60 * second := by decide
  have h89 : (0 : ℤ) ≤ 89 * second := by decide
  have hlt : (89 * second : ℤ) ≤ 134 * second := by decide
  have hm : minDuration ≤ 0 := by decide
  have hM : (30 * second + 60 * second : ℤ) ≤ maxDuration := by decide
  have hsum : Fits (rtt + 60 * second) := ⟨by linarith, by linarith⟩
  have hmin0 : 0 ≤ min (89 * second) (rtt + 60 * second) := le_min h89 (by linarith)
  have hmin1 := min_le_left (89 * second) (rtt + 60 * second)
  have hfits : Fits (c.start.boot + min (89 * second) (rtt + 60 * second)) :=
    ⟨by linarith, by linarith⟩
  refine ⟨?_, hsum, hfits⟩
  have hrtt : addD rtt (60 * second) = rtt + 60 * second := bmod_of_fits hsum
  rw [Conversation.deadline, hrtt]
  exact bmod_of_fits hfits

/-- The deadline of the core is that of the guard, in the time of the process. -/
theorem Conversation.endOf_delivery {digest : Digest} (request : Request) :
    endOf request (c.execution claim rtt containerId digest).delivery =
      min request.expiresAt (c.start.goTime + min (89 * second) (rtt + 60 * second)) := by
  have hmin : ∀ x s r : ℤ, min (min (min x (s + 90 * second)) (s + r + minute))
      (s + 119 * second - 30 * second) = min x (s + min (89 * second) (r + 60 * second)) := by
    intro x s r
    simp only [minute, second]
    omega
  exact hmin _ _ _

section
variable [Sha256]

/-- What a claim that was taken satisfied. -/
theorem Conversation.acceptClaim_spec {e : Execution}
    (h : (c.acceptClaim answer claim rtt containerId).1 = some e) :
    ∃ now digest, capture c.clock answer = some now ∧
      c.admits now claim rtt containerId = true ∧ receiptDigest claim.request = some digest ∧
      now.boot < c.deadline rtt ∧ e = c.execution claim rtt containerId digest := by
  unfold Conversation.acceptClaim at h
  split_ifs at h
  unfold Conversation.accepted at h
  obtain ⟨now, hc, h⟩ := Option.bind_eq_some_iff.1 h
  split_ifs at h with ha hb
  · obtain ⟨-, -, h⟩ := Option.bind_eq_some_iff.1 h
    cases h
  obtain ⟨digest, hd, h⟩ := Option.bind_eq_some_iff.1 h
  exact ⟨now, digest, hc, by simpa using ha, hd, not_le.1 hb, (Option.some.inj h).symm⟩

theorem Conversation.admits_rtt {now : Stamp} (h : c.admits now claim rtt containerId = true) :
    validClaim claim = true ∧ 0 ≤ rtt ∧ rtt ≤ 30 * second := by
  simp only [Conversation.admits, Bool.and_eq_true, decide_eq_true_eq] at h
  obtain ⟨⟨⟨⟨⟨⟨⟨⟨hv, -⟩, -⟩, -⟩, h0⟩, h1⟩, -⟩, -⟩, -⟩ := h
  exact ⟨hv, h0, h1⟩

/-- **No guarded step happens outside of the lease.**  While the remote clock
    goes at the rate of the boot clock, the guards of an execution succeed only
    before the lease ends, with 31 seconds to spare for the execution itself; the
    deadline of the core is that of the guards; and no sum of durations wraps. -/
theorem guards_within_lease {c : Conversation} {answer : Option Reading} {claim : Claim}
    {rtt : Duration} {containerId : Bytes} {e : Execution}
    (h : (c.acceptClaim answer claim rtt containerId).1 = some e) :
    ∃ claimed lease now, parseHTTPTime claim.claimedAt = some claimed ∧
      parseHTTPTime claim.leaseExpiresAt = some lease ∧ capture c.clock answer = some now ∧
      -- guards against the remote clock
      (∀ (remote : Duration → Instant) (stamped : Duration), c.start.boot ≤ stamped →
        stamped ≤ now.boot → (∀ b, remote b = claimed + (b - stamped)) →
        ∀ alive later s, capture c.clock later = some s →
          ((∃ id digest, checkExecution e.guard alive later id digest = true) ∨
            (∃ id op, checkMutation e.guard alive later id op = true) →
            remote s.boot < lease - 31 * second) ∧
          (e.checkReport alive later = true → remote s.boot < lease)) ∧
      -- guards against the start of the conversation
      (∀ alive later,
        ((∃ id digest, checkExecution e.guard alive later id digest = true) ∨
          (∃ id op, checkMutation e.guard alive later id op = true) →
          ∃ s, capture c.clock later = some s ∧
            s.boot - c.start.boot < min (89 * second) (rtt + 60 * second)) ∧
        (e.checkReport alive later = true →
          ∃ s, capture c.clock later = some s ∧ s.boot - c.start.boot < 119 * second)) ∧
      (∀ request, endOf request e.delivery =
        min request.expiresAt (c.start.goTime + min (89 * second) (rtt + 60 * second))) ∧
      (∀ x ∈ c.sums now rtt, Fits x) ∧ ∀ s, ∀ x ∈ e.sums s, Fits x := by
  obtain ⟨now, digest, hnow, hadmits, -, -, rfl⟩ := Conversation.acceptClaim_spec h
  obtain ⟨hvalid, h0, h1⟩ := Conversation.admits_rtt hadmits
  obtain ⟨claimed, lease, hclaimed, hlease, rfl⟩ := lease_of_validClaim hvalid
  obtain ⟨hdeadline, hfits1, hfits2⟩ := Conversation.deadline_eq (c := c) h0 h1
  -- the two kinds of guard against the start of the conversation
  have hguard : ∀ alive later,
      (∃ id digest', checkExecution (c.execution claim rtt containerId digest).guard alive later id
          digest' = true) ∨
        (∃ id op, checkMutation (c.execution claim rtt containerId digest).guard alive later id op =
          true) →
      ∃ s, capture c.clock later = some s ∧
        s.boot - c.start.boot < min (89 * second) (rtt + 60 * second) := by
    intro alive later hg
    have hchecked : (c.execution claim rtt containerId digest).guard.checked alive later = true := by
      rcases hg with ⟨id, dg, hg⟩ | ⟨id, op, hg⟩
      · rw [checkExecution, Bool.and_eq_true, Bool.and_eq_true] at hg
        exact hg.1.1
      · rw [checkMutation, Bool.and_eq_true, Bool.and_eq_true] at hg
        exact hg.1.1
    obtain ⟨s, hs, hlt⟩ := Budget.checked_spec hchecked
    refine ⟨s, hs, ?_⟩
    have hlt' : s.boot < c.deadline rtt := hlt
    rw [hdeadline] at hlt'
    linarith
  have hreport : ∀ alive later,
      (c.execution claim rtt containerId digest).checkReport alive later = true →
      ∃ s, capture c.clock later = some s ∧ s.boot - c.start.boot < 119 * second :=
    fun alive later hr => Execution.checkReport_spec hr
  refine ⟨claimed, _, now, hclaimed, hlease, hnow, ?_, ?_, ?_, ?_, ?_⟩
  · intro remote stamped hstart hstop hrate alive later s hs
    refine ⟨fun hg => ?_, fun hr => ?_⟩
    · obtain ⟨s', hs', hlt⟩ := hguard alive later hg
      rw [hs] at hs'
      cases hs'
      have h89 := min_le_left (89 * second) (rtt + 60 * second)
      have hsec : (120 * second - 31 * second : ℤ) = 89 * second := by decide
      rw [hrate]
      linarith
    · obtain ⟨s', hs', hlt⟩ := hreport alive later hr
      rw [hs] at hs'
      cases hs'
      have hsec : (119 * second : ℤ) ≤ 120 * second := by decide
      rw [hrate]
      linarith
  · exact fun alive later => ⟨hguard alive later, hreport alive later⟩
  · exact fun request => Conversation.endOf_delivery request
  · intro x hx
    simp only [Conversation.sums, List.mem_append, List.mem_cons, List.not_mem_nil, or_false] at hx
    rcases hx with (hx | hx) | rfl | rfl | rfl
    · exact fits_continuitySums x hx
    · exact fits_continuitySums x hx
    · exact fits_boot_sub _ _
    · exact hfits1
    · exact hfits2
  · intro s x hx
    simp only [Execution.sums, List.mem_append, List.mem_cons, List.not_mem_nil, or_false] at hx
    rcases hx with (hx | hx) | rfl | rfl
    · exact fits_continuitySums x hx
    · exact fits_continuitySums x hx
    · exact fits_boot_sub _ _
    · exact fits_boot_sub _ _

end

/-- Midnight of 2024-01-01, at which the example starts. -/
def sampleMidnight : Instant := Civil.instant ⟨2024, 1, 1, 0, 0, 0, 0⟩

/-- A reading `d` after the start of the example. -/
def sampleReading (d : Duration) : Reading := ⟨sampleMidnight + d, sampleMidnight + d, d⟩

def sampleStamp : Stamp :=
  ⟨0, sampleMidnight, sampleMidnight, 0, by decide +kernel⟩

def sampleConversation : Conversation := ⟨0, ⟨0, sampleStamp⟩, sampleStamp, false⟩

def sampleAccepted : Option Execution :=
  (@Conversation.acceptClaim plainDigest sampleConversation (some (sampleReading (2 * second)))
    sampleClaim second (List.replicate 64 97)).1

/-- The claim is executed after 20 seconds and reported after 100, both inside of the lease. -/
theorem sampleClaim_guarded :
    ∃ e claimed lease, sampleAccepted = some e ∧
      checkExecution e.guard true (some (sampleReading (20 * second))) e.guard.actionId
        e.guard.digest = true ∧ e.checkReport true (some (sampleReading (100 * second))) = true ∧
      parseHTTPTime sampleClaim.claimedAt = some claimed ∧
      parseHTTPTime sampleClaim.leaseExpiresAt = some lease ∧
      claimed + (20 * second - second) < lease - 31 * second ∧
      claimed + (100 * second - second) < lease ∧ ∀ s, ∀ x ∈ e.sums s, Fits x := by
  have hsome : (sampleAccepted.any fun e =>
      checkExecution e.guard true (some (sampleReading (20 * second))) e.guard.actionId
        e.guard.digest && e.checkReport true (some (sampleReading (100 * second)))) = true := by
    decide +kernel
  obtain ⟨e, he, hchecks⟩ := (Option.any_eq_true _ _).1 hsome
  obtain ⟨hexecution, hreport⟩ := Bool.and_eq_true _ _ ▸ hchecks
  obtain ⟨claimed, lease, now, hclaimed, hlease, hnow, hremote, -, -, -, hsums⟩ :=
    @guards_within_lease plainDigest _ _ _ _ _ _ he
  obtain rfl := Option.some.inj hnow
  have hguards := hremote (fun b => claimed + (b - second)) second (by decide) (by decide)
    (fun _ => rfl) true
  exact ⟨e, claimed, lease, he, hexecution, hreport, hclaimed, hlease,
    (hguards _ _ rfl).1 (Or.inl ⟨_, _, hexecution⟩), (hguards _ _ rfl).2 hreport, hsums⟩

end ActionBudget

end HomeLab
