/-
  What the journal guarantees.

  `dispatched_at_most_once`: over any run an intent is made durable at most
  once for an action, and after its intent or its result no call hands out an
  attempt that could dispatch it again.

  `store_reads_back`: after any run the stored rows pass every check of a
  reopened store.
-/
import HomeLab.ActionJournal.Runs

namespace HomeLab

namespace ActionJournal

open ActionCore Ledger

/-! ## Stored events -/

/-- The store holds an event of the given ordinal for the action with the
    canonical text `raw`. -/
def Database.hasEvent (db : Database) (raw : Bytes) (ordinal : ℕ) : Bool :=
  db.actions.any fun a => a.metadata = raw &&
    db.events.any fun e => e.actionId = a.actionId && e.ordinal = ordinal

theorem hasEvent_iff {db : Database} {raw : Bytes} {n : ℕ} :
    db.hasEvent raw n = true ↔ ∃ a ∈ db.actions, a.metadata = raw ∧
      ∃ e ∈ db.events, e.actionId = a.actionId ∧ e.ordinal = n := by
  simp [Database.hasEvent]

/-- The store holds a terminal event with the code for the action with the
    canonical text `raw`. -/
def Database.hasTerminal (db : Database) (raw : Bytes) (code : Code) : Bool :=
  db.actions.any fun a => a.metadata = raw &&
    db.events.any fun e => e.actionId = a.actionId && e.ordinal = 2 && e.code = .code code

variable {code : Code} {r : Record} {i : ℕ}

theorem hasTerminal_iff {db : Database} {raw : Bytes} :
    db.hasTerminal raw code = true ↔ ∃ a ∈ db.actions, a.metadata = raw ∧
      ∃ e ∈ db.events, e.actionId = a.actionId ∧ e.ordinal = 2 ∧ e.code = .code code := by
  simp [Database.hasTerminal, and_assoc]

/-- The events of a record. -/
theorem mem_eventRows_iff {e : EventRow} :
    e ∈ r.eventRows ↔ (r.intent ≠ 0 ∧ e = Transition.intent.event r.id r.intent) ∨
      ∃ c, r.code = some c ∧ r.terminal ≠ 0 ∧ e = r.terminalEvent c := by
  rw [Record.eventRows, List.mem_append]
  refine or_congr ?_ ?_
  · by_cases hi : r.intent = 0 <;> simp [Record.intentRows, hi]
  · cases hc : r.code with
    | none => simp [Record.terminalRows, hc]
    | some c => by_cases ht : r.terminal = 0 <;> simp [Record.terminalRows, hc, ht]

theorem exists_intent_row :
    (∃ e ∈ r.eventRows, e.ordinal = 1) ↔ r.intent ≠ 0 := by
  constructor
  · rintro ⟨e, he, h1⟩
    rcases mem_eventRows_iff.1 he with ⟨hi, -⟩ | ⟨c, -, -, rfl⟩
    · exact hi
    · cases h1
  · intro hi
    exact ⟨_, mem_eventRows_iff.2 (Or.inl ⟨hi, rfl⟩), rfl⟩

theorem exists_terminal_code_row :
    (∃ e ∈ r.eventRows, e.ordinal = 2 ∧ e.code = .code code) ↔
      r.terminal ≠ 0 ∧ r.code = some code := by
  constructor
  · rintro ⟨e, he, h2, hcode⟩
    rcases mem_eventRows_iff.1 he with ⟨-, rfl⟩ | ⟨c, hc, ht, rfl⟩
    · cases h2
    · injection hcode with hcode
      exact ⟨ht, hcode ▸ hc⟩
  · rintro ⟨ht, hc⟩
    exact ⟨_, mem_eventRows_iff.2 (Or.inr ⟨code, hc, ht, rfl⟩), rfl, rfl⟩

section
variable [Sha256] {b : Binding} {L : Ledger}

theorem exists_terminal_row (hr : r.Wf b) :
    (∃ e ∈ r.eventRows, e.ordinal = 2) ↔ r.terminal ≠ 0 := by
  constructor
  · rintro ⟨e, he, h2⟩
    rcases mem_eventRows_iff.1 he with ⟨-, rfl⟩ | ⟨c, -, ht, -⟩
    · cases h2
    · exact ht
  · intro ht
    obtain ⟨-, -, -, c, hc, -⟩ := hr.terminal ht
    exact ⟨_, mem_eventRows_iff.2 (Or.inr ⟨c, hc, ht, rfl⟩), rfl⟩

/-- The stored events of an action are those of its record. -/
theorem exists_event_encode (hL : L.Wf b) {raw : Bytes} {P : EventRow → Prop} :
    (∃ a ∈ (L.encode b).actions, a.metadata = raw ∧
      ∃ e ∈ (L.encode b).events, e.actionId = a.actionId ∧ P e) ↔
    ∃ r ∈ L.entries, r.raw = raw ∧ ∃ e ∈ r.eventRows, P e := by
  constructor
  · rintro ⟨a, ha, hraw, e, he, hid, hP⟩
    obtain ⟨r, hr, rfl⟩ := List.mem_map.1 ha
    obtain ⟨s, hs, he⟩ := List.mem_flatMap.1 he
    obtain rfl := hL.sorted.eq_of_key hs hr ((mem_eventRows he).symm.trans hid)
    exact ⟨s, hs, hraw, e, he, hP⟩
  · rintro ⟨r, hr, hraw, e, he, hP⟩
    exact ⟨r.actionRow, List.mem_map_of_mem hr, hraw, e, List.mem_flatMap.2 ⟨r, hr, he⟩,
      mem_eventRows he, hP⟩

theorem hasEvent_encode (hL : L.Wf b) {raw : Bytes} {n : ℕ} :
    (L.encode b).hasEvent raw n = true ↔
      ∃ r ∈ L.entries, r.raw = raw ∧ ∃ e ∈ r.eventRows, e.ordinal = n := by
  rw [hasEvent_iff, exists_event_encode hL]

theorem hasTerminal_encode (hL : L.Wf b) {raw : Bytes} :
    (L.encode b).hasTerminal raw code = true ↔
      ∃ r ∈ L.entries, r.raw = raw ∧ r.terminal ≠ 0 ∧ r.code = some code := by
  rw [hasTerminal_iff, exists_event_encode hL]
  simp only [exists_terminal_code_row]

theorem hasIntent_encode (hL : L.Wf b) {raw : Bytes} :
    (L.encode b).hasEvent raw 1 = true ↔ L.HasIntent raw := by
  rw [hasEvent_encode hL]
  simp only [exists_intent_row]
  rfl

theorem hasEvent_of_encode (hL : L.Wf b) {raw : Bytes}
    (h : (L.encode b).hasEvent raw 1 = true ∨ (L.encode b).hasEvent raw 2 = true) :
    L.HasEvent raw := by
  rcases h with h | h
  · exact ((hasIntent_encode hL).1 h).hasEvent
  · obtain ⟨r, hr, hraw, hev⟩ := (hasEvent_encode hL).1 h
    have ht := (exists_terminal_row (hL.valid r hr)).1 hev
    exact ⟨r, hr, hraw, by simp [Record.undispatched, ht]⟩

/-! ## At most one dispatch -/

/-- How often a run makes an intent for `raw` durable. -/
def intentsMade (raw : Bytes) : System → List Op → ℕ
  | _, [] => 0
  | sys, op :: ops =>
    (if !sys.db.hasEvent raw 1 && (sys.step op).db.hasEvent raw 1 then 1 else 0) +
      intentsMade raw (sys.step op) ops

variable {sys : System} {k : Key} {raw : Bytes}

theorem intentsMade_spent (hk : canonicalJournalMetadata k = some raw) (h : Represents b sys L)
    (hs : L.Spent k raw) (ops : List Op) : intentsMade raw sys ops = 0 := by
  induction ops generalizing sys L with
  | nil => rfl
  | cons op ops ih =>
    obtain ⟨L', h', hev⟩ := h.step op
    obtain ⟨hs', hback⟩ := hev.spent h.wf hk hs
    have hnone : (!sys.db.hasEvent raw 1 && (sys.step op).db.hasEvent raw 1) = false := by
      rw [Bool.and_eq_false_iff, Bool.not_eq_false', or_iff_not_imp_right, Bool.not_eq_false]
      intro hnew
      rw [h'.db, hasIntent_encode h'.wf] at hnew
      rw [h.db, hasIntent_encode h.wf]
      exact hback hnew
    rw [intentsMade, hnone, ih h' hs']
    rfl

theorem intentsMade_le_one (hk : canonicalJournalMetadata k = some raw) (h : Represents b sys L)
    (ops : List Op) : intentsMade raw sys ops ≤ 1 := by
  induction ops generalizing sys L with
  | nil => exact Nat.zero_le _
  | cons op ops ih =>
    obtain ⟨L', h', hev⟩ := h.step op
    rw [intentsMade]
    split_ifs with hnew
    · rw [Bool.and_eq_true, h'.db, hasIntent_encode h'.wf] at hnew
      rw [intentsMade_spent hk h' (hnew.2.hasEvent.spent h'.wf)]
    · rw [Nat.zero_add]
      exact ih h'

theorem acquire_spent (hk : canonicalJournalMetadata k = some raw) (h : Represents b sys L)
    (hs : L.Spent k raw) (c : Call) (guard : Option ExecutionCommit)
    (hi : (sys.acquire c k guard).2 = .ok i) :
    ∃ a, (sys.acquire c k guard).1.attempts[i]? = some a ∧ a.mutable = false := by
  have hres := h.acquire_result c k guard
  generalize sys.acquire c k guard = result at hres hi
  cases hres with
  | unchanged | failed => cases hi
  | handed j raw' L' r m hj hu hk' hb hacq =>
    obtain rfl := Except.ok.inj hi
    obtain rfl := Option.some.inj (hk.symm.trans hk')
    refine ⟨⟨sys.generation, r, false, m, guard⟩, by simp [System.hand], ?_⟩
    cases hacq with
    | replay | expired => rfl
    | permit r hr hraw hu hclear =>
      have := hs.marked r hr hraw
      rw [hu] at this
      cases this
    | admission hid hcreated hexp hfloor hsize hclear =>
      have hno : ∀ s ∈ L.entries, s.raw ≠ raw := fun s hs' hraw =>
        hid s hs' (congrArg Key.actionId ((h.wf.valid s hs').key_eq hk hraw))
      exact absurd (hs.forgotten hno) (not_le.2 hfloor)

end

/-! ## Attempts over a run -/

/-- Whether an attempt can dispatch is fixed when it is handed out. -/
def KeepsMutable (sys sys' : System) : Prop :=
  ∀ (i : ℕ) (a : Attempt), sys.attempts[i]? = some a →
    ∃ a' : Attempt, sys'.attempts[i]? = some a' ∧ a'.mutable = a.mutable

theorem KeepsMutable.of_eq {sys sys' : System} (h : sys'.attempts = sys.attempts) :
    KeepsMutable sys sys' := fun i a ha => ⟨a, by rw [h]; exact ha, rfl⟩

theorem KeepsMutable.of_set {sys sys' : System} {a b : Attempt}
    (h : sys'.attempts = sys.attempts.set i b) (ha : sys.attempts[i]? = some a)
    (hm : b.mutable = a.mutable) : KeepsMutable sys sys' := by
  intro k c hc
  by_cases hik : i = k
  · subst hik
    obtain rfl := Option.some.inj (ha.symm.trans hc)
    exact ⟨b, by rw [h, List.getElem?_set_self (List.getElem?_eq_some_iff.1 ha).1], hm⟩
  · exact ⟨c, by rw [h, List.getElem?_set_ne hik]; exact hc, rfl⟩

section
variable [Sha256]

theorem KeepsMutable.acquire (sys : System) (c : Call) (k : Key) (guard : Option ExecutionCommit) :
    KeepsMutable sys (sys.acquire c k guard).1 := by
  have happ : ∀ {j db r m}, KeepsMutable sys (sys.hand j db k r m guard) := fun i a ha =>
    ⟨a, by rw [System.hand, List.getElem?_append_left (List.getElem?_eq_some_iff.1 ha).1, ha], rfl⟩
  rw [System.acquire]
  repeat' split
  all_goals first
    | exact .of_eq rfl
    | exact happ

theorem KeepsMutable.transition (sys : System) (c : Call) (i : ℕ) (t : Transition) :
    KeepsMutable sys (sys.transition c i t).1 := by
  rw [System.transition]
  split
  · rename_i a j ha hj
    repeat' split
    all_goals first
      | exact .of_eq rfl
      | exact .of_set rfl ha rfl
  · exact .of_eq rfl

theorem KeepsMutable.step (sys : System) (op : Op) : KeepsMutable sys (sys.step op) := by
  cases op with
  | acquire c k guard => exact .acquire sys c k guard
  | transition c i t => exact .transition sys c i t
  | closeAttempt i =>
    rw [System.step, System.closeAttempt]
    split
    · exact .of_eq rfl
    · rename_i a ha
      split_ifs
      · exact .of_eq rfl
      · exact .of_set rfl ha rfl
      · exact .of_set rfl ha rfl
  | prune c =>
    rw [System.step, System.prune]
    repeat' split
    all_goals exact .of_eq rfl
  | close =>
    rw [System.step, System.close]
    split
    · exact .of_eq rfl
    · intro i a ha
      rename_i j hj
      refine ⟨_, by rw [List.getElem?_mapIdx, ha]; rfl, ?_⟩
      simp only
      split_ifs <;> rfl
  | openExisting b o =>
    rw [System.step, System.openExisting]
    repeat' split
    all_goals exact .of_eq rfl
  | crash => exact .of_eq rfl

theorem KeepsMutable.run (sys : System) (ops : List Op) : KeepsMutable sys (sys.run ops) := by
  induction ops generalizing sys with
  | nil => exact .of_eq rfl
  | cons op ops ih =>
    intro i a ha
    obtain ⟨a₁, ha₁, hm₁⟩ := KeepsMutable.step sys op i a ha
    obtain ⟨a₂, ha₂, hm₂⟩ := ih (sys.step op) i a₁ ha₁
    exact ⟨a₂, ha₂, hm₂.trans hm₁⟩

theorem transition_immutable {sys : System} {a : Attempt} (ha : sys.attempts[i]? = some a)
    (hm : a.mutable = false) (c : Call) (t : Transition) :
    ∃ e, (sys.transition c i t).2 = .error e := by
  rw [System.transition, ha]
  cases sys.journal with
  | none => exact ⟨_, rfl⟩
  | some j =>
    simp only [hm]
    split_ifs with h1 h2 h3
    · exact ⟨_, rfl⟩
    · exact ⟨_, rfl⟩
    · exact ⟨_, rfl⟩
    · simp at h3

/-- **An action is dispatched at most once.**  No run makes two intents for it
    durable, whatever fails, whatever the clock shows and even if its record
    has been pruned in between; and once an intent or a result is durable,
    every later `Acquire` fails or returns an attempt on which `Intent` and
    `Finish` fail for ever. -/
theorem dispatched_at_most_once (b : Binding) (k : Key) (raw : Bytes)
    (hk : canonicalJournalMetadata k = some raw) :
    (∀ ops, intentsMade raw (System.provisioned b) ops ≤ 1) ∧
    ∀ before after,
      (((System.provisioned b).run before).db.hasEvent raw 1 = true ∨
        ((System.provisioned b).run before).db.hasEvent raw 2 = true) →
      ∀ c guard i,
        ((((System.provisioned b).run before).run after).acquire c k guard).2 = .ok i →
        ∃ a, ((((System.provisioned b).run before).run after).acquire c k guard).1.attempts[i]? =
            some a ∧ a.mutable = false ∧
          ∀ later c' t, ∃ e, ((((((System.provisioned b).run before).run after).acquire
            c k guard).1.run later).transition c' i t).2 = .error e := by
  refine ⟨intentsMade_le_one hk (represents_provisioned b), ?_⟩
  intro before after hevent c guard i hi
  obtain ⟨L₁, h₁, -⟩ := (represents_provisioned b).run before
  obtain ⟨L₂, h₂, hev⟩ := h₁.run after
  rw [h₁.db] at hevent
  have hspent := (hasEvent_of_encode h₁.wf hevent).spent (k := k) h₁.wf
  obtain ⟨a, ha, hm⟩ := acquire_spent hk h₂ (hev.spent h₁.wf hk hspent).1 c guard hi
  refine ⟨a, ha, hm, fun later c' t => ?_⟩
  obtain ⟨a', ha', hm'⟩ := KeepsMutable.run _ later i a ha
  exact transition_immutable ha' (hm'.trans hm) c' t

end

/-! ### A sample action -/

def sampleRequest : Request where
  actionId := ascii "hla_00000000000000000000000000000001"
  serverId := ascii "srv_00000000000000000000000000000000"
  installationId := ascii "agent_00000000000000000000000000000000"
  ownerId := ascii "usr_00000000000000000000000000000000"
  actorId := ascii "usr_00000000000000000000000000000000"
  targetId := ascii "hlt_00000000000000000000000000000001"
  operation := .start
  graceSeconds := 0
  policyRevision := 1
  capabilityRevision := 1
  createdAt := 63000000000 * second
  expiresAt := 63000000300 * second

def sampleKey : Key where
  actionId := sampleRequest.actionId
  targetId := sampleRequest.targetId
  fingerprint := Vector.replicate 32 0
  metadata :=
    { request := sampleRequest
      engineGeneration := ascii "00000000000000000000000000000001"
      containerId := ascii "0000000000000000000000000000000000000000000000000000000000000001" }

def sampleBinding : Binding :=
  ⟨sampleRequest.serverId, sampleRequest.installationId, sampleRequest.ownerId⟩

theorem sampleKey_canonical :
    @canonicalJournalMetadata plainDigest sampleKey = some sampleKey.record.marshal := by
  decide +kernel

def sampleCall : Call := { now := ⟨63000000010 * second, by decide⟩ }

/-- A run that admits and dispatches the sample action, loses its process and
    tries again. -/
def sampleRun : List Op :=
  [.acquire sampleCall sampleKey none, .transition sampleCall 0 .intent, .crash,
   .openExisting sampleBinding {}, .acquire sampleCall sampleKey none,
   .transition sampleCall 1 .intent]

theorem sampleRun_dispatches_once :
    @canonicalJournalMetadata plainDigest sampleKey = some sampleKey.record.marshal ∧
    @intentsMade plainDigest sampleKey.record.marshal (System.provisioned sampleBinding)
      sampleRun = 1 ∧
    @intentsMade plainDigest sampleKey.record.marshal (System.provisioned sampleBinding)
      sampleRun ≤ 1 :=
  ⟨sampleKey_canonical, by decide +kernel,
    (@dispatched_at_most_once plainDigest sampleBinding sampleKey _ sampleKey_canonical).1 sampleRun⟩

section
variable [Sha256]

/-! ## Reading back -/

/-- **The journal reads back what it wrote.**  After any run the store passes
    `verify`: its rows load into records whose times and codes are in order, at
    most a thousand of them, and at most two are unresolved and share neither
    target nor container. -/
theorem store_reads_back (b : Binding) (ops : List Op) :
    verify b ((System.provisioned b).run ops).db = .ok () ∧
    ∃ rs, records b ((System.provisioned b).run ops).db = .ok rs ∧
      rs.length = ((System.provisioned b).run ops).db.actions.length ∧
      rs.length ≤ maxRecords ∧
      rs.countP Record.unresolved ≤ 2 ∧
      (∀ r ∈ rs, ∀ s ∈ rs, r.unresolved = true → s.unresolved = true →
        r.key.targetId = s.key.targetId ∨
          (r.key.metadata.engineGeneration = s.key.metadata.engineGeneration ∧
            r.key.metadata.containerId = s.key.metadata.containerId) → r = s) ∧
      ∀ r ∈ rs,
        r.key.metadata.request.createdAt ≤ r.admitted ∧ r.admitted < r.expiresAt ∧
        (r.intent ≠ 0 → r.admitted ≤ r.intent ∧ r.intent < r.expiresAt) ∧
        (r.terminal ≠ 0 → r.admitted ≤ r.terminal ∧ (r.intent ≠ 0 → r.intent ≤ r.terminal) ∧
          ∃ c, r.code = some c ∧
            terminalAllowed r.key.metadata.request.operation (r.intent ≠ 0) c r.reason = true ∧
            (c = .denied → r.expiresAt ≤ r.terminal)) := by
  obtain ⟨L, h, -⟩ := (represents_provisioned b).run ops
  rw [h.db]
  refine ⟨verify_encode h.wf h.unfenced, L.entries, records_encode h.wf,
    (List.length_map _).symm, h.wf.size, ?_, ?_, ?_⟩
  · have := h.unfenced.count
    rwa [Record.hot_nil] at this
  · intro r hr s hs hru hsu hrel
    refine h.unfenced.fence r hr s hs (by rwa [Record.hot_nil]) (by rwa [Record.hot_nil]) ?_
    simpa [relatedKeys] using hrel
  · intro r hr
    have hwf := h.wf.valid r hr
    exact ⟨hwf.admitted.1, hwf.admitted.2, fun hi => (hwf.intent hi).2,
      fun ht => (hwf.terminal ht).2⟩

end

end ActionJournal

end HomeLab
