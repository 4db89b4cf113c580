/-
  Executions neither repeat nor invent an effect.

  `Inv` is the invariant of every run: it places each execution in the
  protocol of `ActionCore` and says what that phase means for the stored
  ledger, the memory of its attempt and the log of the engine.
-/
import HomeLab.Execution.World

namespace HomeLab

namespace Execution

open ActionCore ActionJournal Ledger Prog

section
variable [Sha256]

/-! ## The invariant -/

def World.ledger (b : ActionJournal.Binding) (w : World) : Ledger := w.sys.db.ledger b

/-- The record was stored at some moment of the run. -/
def WasStored (b : ActionJournal.Binding) (ms : List Move) (r : Record) : Prop :=
  ∃ pre, pre <+: ms ∧ r ∈ ((run b pre).shared.ledger b).entries

variable {r : Record} {i : ℕ} {code : Code} {c : ActionCore.Call}

theorem WasStored.mono {b : ActionJournal.Binding} {ms ms' : List Move} (h : WasStored b ms r)
    (hms : ms <+: ms') : WasStored b ms' r := by
  obtain ⟨pre, hpre, hr⟩ := h
  exact ⟨pre, hpre.trans hms, hr⟩

/-- The action of an activation had ended with the code at some moment of the
    run. -/
def WasEnded (b : ActionJournal.Binding) (ms : List Move) (x : Activation) (code : Code) : Prop :=
  ∃ r, newJournalKey x.request x.binding = some r.key ∧ r.terminal ≠ 0 ∧ r.code = some code ∧
    WasStored b ms r

/-- The activation holds the attempt `i`, which remembers the record `r` of its
    own action. -/
structure Holds (w : World) (x : Activation) (i : ℕ) (r : Record) (m : Bool) : Prop where
  attempt : x.attempt = some i
  memory : w.sys.memory[i]? = some (r, m)
  key : newJournalKey x.request x.binding = some r.key

/-- The engine was not yet called for the attempt. -/
def World.untouched (w : World) (i : ℕ) : Prop := ∀ v ∈ w.invoked, v.attempt ≠ some i

/-- What a phase means. -/
def PhaseOk (b : ActionJournal.Binding) (ms : List Move) (w : World) (x : Activation) :
    Phase → Prop
  | .idle => x.attempt = none
  | .held => ∃ i r m, Holds w x i r m ∧ w.untouched i ∧ WasStored b ms r
  | .replayed code => code.known = true → WasEnded b ms x code
  | .dispatched => ∃ i r, Holds w x i r true ∧ w.untouched i ∧ r.unresolved = true ∧
      r ∈ (w.ledger b).entries
  | .invoked => ∃ i r m, Holds w x i r m
  | .settled code => WasEnded b ms x code
  | .failed => True

structure Placed (b : ActionJournal.Binding) (ms : List Move) (w : World) (x : Activation)
    (q : Position) : Prop where
  request : q.request = x.request
  binding : q.binding = x.binding
  bound : ∀ i, x.attempt = some i → i < w.sys.memory.length
  phase : PhaseOk b ms w x q.phase

/-- Two activations never share an attempt. -/
def Apart (x y : Activation) : Prop := ∀ i, x.attempt = some i → y.attempt ≠ some i

/-- Every change of a container belongs to an attempt that has dispatched its
    action, and no two to one attempt. -/
structure Logged (w : World) : Prop where
  attempt : ∀ v ∈ w.invoked, ∃ i r, v.attempt = some i ∧ w.sys.memory[i]? = some (r, true) ∧
    r.intent ≠ 0 ∧ newJournalKey v.request v.binding = some r.key
  nodup : (w.invoked.map Invocation.attempt).Nodup

structure World.Ok (b : ActionJournal.Binding) (w : World) : Prop where
  tracked : Tracked b w.sys (w.ledger b)
  logged : Logged w

/-- **The invariant of a run.** -/
def Inv (b : ActionJournal.Binding) (ms : List Move) : Prop :=
  (run b ms).Inv (I := calls) next Returns (World.Ok b) (Placed b ms) Apart

variable {b : ActionJournal.Binding} {ms ms' : List Move} {w w' : World} {x x' y : Activation}

/-! ## What others keep -/

/-- What a step keeps for an activation that does not take part in it. -/
structure Undisturbed (b : ActionJournal.Binding) (w w' : World) (x : Activation) : Prop where
  length : w.sys.memory.length ≤ w'.sys.memory.length
  frame : ∀ i, x.attempt = some i →
    Frame i w.sys.memory w'.sys.memory (w.ledger b) (w'.ledger b)
  untouched : ∀ i, x.attempt = some i → w.untouched i → w'.untouched i

theorem Holds.undisturbed {m : Bool} (h : Holds w x i r m) (hu : Undisturbed b w w' x) :
    Holds w' x i r m :=
  ⟨h.attempt, (hu.frame i h.attempt).memory _ h.memory, h.key⟩

theorem WasEnded.mono (h : WasEnded b ms x code) (hms : ms <+: ms') :
    WasEnded b ms' x code := by
  obtain ⟨r, hkey, hterm, hcode, hr⟩ := h
  exact ⟨r, hkey, hterm, hcode, hr.mono hms⟩

theorem Placed.undisturbed {q : Position} (h : Placed b ms w x q) (hms : ms <+: ms')
    (hu : Undisturbed b w w' x) : Placed b ms' w' x q where
  request := h.request
  binding := h.binding
  bound := fun i hi => (h.bound i hi).trans_le hu.length
  phase := by
    have hp := h.phase
    revert hp
    cases q.phase with
    | idle => exact id
    | held =>
      rintro ⟨i, r, m, hh, hi, hr⟩
      exact ⟨i, r, m, hh.undisturbed hu, hu.untouched i hh.attempt hi, hr.mono hms⟩
    | replayed code => exact fun hp hk => (hp hk).mono hms
    | dispatched =>
      rintro ⟨i, r, hh, hi, hun, hr⟩
      exact ⟨i, r, hh.undisturbed hu, hu.untouched i hh.attempt hi, hun,
        (hu.frame i hh.attempt).pending r hh.memory hun hr⟩
    | invoked =>
      rintro ⟨i, r, m, hh⟩
      exact ⟨i, r, m, hh.undisturbed hu⟩
    | settled code => exact fun hp => hp.mono hms
    | failed => exact id

/-! ## Journal steps -/

/-- Every step of the journal keeps the invariant of the world, and disturbs at
    most the activation that holds the attempt it is made on. -/
theorem World.Ok.step (h : w.Ok b) (op : Op) :
    World.Ok b { w with sys := w.sys.step op } ∧
      ∀ x : Activation, (∀ c i t, op = .transition c i t → x.attempt ≠ some i) →
        Undisturbed b w { w with sys := w.sys.step op } x := by
  obtain ⟨L', ht, -, hf, -⟩ := h.tracked.step op
  have hL' : World.ledger b { w with sys := w.sys.step op } = L' := ht.rep.ledger_eq
  refine ⟨⟨hL' ▸ ht, ⟨fun v hv => ?_, h.logged.nodup⟩⟩, fun x hx => ⟨?_, fun i hi => ?_, ?_⟩⟩
  · obtain ⟨i, r, hi, hr, hint, hkey⟩ := h.logged.attempt v hv
    obtain ⟨r', hr', hkey', hint'⟩ := h.tracked.memory_step op hr
    exact ⟨i, r', hi, hr', hint' hint, hkey' ▸ hkey⟩
  · exact h.tracked.length_step op
  · rw [hL']
    exact hf i fun c t heq => hx c i t heq hi
  · exact fun _ _ hi => hi

/-! ## Calls -/

/-- What a call must achieve. -/
abbrev Moves (b : ActionJournal.Binding) (ms ms' : List Move) (w : World) (x : Activation)
    (w' : World) (x' : Activation) (q' : Position) : Prop :=
  Pool.Moves (World.Ok b) (Placed b ms) (Placed b ms') Apart w x w' x' q'

theorem Undisturbed.refl : Undisturbed b w w x :=
  ⟨le_refl _, fun _ _ => ⟨fun _ h => h, fun _ _ _ h => h⟩, fun _ _ h => h⟩

theorem moves_same {q' : Position} (hok : w'.Ok b) (hms : ms <+: ms') (hq' : Placed b ms' w' x q')
    (hother : ∀ y, Apart x y → Undisturbed b w w' y) : Moves b ms ms' w x w' x q' where
  shared := hok
  caller := hq'
  others := fun y _ hxy hyx hy => ⟨hy.undisturbed hms (hother y hxy), hxy, hyx⟩

theorem Position.of_next {q q' : Position} {a : c.Answer} (h : next q c a = some q') :
    q'.request = q.request ∧ q'.binding = q.binding ∧
      q.phase.next q.request q.binding c a = some q'.phase := by
  rw [next, Option.map_eq_some_iff] at h
  obtain ⟨phase, hphase, rfl⟩ := h
  exact ⟨rfl, rfl, hphase⟩

/-- The place reached by an allowed call. -/
theorem Placed.next {q q' : Position} (h : Placed b ms w x q) {a : c.Answer}
    (hn : ActionCore.next q c a = some q') (hlen : w.sys.memory.length ≤ w'.sys.memory.length)
    (hphase : q.phase.next x.request x.binding c a = some q'.phase → PhaseOk b ms' w' x q'.phase) :
    Placed b ms' w' x q' := by
  obtain ⟨hr, hb, hp⟩ := Position.of_next hn
  refine ⟨hr.trans h.request, hb.trans h.binding, fun i hi => (h.bound i hi).trans_le hlen, ?_⟩
  rw [h.request, h.binding] at hp
  exact hphase hp

variable {q q' : Position} {e : Answers}

theorem moves_look (hok : w.Ok b) (hms : ms <+: ms') (h : Placed b ms w x q) {a : c.Answer}
    (hn : next q c a = some q')
    (hphase : q.phase.next x.request x.binding c a = some q'.phase → q'.phase = q.phase) :
    Moves b ms ms' w x w x q' := by
  refine moves_same hok hms (h.next hn (le_refl _) fun hp => ?_) fun _ _ => Undisturbed.refl
  rw [hphase hp]
  exact (h.undisturbed hms Undisturbed.refl).phase

theorem moves_existing (hok : w.Ok b) (hms : ms <+: ms') (h : Placed b ms w x q)
    (hn : next q .existing (handler .existing e w x).2.2 = some q') :
    Moves b ms ms' w x w x q' := by
  refine moves_same hok hms (h.next hn (le_refl _) fun hp => ?_) fun _ _ => Undisturbed.refl
  have hphase := h.phase
  cases hq : q.phase <;> rw [hq] at hp hphase <;> try cases hp
  obtain ⟨i, r, m, hh, hi, hr⟩ := hphase
  simp only [handler, hh.attempt, Phase.next, Option.some.injEq] at hp
  cases hex : w.sys.existing i with
  | none =>
    rw [hex] at hp
    rw [← hp]
    exact ⟨i, r, m, hh, hi, hr.mono hms⟩
  | some code =>
    rw [hex] at hp
    rw [← hp]
    intro hk
    obtain ⟨r', m', hmem, hterm, hcode⟩ := System.existing_known hex hk
    obtain ⟨rfl, -⟩ := Prod.mk.inj (Option.some.inj (hh.memory.symm.trans hmem))
    exact ⟨r, hh.key, hterm, hcode, hr.mono hms⟩

theorem mem_ledger_of_tracked {sys : System} {L : Ledger} (h : Tracked b sys L) (hr : r ∈ L.entries) :
    r ∈ (sys.db.ledger b).entries := by
  rw [h.rep.ledger_eq]
  exact hr

/-- An acquired attempt is new, so no other activation holds it and the engine
    was not called for it. -/
theorem moves_acquire (hok : w.Ok b) (hms : ms <+: ms') (h : Placed b ms w x q) {k : Key}
    (hn : next q (.acquire k) (w.acquire e x k).2.2 = some q')
    (hrun : (run b ms').shared = (w.acquire e x k).1) :
    Moves b ms ms' w x (w.acquire e x k).1 (w.acquire e x k).2.1 q' := by
  have hphase := h.phase
  obtain ⟨hreq, hbind, hp⟩ := Position.of_next hn
  rw [h.request] at hreq hp
  rw [h.binding] at hbind hp
  have hidle : q.phase = .idle ∧ newJournalKey x.request x.binding = some k := by
    cases hq : q.phase <;> rw [hq] at hp <;> try cases hp
    simp only [Phase.next] at hp
    split_ifs at hp with hkey
    exact ⟨rfl, hkey⟩
  obtain ⟨hq, hkey⟩ := hidle
  rw [hq] at hp hphase
  have hnone : x.attempt = none := hphase
  simp only [Phase.next, hkey, if_true, Option.some.injEq] at hp
  unfold World.acquire at hp hrun ⊢
  split_ifs at hp hrun ⊢ with hgen
  · refine moves_same hok hms ⟨hreq, hbind, fun i hi => ?_, ?_⟩ fun _ _ => Undisturbed.refl
    · rw [hnone] at hi; cases hi
    · rw [← hp]; trivial
  obtain ⟨hok', hother⟩ := hok.step (.acquire e.journal k x.guard)
  obtain ⟨L', ht, -, -, -, ⟨err, herr, -⟩ | ⟨hi, r, m, hmem, hrkey, hr⟩⟩ :=
    hok.tracked.acquire e.journal k x.guard
  all_goals
    rw [System.step] at hok' hother
    generalize w.sys.acquire e.journal k x.guard = result at *
    obtain ⟨sys, answer⟩ := result
    simp only at *
  · subst herr
    refine moves_same hok' hms ⟨hreq, hbind, fun i hi => ?_, ?_⟩ fun y _ => hother y (by simp)
    · rw [hnone] at hi; cases hi
    · rw [← hp]; trivial
  · subst hi
    have hlast : sys.memory[w.sys.memory.length]? = some (r, m) := by rw [hmem]; simp
    -- the log knows only attempts that were remembered before
    have hnew : w.untouched w.sys.memory.length := by
      intro v hv hatt
      obtain ⟨i, s, hi, hs, -⟩ := hok.logged.attempt v hv
      obtain rfl := Option.some.inj (hatt.symm.trans hi)
      exact absurd (List.getElem?_eq_some_iff.1 hs).1 (lt_irrefl _)
    refine ⟨hok', ⟨hreq, hbind, fun i hi => ?_, ?_⟩, fun y s hxy hyx hy => ?_⟩
    · obtain rfl := Option.some.inj hi
      exact (List.getElem?_eq_some_iff.1 hlast).1
    · rw [← hp]
      refine ⟨w.sys.memory.length, r, m, ⟨rfl, hlast, hrkey ▸ hkey⟩, hnew, ms', List.prefix_rfl, ?_⟩
      rw [hrun]
      exact mem_ledger_of_tracked ht hr
    · refine ⟨hy.undisturbed hms (hother y (by simp)), fun i hi hyi => ?_, fun i hyi hi => ?_⟩
      · obtain rfl := Option.some.inj hi
        exact absurd (hy.bound _ hyi) (lt_irrefl _)
      · obtain rfl := Option.some.inj hi
        exact absurd (hy.bound _ hyi) (lt_irrefl _)

theorem transition_spec (hok : w.Ok b) (hi : x.attempt = some i) (t : Transition) :
    (w.transition e x t).1.Ok b ∧ (w.transition e x t).1.invoked = w.invoked ∧
      w.sys.memory.length ≤ (w.transition e x t).1.sys.memory.length ∧
      (∀ y, Apart x y → Undisturbed b w (w.transition e x t).1 y) ∧
      ((w.transition e x t).2 = false ∨
        (w.transition e x t).2 = true ∧ ∃ r, w.sys.memory[i]? = some (r, true) ∧
          t.allowed r = true ∧
          (w.transition e x t).1.sys.memory[i]? = some (t.apply e.journal.now r, true) ∧
          t.apply e.journal.now r ∈ ((w.transition e x t).1.ledger b).entries) := by
  obtain ⟨hok', hother⟩ := hok.step (.transition e.journal i t)
  have hlen := hok.tracked.length_step (.transition e.journal i t)
  obtain ⟨L', ht, -, -, -, hcases⟩ := hok.tracked.transition e.journal i t
  have hapart : ∀ y, Apart x y → ∀ c j t', Op.transition e.journal i t = .transition c j t' →
      y.attempt ≠ some j := by
    intro y hxy c j t' heq
    injection heq with _ hij _
    exact hxy j (hij ▸ hi)
  rw [System.step] at hok' hother hlen
  simp only [World.transition, hi]
  generalize w.sys.transition e.journal i t = result at *
  obtain ⟨sys, answer⟩ := result
  simp only at *
  rcases hcases with ⟨err, rfl, -⟩ | ⟨rfl, r, hr, hallowed, hmem, hstored⟩
  · exact ⟨hok', rfl, hlen, fun y hxy => hother y (hapart y hxy), Or.inl rfl⟩
  · refine ⟨hok', rfl, hlen, fun y hxy => hother y (hapart y hxy), Or.inr ⟨rfl, r, hr, hallowed,
      ?_, mem_ledger_of_tracked ht hstored⟩⟩
    rw [hmem, List.getElem?_set_self (List.getElem?_eq_some_iff.1 hr).1]

theorem moves_intent (hok : w.Ok b) (hms : ms <+: ms') (h : Placed b ms w x q)
    (hn : next q .intent (w.transition e x .intent).2 = some q') :
    Moves b ms ms' w x (w.transition e x .intent).1 x q' := by
  have hphase := h.phase
  obtain ⟨-, -, hp⟩ := Position.of_next hn
  cases hq : q.phase <;> rw [hq] at hp hphase <;> try cases hp
  obtain ⟨i, r, m, hh, hi, -⟩ := hphase
  obtain ⟨hok', hlog, hlen, hother, hcases⟩ := transition_spec (e := e) hok hh.attempt .intent
  refine moves_same hok' hms (h.next hn hlen fun hp => ?_) hother
  rw [hq] at hp
  simp only [Phase.next, Option.some.injEq] at hp
  rcases hcases with hfalse | ⟨htrue, s, hs, hallowed, hmem, hstored⟩
  · rw [hfalse] at hp
    rw [← hp]; trivial
  · rw [htrue] at hp
    rw [← hp]
    obtain ⟨rfl, rfl⟩ := Prod.mk.inj (Option.some.inj (hh.memory.symm.trans hs))
    simp only [Transition.allowed, Bool.and_eq_true, decide_eq_true_eq] at hallowed
    refine ⟨i, Transition.intent.apply e.journal.now r, ⟨hh.attempt, hmem, hh.key⟩, ?_, ?_, hstored⟩
    · intro v hv
      rw [hlog] at hv
      exact hi v hv
    · exact Record.unresolved_iff.2 ⟨Clock.ne_zero e.journal.now, hallowed.1⟩

theorem moves_finish (hok : w.Ok b) (hms : ms <+: ms') (h : Placed b ms w x q)
    (hn : next q (.finish code) (w.transition e x (.finish code)).2 = some q')
    (hrun : (run b ms').shared = (w.transition e x (.finish code)).1) :
    Moves b ms ms' w x (w.transition e x (.finish code)).1 x q' := by
  have hphase := h.phase
  obtain ⟨-, -, hp⟩ := Position.of_next hn
  have hh : (∃ i r m, Holds w x i r m) ∧
      q'.phase = if (w.transition e x (.finish code)).2 then .settled code else .failed := by
    cases hq : q.phase <;> rw [hq] at hp hphase <;> try cases hp
    · obtain ⟨i, r, m, hh, -⟩ := hphase
      exact ⟨⟨i, r, m, hh⟩, (Option.some.inj hp).symm⟩
    · exact ⟨hphase, (Option.some.inj hp).symm⟩
  obtain ⟨⟨i, r, m, hh⟩, hq'⟩ := hh
  obtain ⟨hok', -, hlen, hother, hcases⟩ := transition_spec (e := e) hok hh.attempt (.finish code)
  refine moves_same hok' hms (h.next hn hlen fun _ => ?_) hother
  rw [hq']
  rcases hcases with hfalse | ⟨htrue, s, hs, -, -, hstored⟩
  · rw [hfalse]; trivial
  · rw [htrue]
    obtain ⟨rfl, -⟩ := Prod.mk.inj (Option.some.inj (hh.memory.symm.trans hs))
    refine ⟨(Transition.finish code).apply e.journal.now r, hh.key, Clock.ne_zero e.journal.now, rfl,
      ms', List.prefix_rfl, ?_⟩
    rw [hrun]
    exact hstored

theorem moves_close (hok : w.Ok b) (hms : ms <+: ms') (h : Placed b ms w x q)
    (hn : next q .close () = some q') :
    Moves b ms ms' w x (handler .close e w x).1 x q' := by
  obtain ⟨hreq, hbind, hp⟩ := Position.of_next hn
  have hq' : q' = q := by
    have hphase : q'.phase = q.phase := by
      cases hq : q.phase <;> rw [hq] at hp <;> exact (Option.some.inj hp).symm
    cases q
    cases q'
    simp only at hreq hbind hphase
    rw [hreq, hbind, hphase]
  subst hq'
  cases hi : x.attempt with
  | none =>
    simp only [handler, hi]
    exact moves_same hok hms (h.undisturbed hms Undisturbed.refl) fun _ _ => Undisturbed.refl
  | some i =>
    obtain ⟨hok', hother⟩ := hok.step (.closeAttempt i)
    simp only [handler, hi]
    exact moves_same hok' hms (h.undisturbed hms (hother x (by simp)))
      fun y _ => hother y (by simp)

/-- The engine is called for an action that is dispatched, and for the first
    time. -/
theorem moves_mutate (hok : w.Ok b) (hms : ms <+: ms') (h : Placed b ms w x q) {op : Operation}
    {container : Bytes} {grace : UInt8} {a : Bool}
    (hn : next q (.mutate op container grace) a = some q') :
    Moves b ms ms' w x (handler (.mutate op container grace) e w x).1 x q' := by
  have hphase := h.phase
  obtain ⟨-, -, hp⟩ := Position.of_next hn
  cases hq : q.phase <;> rw [hq] at hp hphase <;> try cases hp
  obtain ⟨i, r, hh, hi, hun, hr⟩ := hphase
  have hq' : q'.phase = .invoked := by
    simp only [Phase.next] at hp
    split_ifs at hp
    exact (Option.some.inj hp).symm
  refine moves_same ⟨hok.tracked, ⟨fun v hv => ?_, ?_⟩⟩ hms
    (h.next hn (le_refl _) fun _ => ?_) fun y hxy => ⟨le_refl _, fun _ _ => ?_, fun j hj hu => ?_⟩
  · rcases List.mem_append.1 hv with hv | hv
    · exact hok.logged.attempt v hv
    · obtain rfl := List.mem_singleton.1 hv
      exact ⟨i, r, hh.attempt, hh.memory, (Record.unresolved_iff.1 hun).1, hh.key⟩
  · simp only [handler, List.map_append, List.map_cons, List.map_nil]
    refine List.nodup_append.2 ⟨hok.logged.nodup, List.nodup_singleton _, ?_⟩
    rintro _ hv _ hmem rfl
    obtain ⟨v, hv, hva⟩ := List.mem_map.1 hv
    rw [List.mem_singleton.1 hmem, hh.attempt] at hva
    exact hi v hv hva
  · rw [hq']
    exact ⟨i, r, true, hh.attempt, hh.memory, hh.key⟩
  · exact ⟨fun _ h => h, fun _ _ _ h => h⟩
  · intro v hv
    rcases List.mem_append.1 hv with hv | hv
    · exact hu v hv
    · obtain rfl := List.mem_singleton.1 hv
      exact fun hx => hxy j hx hj

/-! ## Runs -/

theorem inv_nil : Inv b [] := by
  refine Pool.Inv.empty ⟨?_, fun v hv => ?_, List.nodup_nil⟩
  · have h := tracked_provisioned b
    have hL : World.ledger b ⟨System.provisioned b, []⟩ = ⟨[], 0⟩ := h.rep.ledger_eq
    rw [hL]
    exact h
  · cases hv

/-- A step of the journal from outside keeps the invariant. -/
theorem Inv.outside (h : Inv b ms) {m : Move} (op : Op) (hop : ∀ c i t, op ≠ .transition c i t)
    (hm : run b (ms ++ [m]) = (run b ms).outside (World.journal fun sys => sys.step op)) :
    Inv b (ms ++ [m]) := by
  obtain ⟨hok, hother⟩ := Pool.Inv.shared h |>.step op
  rw [Inv, hm]
  refine Pool.Inv.outside h hok fun x q hx => ?_
  exact hx.undisturbed (List.prefix_append ..) (hother x fun c i t heq => absurd heq (hop c i t))

/-- The next call of an execution keeps the invariant. -/
theorem Inv.advance (h : Inv b ms) (i : ℕ) (e : Answers) : Inv b (ms ++ [.advance i e]) := by
  have hms : ms <+: ms ++ [.advance i e] := List.prefix_append ..
  have hok : (run b ms).shared.Ok b := Pool.Inv.shared h
  have hrun : run b (ms ++ [.advance i e]) = (run b ms).advance handler i e := run_concat b ms _
  rw [Inv, hrun]
  refine Pool.Inv.advance h handler i e (fun _ x q hx => hx.undisturbed hms Undisturbed.refl) ?_
  intro x c k q q' hi hx hn
  have hshared : (run b (ms ++ [.advance i e])).shared = (handler c e (run b ms).shared x).1 := by
    rw [hrun]
    exact Pool.advance_shared hi
  cases c with
  | now | context | check => exact moves_look hok hms hx hn fun hp => (Option.some.inj hp).symm
  | acquire k => exact moves_acquire hok hms hx hn hshared
  | existing => exact moves_existing hok hms hx hn
  | intent => exact moves_intent hok hms hx hn
  | finish code => exact moves_finish hok hms hx hn hshared
  | close => exact moves_close hok hms hx hn
  | inspect container => exact moves_look hok hms hx hn fun hp => (Option.some.inj hp).symm
  | mutate op container grace => exact moves_mutate hok hms hx hn

/-- **The invariant holds in every run.** -/
theorem inv_run (b : ActionJournal.Binding) (ms : List Move) : Inv b ms := by
  induction ms using List.reverseRecOn with
  | nil => exact inv_nil
  | append_singleton ms m ih =>
    cases m with
    | begin w request binding delivery guard =>
      rw [Inv, run_concat]
      refine Pool.Inv.spawn (q := ⟨request, binding, .idle⟩)
        (Pool.Inv.mono ih fun x q hx => hx.undisturbed (List.prefix_append ..) Undisturbed.refl)
        ⟨rfl, rfl, nofun, rfl⟩ (execute_follows w delivery) fun x _ => ?_
      exact ⟨nofun, nofun⟩
    | advance i e => exact ih.advance i e
    | prune c => exact ih.outside (.prune c) (by simp) (run_concat ..)
    | close => exact ih.outside .close (by simp) (run_concat ..)
    | openExisting b' o => exact ih.outside (.openExisting b' o) (by simp) (run_concat ..)
    | crash =>
      rw [Inv, run_concat]
      exact Pool.Inv.empty ((Pool.Inv.shared ih).step .crash).1

/-! ## The log -/

/-- At the moment reached, the action of the invocation is dispatched, and no
    other unresolved action has its target or its container. -/
def Rightful (b : ActionJournal.Binding) (ms : List Move) (v : Invocation) : Prop :=
  ∃ k raw, newJournalKey v.request v.binding = some k ∧ canonicalJournalMetadata k = some raw ∧
    v.op = k.metadata.request.operation ∧ v.container = k.metadata.containerId ∧
    (run b ms).shared.sys.db.hasEvent raw 1 = true ∧
    ∀ a ∈ (run b ms).shared.sys.db.actions,
      (run b ms).shared.sys.db.hasEvent a.metadata 1 = true →
      (run b ms).shared.sys.db.hasEvent a.metadata 2 = false → a.metadata ≠ raw →
      a.targetId ≠ k.targetId ∧
        (a.engineGeneration, a.containerId) ≠ (k.metadata.engineGeneration, k.metadata.containerId)

theorem metadata_of_newJournalKey {request : Request} {binding : ActionCore.Binding} {k : Key}
    (h : newJournalKey request binding = some k) :
    k.metadata = ⟨request, binding.engineGeneration, binding.containerId⟩ := by
  rw [newJournalKey] at h
  split_ifs at h
  dsimp only at h
  split at h
  · exact (congrArg Key.metadata (Option.some.inj h)).symm
  · cases h

/-- The log grows only by rightful invocations. -/
theorem invoked_step (b : ActionJournal.Binding) (ms : List Move) (m : Move) :
    (run b (ms ++ [m])).shared.invoked = (run b ms).shared.invoked ∨
    ∃ v, (run b (ms ++ [m])).shared.invoked = (run b ms).shared.invoked ++ [v] ∧
      Rightful b ms v := by
  rw [run_concat]
  have hinv := inv_run b ms
  cases m with
  | advance i e =>
    rcases (run b ms).advance_cases handler i e with heq | ⟨x, c, k, hi, heq⟩
    · rw [step, heq]; exact Or.inl rfl
    rw [step, heq]
    obtain ⟨q, hq, hf⟩ := Pool.Inv.thread hinv i _ hi
    cases c with
    | mutate op container grace =>
      obtain ⟨q', hn, -⟩ := hf e.mutated
      obtain ⟨-, -, hp⟩ := Position.of_next hn
      have hphase := hq.phase
      cases hqp : q.phase <;> rw [hqp] at hp hphase <;> try cases hp
      obtain ⟨j, r, hh, -, hun, hr⟩ := hphase
      simp only [Phase.next] at hp
      split_ifs at hp with hop
      refine Or.inr ⟨_, rfl, r.key, r.raw, hh.key, ?_, ?_, ?_, ?_⟩
      · exact (Pool.Inv.shared hinv).tracked.mem.canonical j r true hh.memory
      · rw [metadata_of_newJournalKey hh.key, ← hq.request]; exact hop.1
      · rw [metadata_of_newJournalKey hh.key, ← hq.binding]; exact hop.2
      · exact (Pool.Inv.shared hinv).tracked.fence hr hun
    | acquire key =>
      refine Or.inl ?_
      simp only [handler, World.acquire]
      split_ifs
      · rfl
      · split <;> rfl
    | intent | finish =>
      refine Or.inl ?_
      simp only [handler, World.transition]
      split
      · rfl
      · split <;> rfl
    | now | context | check | existing | close | inspect => exact Or.inl rfl
  | begin | prune | close | openExisting | crash => exact Or.inl rfl

theorem invoked_rightful (b : ActionJournal.Binding) (ms : List Move) {n : ℕ} {v : Invocation}
    (hv : (run b ms).shared.invoked[n]? = some v) :
    ∃ pre m, pre ++ [m] <+: ms ∧ (run b pre).shared.invoked.length = n ∧
      (run b (pre ++ [m])).shared.invoked = (run b pre).shared.invoked ++ [v] ∧
      Rightful b pre v := by
  induction ms using List.reverseRecOn with
  | nil => simp [run] at hv
  | append_singleton ms m ih =>
    have hold : (run b ms).shared.invoked[n]? = some v → ∃ pre m', pre ++ [m'] <+: ms ++ [m] ∧
        (run b pre).shared.invoked.length = n ∧
        (run b (pre ++ [m'])).shared.invoked = (run b pre).shared.invoked ++ [v] ∧
        Rightful b pre v := by
      intro hv
      obtain ⟨pre, m', hpre, hrest⟩ := ih hv
      exact ⟨pre, m', hpre.trans (List.prefix_append ..), hrest⟩
    rcases invoked_step b ms m with heq | ⟨u, heq, hu⟩
    · rw [heq] at hv
      exact hold hv
    · have hlast := hv
      rw [heq] at hlast
      rcases getElem?_concat_eq hlast with hv' | ⟨hn, rfl⟩
      · exact hold hv'
      · exact ⟨ms, m, List.prefix_rfl, hn.symm, heq, hu⟩

theorem invoked_at_most_once (b : ActionJournal.Binding) (ms : List Move) (k : Key) :
    ((run b ms).shared.invoked.countP fun v => newJournalKey v.request v.binding = some k) ≤ 1 := by
  have hok := Pool.Inv.shared (inv_run b ms)
  have hsame : ∀ u ∈ (run b ms).shared.invoked, ∀ v ∈ (run b ms).shared.invoked,
      newJournalKey u.request u.binding = some k → newJournalKey v.request v.binding = some k →
      u.attempt = v.attempt := by
    intro u hu v hv huk hvk
    obtain ⟨i, r, hi, hr, hint, hkey⟩ := hok.logged.attempt u hu
    obtain ⟨j, s, hj, hs, hint', hkey'⟩ := hok.logged.attempt v hv
    have hmem := hok.tracked.mem
    have hrs : r.key = s.key := by
      rw [huk] at hkey
      rw [hvk] at hkey'
      exact (Option.some.inj hkey).symm.trans (Option.some.inj hkey')
    have hraw : some r.raw = some s.raw := by
      rw [← hmem.canonical i r true hr, hrs, hmem.canonical j s true hs]
    rw [hi, hj, hmem.once i j r s hr hs hint hint' (Option.some.inj hraw)]
  rw [List.countP_eq_length_filter]
  generalize hl : ((run b ms).shared.invoked.filter fun v =>
    newJournalKey v.request v.binding = some k) = l
  have hmem : ∀ v ∈ l, v ∈ (run b ms).shared.invoked ∧
      newJournalKey v.request v.binding = some k := by
    intro v hv
    rw [← hl, List.mem_filter] at hv
    exact ⟨hv.1, of_decide_eq_true hv.2⟩
  have hnodup : (l.map Invocation.attempt).Nodup := by
    rw [← hl]
    exact (List.filter_sublist.map Invocation.attempt).nodup hok.logged.nodup
  cases l with
  | nil => exact Nat.zero_le _
  | cons u l =>
    have hsub : (u :: l).map Invocation.attempt ⊆ [u.attempt] := by
      intro a ha
      obtain ⟨v, hv, rfl⟩ := List.mem_map.1 ha
      obtain ⟨hv1, hv2⟩ := hmem v hv
      obtain ⟨hu1, hu2⟩ := hmem u (List.mem_cons_self ..)
      exact List.mem_singleton.2 (hsame v hv1 u hu1 hv2 hu2)
    have := (List.subperm_of_subset hnodup hsub).length_le
    rwa [List.length_map] at this

/-! ## Outcomes -/

/-- A move acts on the journal as one of its steps, and prunes only if it is a
    prune. -/
theorem sys_step (p : Executions) (m : Move) :
    (step p m).shared.sys = p.shared.sys ∨
    ∃ op, (step p m).shared.sys = p.shared.sys.step op ∧
      ((∀ c, m ≠ .prune c) → ∀ c, op ≠ .prune c) := by
  cases m with
  | advance i e =>
    rcases p.advance_cases handler i e with heq | ⟨x, c, k, hi, heq⟩
    · rw [step, heq]; exact Or.inl rfl
    rw [step, heq]
    have htrans : ∀ t, (p.shared.transition e x t).1.sys = p.shared.sys ∨
        ∃ op, (p.shared.transition e x t).1.sys = p.shared.sys.step op ∧
          ((∀ c, Move.advance i e ≠ .prune c) → ∀ c, op ≠ .prune c) := by
      intro t
      rw [World.transition]
      cases x.attempt with
      | none => exact Or.inl rfl
      | some j =>
        refine Or.inr ⟨.transition e.journal j t, ?_, fun _ c hc => by cases hc⟩
        simp only [System.step]
        split <;> rename_i h <;> rw [h]
    cases c with
    | acquire key =>
      simp only [handler, World.acquire]
      split_ifs
      · exact Or.inl rfl
      · refine Or.inr ⟨.acquire e.journal key x.guard, ?_, fun _ c hc => by cases hc⟩
        simp only [System.step]
        split <;> rename_i h <;> rw [h]
    | intent => exact htrans .intent
    | finish code => exact htrans (.finish code)
    | close =>
      simp only [handler]
      cases x.attempt with
      | none => exact Or.inl rfl
      | some j => exact Or.inr ⟨.closeAttempt j, rfl, fun _ c hc => by cases hc⟩
    | now | context | check | existing | inspect | mutate => exact Or.inl rfl
  | begin w request binding delivery guard => exact Or.inl rfl
  | prune c => exact Or.inr ⟨.prune c, rfl, fun h => absurd rfl (h c)⟩
  | close => exact Or.inr ⟨.close, rfl, fun _ c hc => by cases hc⟩
  | openExisting b' o => exact Or.inr ⟨.openExisting b' o, rfl, fun _ c hc => by cases hc⟩
  | crash => exact Or.inr ⟨.crash, rfl, fun _ c hc => by cases hc⟩

theorem evolves_later (b : ActionJournal.Binding) (ms later : List Move) :
    Evolves b ((run b ms).shared.ledger b) ((run b (ms ++ later)).shared.ledger b) ∧
      ((∀ m ∈ later, ∀ c, m ≠ .prune c) →
        KeepsFinished ((run b ms).shared.ledger b) ((run b (ms ++ later)).shared.ledger b)) := by
  induction later using List.reverseRecOn with
  | nil => rw [List.append_nil]; exact ⟨.refl, fun _ _ hr _ => hr⟩
  | append_singleton later m ih =>
    have hok := Pool.Inv.shared (inv_run b (ms ++ later))
    rw [← List.append_assoc, run_concat]
    rcases sys_step (run b (ms ++ later)) m with hsys | ⟨op, hsys, hop⟩
    · have hL : (step (run b (ms ++ later)) m).shared.ledger b =
          (run b (ms ++ later)).shared.ledger b := by rw [World.ledger, hsys]; rfl
      rw [hL]
      exact ⟨ih.1, fun hno => ih.2 fun m' hm' => hno m' (List.mem_append_left _ hm')⟩
    · obtain ⟨L', ht, hev, -, hkeep⟩ := hok.tracked.step op
      have hL : (step (run b (ms ++ later)) m).shared.ledger b = L' := by
        rw [World.ledger, hsys]; exact ht.rep.ledger_eq
      rw [hL]
      refine ⟨ih.1.trans hev, fun hno r hr hterm => ?_⟩
      refine hkeep (hop (hno m (by simp))) r (ih.2 (fun m' hm' => ?_) r hr hterm) hterm
      exact hno m' (List.mem_append_left _ hm')

/-- The outcome is durable: the terminal event with its code was stored at a
    moment of the run, it stays stored until it is pruned, and every `Acquire`
    of the key from the present on replays the code. -/
def Durable (b : ActionJournal.Binding) (ms : List Move) (x : Activation) (code : Code) : Prop :=
  ∃ k raw, newJournalKey x.request x.binding = some k ∧ canonicalJournalMetadata k = some raw ∧
    ∃ pre post, ms = pre ++ post ∧ (run b pre).shared.sys.db.hasTerminal raw code = true ∧
      ∀ later,
        ((∀ m ∈ post ++ later, ∀ c, m ≠ .prune c) →
          (run b (ms ++ later)).shared.sys.db.hasTerminal raw code = true) ∧
        (∀ a ∈ (run b (ms ++ later)).shared.sys.db.actions, a.metadata = raw →
          (run b (ms ++ later)).shared.sys.db.hasTerminal raw code = true) ∧
        (∀ c guard i, ((run b (ms ++ later)).shared.sys.acquire c k guard).2 = .ok i →
          ((run b (ms ++ later)).shared.sys.acquire c k guard).1.existing i = some code) ∧
        ∀ j now guard, (run b (ms ++ later)).shared.sys.journal = some j → j.usable = true →
          (run b (ms ++ later)).shared.sys.db.hasTerminal raw code = true →
          ∃ i, ((run b (ms ++ later)).shared.sys.acquire { now } k guard).2 = .ok i

theorem WasEnded.durable (h : WasEnded b ms x code) : Durable b ms x code := by
  obtain ⟨r, hkey, hterm, hcode, pre, ⟨post, rfl⟩, hr⟩ := h
  have hok := Pool.Inv.shared (inv_run b pre)
  have hwf := hok.tracked.rep.wf
  have hk := (hwf.valid r hr).canonical
  refine ⟨r.key, r.raw, hkey, hk, pre, post, rfl, ?_, fun later => ?_⟩
  · rw [hok.tracked.rep.db, hasTerminal_encode hwf]
    exact ⟨r, hr, rfl, hterm, hcode⟩
  rw [List.append_assoc]
  obtain ⟨hev, hkeep⟩ := evolves_later b pre (post ++ later)
  have hok' := Pool.Inv.shared (inv_run b (pre ++ (post ++ later)))
  have hrep := hok'.tracked.rep
  have hended : ((run b (pre ++ (post ++ later))).shared.ledger b).Ended code r.key r.raw :=
    hev.marked (lasting_ended code) hwf hk (Marked.of_mem hwf hr rfl ⟨hterm, hcode⟩)
  refine ⟨fun hno => ?_, fun a ha hraw => ?_, fun c guard i hi => ?_, fun j now guard hj hu ht => ?_⟩
  · rw [hrep.db, hasTerminal_encode hrep.wf]
    exact ⟨r, hkeep hno r hr hterm, rfl, hterm, hcode⟩
  · rw [hrep.db] at ha ⊢
    rw [hasTerminal_encode hrep.wf]
    obtain ⟨s, hs, rfl⟩ := List.mem_map.1 ha
    exact ⟨s, hs, hraw, hended.marked s hs hraw⟩
  · exact hrep.acquire_ended hk hended c guard hi
  · rw [hrep.db, hasTerminal_encode hrep.wf] at ht
    obtain ⟨s, hs, hraw, hst, -⟩ := ht
    exact ⟨_, hrep.acquire_stored hj hu hs (hraw ▸ hk) hst now guard⟩

/-- A known outcome that an execution returns is durable. -/
theorem returned_durable (b : ActionJournal.Binding) (ms : List Move)
    {t : Thread calls Activation Code} (hi : (run b ms).threads[i]? = some t)
    (hcode : t.prog.result = some code) (hknown : code.known = true) : Durable b ms t.loc code := by
  obtain ⟨q, hq, hf⟩ := Pool.Inv.thread (inv_run b ms) i t hi
  rw [Prog.eq_ret_of_result hcode] at hf
  have hphase := hq.phase
  rcases hf hknown with hsettled | hreplayed
  · rw [hsettled] at hphase
    exact WasEnded.durable hphase
  · rw [hreplayed] at hphase
    exact (hphase hknown).durable

/-- **Executions neither repeat nor invent an effect.**  However many of them
    run over one journal, in whatever order and whatever fails: the engine is
    called at most once for a key; each call was made when the intent of its
    action was durable and no other unresolved action had its target or its
    container; and a known outcome that `Execute` returns is durable. -/
theorem effects_once_fenced_durable (b : ActionJournal.Binding) (ms : List Move) :
    (∀ k, ((run b ms).shared.invoked.countP fun v =>
      newJournalKey v.request v.binding = some k) ≤ 1) ∧
    (∀ n v, (run b ms).shared.invoked[n]? = some v →
      ∃ pre m, pre ++ [m] <+: ms ∧ (run b pre).shared.invoked.length = n ∧
        (run b (pre ++ [m])).shared.invoked = (run b pre).shared.invoked ++ [v] ∧
        Rightful b pre v) ∧
    ∀ (i : ℕ) (t : Thread calls Activation Code) (code : Code), (run b ms).threads[i]? = some t →
      t.prog.result = some code → code.known = true → Durable b ms t.loc code :=
  ⟨invoked_at_most_once b ms, fun _ _ => invoked_rightful b ms,
    fun _ _ _ hi hcode hknown => returned_durable b ms hi hcode hknown⟩

end

/-! ### A sample execution -/

def sampleTarget : ActionCore.Binding where
  serverId := sampleRequest.serverId
  installationId := sampleRequest.installationId
  ownerId := sampleRequest.ownerId
  targetId := sampleRequest.targetId
  engineGeneration := sampleKey.metadata.engineGeneration
  containerId := sampleKey.metadata.containerId
  policyRevision := 1
  capabilityRevision := 1
  operations := [.start]

/-- Everything goes well, and the container was exited. -/
def sampleAnswers : Answers where
  now := 63000000010 * second
  context := ⟨false, none⟩
  check := true
  state := some .exited
  mutated := true
  stale := .recovery
  journal := sampleCall

def sampleDelivery : Delivery :=
  ⟨63000000010 * second, 63000000010 * second, 63000000130 * second⟩

/-- Two executions of one action, the second after the first. -/
def sampleMoves : List Move :=
  .begin {} sampleRequest sampleTarget sampleDelivery none ::
    List.replicate 40 (.advance 0 sampleAnswers) ++
    .begin {} sampleRequest sampleTarget sampleDelivery none ::
    List.replicate 40 (.advance 1 sampleAnswers)

/-- Both executions return `STARTED`, and the engine is called once. -/
theorem sampleMoves_start_once :
    (((@run plainDigest sampleBinding sampleMoves).threads.map fun t => t.prog.result),
      (@run plainDigest sampleBinding sampleMoves).shared.invoked.length) =
        ([some .started, some .started], 1) ∧
    (∀ k, ((@run plainDigest sampleBinding sampleMoves).shared.invoked.countP fun v =>
      @newJournalKey plainDigest v.request v.binding = some k) ≤ 1) :=
  ⟨by decide +kernel, (@effects_once_fenced_durable plainDigest sampleBinding sampleMoves).1⟩

end Execution

end HomeLab
