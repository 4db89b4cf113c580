/-
  Background operations exclude each other.

  The programs of the guard and the lock keep the discipline of the guard, so it
  holds in every run.  A process is at work only while it holds the lock of the
  operation file, so two are not at work at once; a recovery removes the guards
  of dead processes only; and the guard of a process that is killed while it
  holds it is recovered by the next one.
-/
import HomeLab.Background.Custody

namespace HomeLab

namespace InstallGuard

open Prog Background

/-! ## The programs -/

section
variable {me : ℕ}

theorem closeUnrecovered_guarded (i : ℕ) :
    Guarded discipline handler me (fun r w => r = some true → Outside me w) (Outside me)
      (closeUnrecovered i) := by
  refine (close_guarded stable_outside (fun w _ h => ⟨h.guard, h.idle, h.started⟩)
    fun w h _ g hg hmaker => h.guard g hg (Or.inl hmaker)).bind fun _ => ?_
  exact fun _ _ _ => nofun

theorem recoverOpened_guarded (i : ℕ) :
    Guarded discipline handler me (fun r w => r = some true → Outside me w)
      (fun w => Outside me w ∧ i < w.files) (recoverOpened i) := by
  have hfree : Unlocked (Outside me) := fun w _ h => ⟨h.guard, h.idle, h.started⟩
  have hstable : discipline.Stable me fun w => Outside me w ∧ i < w.files :=
    stable_outside.and fun _ _ _ hr h => h.trans_le hr.files
  refine (tryLock_guarded hstable (fun w x h => ⟨hfree w x h.1, h.2⟩)
    fun w _ h => h.2).bind fun ok => ?_
  cases ok with
  | false => exact (closeUnrecovered_guarded i).weaken fun w _ h => h.1.1
  | true =>
    refine ((readAll_guarded i).weaken fun w _ h => ⟨h.1.1, h.2 rfl⟩).bind fun x => ?_
    by_cases hx : x = some .marker
    · rw [if_neg (not_not.2 hx)]
      exact (removeRecovered_guarded i).weaken fun w _ h => ⟨h.1, h.2 hx⟩
    · rw [if_pos hx]
      refine ((unlock_guarded stable_outside hfree fun w h _ g hg hmaker =>
        h.guard g hg (Or.inl hmaker)).weaken fun w _ h => h.1.outside).bind fun _ => ?_
      exact closeUnrecovered_guarded i

theorem recoverBackgroundInstallGuard_guarded :
    Guarded discipline handler me (fun r w => r = some true → Outside me w) (Outside me)
      recoverBackgroundInstallGuard := by
  refine (harmless_guarded rfl stable_outside).bind fun ok => ?_
  split
  · exact fun _ _ _ => nofun
  refine (harmless_guarded rfl stable_outside).bind fun entries => ?_
  split
  · exact fun _ _ _ => nofun
  refine (harmless_guarded rfl stable_outside).bind fun x => ?_
  cases x with
  | none => exact fun _ _ _ => nofun
  | some i =>
    refine openOwner_guarded.bind fun y => ?_
    cases y with
    | none => exact fun _ _ _ => nofun
    | some j =>
      dsimp only
      split
      · exact (closeUnrecovered_guarded j).weaken fun w _ h => h.1
      · exact (recoverOpened_guarded j).weaken fun w _ h => ⟨h.1, h.2 j rfl⟩

theorem giveUp_guarded (i : ℕ) (code : Code) {post : Except Code ℕ → World → Prop}
    (hpost : ∀ w, post (.error code) w) :
    Guarded discipline handler me post (Owning me (some i)) (giveUp i code) :=
  (cleanup_guarded i).bind fun _ _ _ _ => hpost _

/-- The guard that has been acquired is complete. -/
def Acquired (me : ℕ) (r : Except Code ℕ) (w : World) : Prop :=
  ∀ i, r = .ok i → Owning me (some i) w ∧ Marked me i w

theorem markOwner_guarded (i : ℕ) :
    Guarded discipline handler me (Acquired me) (Owning me (some i)) (markOwner i) := by
  have hgiveUp (code : Code) :
      Guarded discipline handler me (Acquired me) (Owning me (some i)) (giveUp i code) :=
    giveUp_guarded i code fun _ => nofun
  refine (harmless_guarded rfl (stable_owning _)).bind fun restricted => ?_
  cases restricted with
  | false => exact hgiveUp _
  | true =>
    refine (tryLock_guarded (stable_owning _) (fun w _ h => ⟨h.guard, h.idle⟩)
      fun w hs h => hs.owner _ i h.guard rfl).bind fun locked => ?_
    cases locked with
    | false => exact (hgiveUp _).weaken fun w _ h => h.1
    | true =>
      refine ((writeMarker_guarded i).weaken fun w _ h => ⟨h.1, h.2 rfl⟩).bind fun written => ?_
      cases written with
      | false => exact (hgiveUp _).weaken fun w _ h => h.1
      | true =>
        refine (harmless_guarded rfl ((stable_owning _).and (stable_complete i).imp)).bind
          fun synced => ?_
        cases synced with
        | false => exact (hgiveUp _).weaken fun w _ h => h.1
        | true =>
          intro w _ h j hj
          rw [← Except.ok.inj hj]
          exact ⟨h.1, h.2 rfl⟩

theorem giveUpEmpty_guarded :
    Guarded discipline handler me (Acquired me) (Owning me none) giveUpEmpty := by
  refine (removeGuard_guarded.weaken fun w _ h => ⟨none, h⟩).bind fun _ => ?_
  exact fun _ _ _ => nofun

theorem fillGuard_guarded :
    Guarded discipline handler me (Acquired me) (Owning me none) fillGuard := by
  refine (harmless_guarded rfl (stable_owning _)).bind fun restricted => ?_
  cases restricted with
  | false => exact giveUpEmpty_guarded
  | true =>
    refine createOwner_guarded.bind fun x => ?_
    cases x with
    | none => exact giveUpEmpty_guarded.weaken fun w _ h => h.2 rfl
    | some i => exact (markOwner_guarded i).weaken fun w _ h => h.1 i rfl

theorem acquireInstallGuard_guarded :
    Guarded discipline handler me (Acquired me) (Outside me) acquireInstallGuard := by
  refine (harmless_guarded rfl stable_outside).bind fun ok => ?_
  split
  · exact fun _ _ _ => nofun
  refine mkdirGuard_guarded.bind fun x => ?_
  cases x with
  | made => exact fillGuard_guarded.weaken fun w _ h => h.1 rfl
  | failed => exact fun _ _ _ => nofun
  | exist =>
    refine (recoverBackgroundInstallGuard_guarded.weaken fun w _ h => h.2 nofun).bind fun r => ?_
    cases r with
    | none => exact fun _ _ _ => nofun
    | some recovered =>
      cases recovered with
      | false => exact fun _ _ _ => nofun
      | true =>
        refine (mkdirGuard_guarded.weaken fun w _ h => h rfl).bind fun x => ?_
        cases x with
        | made => exact fillGuard_guarded.weaken fun w _ h => h.1 rfl
        | failed | exist => exact fun _ _ _ => nofun

/-! ## The operation lock -/

/-- The process has its guard and is not at work. -/
def Ready (me i : ℕ) (w : World) : Prop := Owning me (some i) w ∧ Marked me i w

theorem stable_ready (i : ℕ) : discipline.Stable me (Ready me i) :=
  (stable_owning _).and (stable_complete i)

/-- The process has its guard and the lock of the operation file. -/
structure Working (me i : ℕ) (w : World) : Prop where
  marked : Marked me i w
  operation : w.operationHolder = some me

theorem stable_working (i : ℕ) : discipline.Stable me (Working me i) :=
  fun w w' hs hr h => ⟨stable_complete i w w' hs hr h.marked, hr.operation.2 h.operation⟩

theorem tryOperationLock_guarded (i : ℕ) :
    Guarded discipline handler me
      (fun ok w => (ok = true → Working me i w) ∧ (ok = false → Ready me i w)) (Ready me i)
      (query .tryOperationLock) := by
  refine guarded_ask (fun _ _ _ => trivial) (fun e w hs halive h => ⟨rfl, ?_⟩)
    fun ok => (stable_working i).imp.and (stable_ready i).imp
  show discipline.Keeps me w (w.tryOperationLock me e).1 ∧
    ((w.tryOperationLock me e).2 = true → Working me i (w.tryOperationLock me e).1) ∧
    ((w.tryOperationLock me e).2 = false → Ready me i (w.tryOperationLock me e).1)
  unfold World.tryOperationLock
  split
  · rename_i hok
    have hnone : w.operationHolder = none := by
      rw [Bool.and_eq_true, Option.isNone_iff_eq_none] at hok
      exact hok.2
    have hsound : Sound { w with operationHolder := some me } :=
      { hs with
        operation := fun p hp => by
          rw [← Option.some.inj hp]
          exact ⟨halive, _, h.1.guard, rfl⟩ }
    refine ⟨Touches.keeps ?_ hsound, fun _ => ⟨⟨h.2.guard, h.2.holder, h.2.contents⟩, rfl⟩, nofun⟩
    exact
      { operation := fun v hv => iff_of_false (fun heq => hv (Option.some.inj heq).symm)
          fun heq => by rw [hnone] at heq; cases heq }
  · exact ⟨keeps_self hs, nofun, fun _ => h⟩

theorem releaseOperationLock_guarded (i : ℕ) :
    Guarded discipline handler me (fun _ => Owning me (some i)) (Working me i)
      (query .releaseOperationLock) := by
  refine guarded_ask (fun w _ h => ⟨h.operation, i, h.marked⟩) (fun e w hs _ h => ⟨rfl, ?_⟩)
    fun _ => stable_owning _
  show discipline.Keeps me w (w.releaseOperationLock me) ∧
    Owning me (some i) (w.releaseOperationLock me)
  rw [World.releaseOperationLock, if_pos h.operation]
  refine ⟨Touches.keeps ?_ { hs with operation := nofun }, h.marked.guard, nofun⟩
  exact
    { operation := fun v hv => iff_of_false nofun fun heq =>
        hv (Option.some.inj (heq.symm.trans h.operation)) }

theorem prepareBackground_guarded (i : ℕ) (create : Bool) :
    Guarded discipline handler me (fun _ => Ready me i) (Ready me i) (prepareBackground create) := by
  rw [prepareBackground]
  split
  · exact fun _ _ h => h
  · refine (harmless_guarded rfl (stable_ready i)).bind fun x => ?_
    cases x <;> exact fun _ _ h => h

theorem restrictCreated_guarded (i : ℕ) (created : Bool) :
    Guarded discipline handler me (fun _ => Ready me i) (Ready me i)
      (restrictCreated created) := by
  rw [restrictCreated]
  split
  · exact harmless_guarded rfl (stable_ready i)
  · exact fun _ _ h => h

theorem openOperationFile_guarded (i : ℕ) :
    Guarded discipline handler me (fun _ => Ready me i) (Ready me i) openOperationFile := by
  refine (harmless_guarded rfl (stable_ready i)).bind fun x => ?_
  cases x with
  | made =>
    refine (harmless_guarded rfl (stable_ready i)).bind fun ok => ?_
    split <;> exact fun _ _ h => h
  | exist =>
    refine (harmless_guarded rfl (stable_ready i)).bind fun ok => ?_
    split
    · exact fun _ _ h => h
    refine (harmless_guarded rfl (stable_ready i)).bind fun ok => ?_
    split <;> exact fun _ _ h => h
  | failed => exact fun _ _ h => h

theorem lockOperation_guarded (i : ℕ) (create : Bool) :
    Guarded discipline handler me
      (fun r w => (r = none → Working me i w) ∧ (r ≠ none → Ready me i w)) (Ready me i)
      (lockOperation create) := by
  have hfails (code : Code) : Guarded (I := calls) discipline handler me
      (fun (r : Option Code) w => (r = none → Working me i w) ∧ (r ≠ none → Ready me i w))
      (Ready me i) (.ret (some code)) := fun _ _ h => ⟨nofun, fun _ => h⟩
  refine (harmless_guarded rfl (stable_ready i)).bind fun ok => ?_
  split
  · exact hfails _
  refine (prepareBackground_guarded i create).bind fun created => ?_
  cases created with
  | none => exact hfails _
  | some created =>
    refine (harmless_guarded rfl (stable_ready i)).bind fun ok => ?_
    split
    · exact hfails _
    refine (restrictCreated_guarded i created).bind fun ok => ?_
    split
    · exact hfails _
    refine (openOperationFile_guarded i).bind fun r => ?_
    cases r with
    | some code => exact hfails _
    | none =>
      refine (harmless_guarded rfl (stable_ready i)).bind fun ok => ?_
      split
      · exact hfails _
      refine (tryOperationLock_guarded i).bind fun ok => ?_
      cases ok with
      | false => exact fun _ _ h => ⟨nofun, fun _ => h.2 rfl⟩
      | true => exact fun _ _ h => ⟨fun _ => h.1 rfl, fun hne => absurd rfl hne⟩

theorem lock_guarded (create : Bool) :
    Guarded discipline handler me (fun r w => ∀ i, r = .ok i → Working me i w) (Outside me)
      (lock create) := by
  refine acquireInstallGuard_guarded.bind fun r => ?_
  cases r with
  | error code => exact fun _ _ _ => nofun
  | ok i =>
    refine ((lockOperation_guarded i create).weaken fun w _ h => h i rfl).bind fun r => ?_
    cases r with
    | some code =>
      exact (giveUp_guarded i code fun _ => nofun).weaken fun w _ h => (h.2 nofun).1
    | none =>
      intro w _ h j hj
      rw [← Except.ok.inj hj]
      exact h.1 rfl

/-- **Every process keeps the discipline.** -/
theorem operate_guarded (create : Bool) :
    Guarded discipline handler me (fun _ _ => True) (Outside me) (operate create) := by
  refine (lock_guarded create).bind fun r => ?_
  cases r with
  | error code => exact fun _ _ _ => trivial
  | ok i =>
    refine ((work_guarded (stable_working i) fun w h => ⟨h.operation, i, h.marked⟩).weaken
      fun w _ h => h i rfl).bind fun _ => ?_
    refine (releaseOperationLock_guarded i).bind fun _ => ?_
    refine (harmless_guarded rfl (stable_owning _)).bind fun _ => ?_
    exact cleanup_guarded i

end

/-! ## Runs -/

variable {w : World} {s : System}

theorem exit_rely {me u : ℕ} (hu : u ≠ me) : Rely u w (w.exit me) := by
  have hfreed (x : Option ℕ) : (if x = some me then none else x) = some u ↔ x = some u := by
    split
    · rename_i hx
      rw [hx]
      exact iff_of_false nofun fun heq => hu (Option.some.inj heq).symm
    · exact Iff.rfl
  exact { holder := fun i => hfreed (w.holder i), operation := hfreed w.operationHolder }

theorem Sound.exit (hs : Sound w) (me : ℕ) : Sound (w.exit me) where
  marked := by
    intro i hi
    obtain ⟨g, hg, ho, hc, hm⟩ := hs.marked i hi
    refine ⟨g, hg, ho, hc, ?_⟩
    rcases hm with hdead | hholder
    · exact Or.inl (List.mem_cons_of_mem _ hdead)
    · by_cases hme : g.maker = me
      · exact Or.inl (hme ▸ List.mem_cons_self ..)
      · exact Or.inr (((exit_rely hme).holder i).2 hholder)
  cleared := fun g r hg hr => List.mem_cons_of_mem _ (hs.cleared g r hg hr)
  operation := by
    intro p hp
    have hne : p ≠ me := by
      rintro rfl
      replace hp : (if w.operationHolder = some p then none else w.operationHolder) = some p := hp
      split at hp
      · cases hp
      · rename_i hnot
        exact hnot hp
    obtain ⟨hdead, hguard⟩ := hs.operation p ((exit_rely hne).operation.1 hp)
    exact ⟨fun hmem => (List.mem_cons.1 hmem).elim hne hdead, hguard⟩
  maker := hs.maker
  clearer := hs.clearer
  owner := hs.owner
  locked := by
    intro i p hp
    replace hp : (if w.holder i = some me then none else w.holder i) = some p := hp
    split at hp
    · cases hp
    · exact hs.locked i p hp

theorem Sound.start (hs : Sound w) : Sound { w with processes := w.processes + 1 } where
  maker := fun g hg => (hs.maker g hg).trans (Nat.lt_succ_self _)
  clearer := fun g r hg hr => (hs.clearer g r hg hr).trans (Nat.lt_succ_self _)
  __ := hs

/-- A process that has just been started has nothing to do with the guard. -/
theorem Sound.outside (hs : Sound w) :
    Outside w.processes { w with processes := w.processes + 1 } where
  guard := by
    rintro g hg (hmaker | hclearer)
    · exact absurd (hs.maker g hg) (hmaker ▸ lt_irrefl _)
    · exact absurd (hs.clearer g _ hg hclearer) (lt_irrefl _)
  idle := by
    intro hop
    obtain ⟨-, g, hg, hmaker⟩ := hs.operation _ hop
    exact absurd (hs.maker g hg) (hmaker ▸ lt_irrefl _)
  started := Nat.lt_succ_self _

/-- Every process keeps the discipline and has been started. -/
structure Lawful (s : System) : Prop where
  disciplined : s.Disciplined discipline handler
  started : ∀ t ∈ s.threads, t.loc < s.shared.processes

theorem handler_process (c : Call) (e : Environment) (w : World) (me : ℕ) :
    (handler c e w me).2.1 = me := by
  cases c <;> rfl

theorem handler_processes (c : Call) (e : Environment) (w : World) (me : ℕ) :
    (handler c e w me).1.processes = w.processes := by
  cases c
  all_goals
    simp only [handler, World.mkdirGuard, World.removeGuard, World.createOwner, World.removeOwner,
      World.tryLock, World.unlock, World.write, World.truncate, World.tryOperationLock,
      World.releaseOperationLock]
  all_goals
    repeat' split
  all_goals rfl

theorem Lawful.start (h : Lawful s) (create : Bool) : Lawful (s.start create) := by
  have hs := h.disciplined.inv
  have hmore : (s.outside fun w => { w with processes := w.processes + 1 }).Disciplined
      discipline handler :=
    h.disciplined.outside hs.start fun u hu => ⟨hu, { processes := Nat.le_succ _ }⟩
  refine ⟨hmore.spawn hs.outside stable_outside (operate_guarded create)
    fun u hu => (h.started u hu).ne', ?_⟩
  intro t ht
  rcases List.mem_append.1 ht with ht | ht
  · exact (h.started t ht).trans (Nat.lt_succ_self _)
  · rw [List.mem_singleton.1 ht]
    exact Nat.lt_succ_self _

theorem Lawful.proceed (h : Lawful s) (i : ℕ) (e : Environment) :
    Lawful (s.proceed handler alive i e) := by
  refine ⟨h.disciplined.proceed (fun u w hu => of_decide_eq_true (p := u ∉ w.dead) hu) i e, ?_⟩
  rw [Pool.proceed]
  cases hi : s.threads[i]? with
  | none => exact h.started
  | some t =>
    dsimp only
    split
    · rcases s.advance_cases handler i e with heq | ⟨loc, c, k, hi', heq⟩
      · rw [heq]
        exact h.started
      · rw [heq]
        obtain rfl : t = ⟨loc, .call c k⟩ := Option.some.inj (hi.symm.trans hi')
        have hprocesses := handler_processes c e s.shared loc
        intro u hu
        show u.loc < (handler c e s.shared loc).1.processes
        rw [hprocesses]
        rcases List.mem_or_eq_of_mem_set hu with hu | rfl
        · exact h.started u hu
        · show (handler c e s.shared loc).2.1 < _
          rw [handler_process]
          exact h.started _ (List.mem_of_getElem? hi)
    · exact h.started

theorem Lawful.exit (h : Lawful s) (me : ℕ) : Lawful (s.outside (·.exit me)) := by
  refine ⟨h.disciplined.outside (h.disciplined.inv.exit me) fun u hu => ?_, h.started⟩
  have hne : u ≠ me := fun heq => hu (heq ▸ List.mem_cons_self ..)
  exact ⟨fun hmem => hu (List.mem_cons_of_mem _ hmem), exit_rely hne⟩

theorem after_lawful (ms : List Move) (h : Lawful s) : Lawful (s.after ms) := by
  induction ms generalizing s with
  | nil => exact h
  | cons m ms ih =>
    refine ih ?_
    cases m with
    | start create => exact h.start create
    | advance i e => exact h.proceed i e
    | exit me => exact h.exit me

theorem lawful_empty : Lawful System.empty where
  disciplined := Pool.Disciplined.empty
    ⟨nofun, nofun, nofun, nofun, nofun, nofun, nofun⟩
  started := nofun

/-! ## Guarantees -/

/-- What must hold when the pending call of a process is made. -/
theorem Lawful.pre (h : Lawful s) {i : ℕ} {t : Thread calls ℕ Unit} {c : Call}
    (hi : s.threads[i]? = some t) (halive : t.loc ∉ s.shared.dead) (hc : pending t.prog = some c) :
    Pre t.loc s.shared c := by
  obtain ⟨loc, p⟩ := t
  cases p with
  | ret a => cases hc
  | call c' k =>
    rw [← Option.some.inj hc]
    exact h.disciplined.pre hi halive

/-- The process holds a guard that is complete. -/
def Holds (me : ℕ) (w : World) : Prop := ∃ i, Marked me i w

/-- A complete guard of a dead process, which nobody recovers at the moment. -/
def Abandoned (w : World) : Prop :=
  ∃ m i, w.guard = some { maker := m, owner := some i } ∧ w.contents i = .marker ∧
    w.holder i = none ∧ m ∈ w.dead

theorem Lawful.atWork (h : Lawful s) {i : ℕ} {t : Thread calls ℕ Unit} (hi : s.threads[i]? = some t)
    (halive : t.loc ∉ s.shared.dead) (ht : AtWork t.prog) :
    s.shared.operationHolder = some t.loc ∧ Holds t.loc s.shared := by
  rcases ht with hc | hc
  · exact h.pre hi halive hc
  · exact h.pre hi halive hc

theorem Holds.exit {me : ℕ} (h : Holds me w) : Abandoned (w.exit me) := by
  obtain ⟨i, hguard, hholder, hcontents⟩ := h
  refine ⟨me, i, hguard, hcontents, ?_, List.mem_cons_self ..⟩
  show (if w.holder i = some me then none else w.holder i) = none
  rw [if_pos hholder]

theorem finish_call {α : Type} {me : ℕ} {u : World} {c : Call} (x : c.Answer)
    {k : c.Answer → Prog calls α} (h : alone me c w = (u, x)) :
    finish (I := calls) (alone me) w (query c >>= k) = finish (I := calls) (alone me) u (k x) := by
  show finish (I := calls) (alone me) (alone me c w).1 (k (alone me c w).2) = _
  rw [h]

/-- A recovery that nobody disturbs removes the guard. -/
theorem Abandoned.recover (h : Abandoned w) (me : ℕ) :
    ∃ w', finish (I := calls) (alone me) w recoverBackgroundInstallGuard = (w', some true) ∧
      w'.guard = none ∧ w'.files = w.files ∧ w'.holder = w.holder := by
  obtain ⟨m, i, hguard, hcontents, hholder, -⟩ := h
  have hunlock : Function.update (Function.update w.holder i (some me)) i none = w.holder := by
    rw [Function.update_idem, ← hholder, Function.update_eq_self]
  let locked : World := { w with holder := Function.update w.holder i (some me) }
  let cleared : World := locked.truncate .recovery i me
  let unlocked : World := { cleared with holder := w.holder }
  have hguard' : cleared.guard = some { maker := m, owner := some i, clearer := some me } := by
    simp [cleared, World.truncate, locked, hguard]
  have hopen : alone me .validateOwner w = (w, some i) ∧ alone me .openOwner w = (w, some i) := by
    simp [alone, handler, World.owner, hguard]
  have hlock : alone me (.tryLock i) w = (locked, true) := by
    simp [alone, handler, World.tryLock, hholder, locked]
  have hunlocked : alone me (.unlock i) cleared = (unlocked, ()) := by
    simp [alone, handler, World.unlock, cleared, World.truncate, World.write, locked, hunlock,
      unlocked]
  have hclose : alone me (.close i) unlocked = (unlocked, true) := by
    simp [alone, handler, World.unlock, unlocked, hholder]
  have hremove : alone me (.removeOwner .recovery) unlocked = ({ unlocked with
      guard := some { maker := m, owner := none, clearer := some me } }, true) := by
    simp [alone, handler, World.removeOwner, unlocked, hguard']
  -- the calls of a recovery, one after the other
  refine ⟨{ unlocked with guard := none }, ?_, rfl, rfl, rfl⟩
  refine (finish_call (u := w) true (by simp [alone, handler, hguard])).trans ?_
  refine (finish_call (u := w) (some [.owner]) (by simp [alone, handler, hguard])).trans ?_
  refine (finish_call (some i) hopen.1).trans ?_
  refine (finish_call (some i) hopen.2).trans ?_
  show finish _ w (if i ≠ i then _ else recoverOpened i) = _
  rw [if_neg (not_not.2 rfl)]
  refine (finish_call true hlock).trans ?_
  refine (finish_call (u := locked) (some .marker) ?_).trans ?_
  · simp [alone, handler, locked, hcontents]
  refine (finish_call (u := cleared) () rfl).trans ?_
  refine (finish_call (u := cleared) true rfl).trans ?_
  refine (finish_call () hunlocked).trans ?_
  refine (finish_call true hclose).trans ?_
  refine (finish_call true hremove).trans ?_
  exact (finish_call (u := { unlocked with guard := none }) true rfl).trans rfl

/-- A process that finds an abandoned guard acquires it. -/
theorem Abandoned.acquire (h : Abandoned w) (hs : Sound w) (me : ℕ) :
    ∃ j, (w.acquire me).2 = .ok j ∧ Holds me (w.acquire me).1 := by
  obtain ⟨w₁, hrecover, hnone, hfiles, hholder⟩ := h.recover me
  have hfresh : w₁.holder w₁.files = none := by
    rw [hfiles, hholder]
    cases hp : w.holder w.files with
    | none => rfl
    | some p => exact absurd (hs.locked _ p hp) (lt_irrefl _)
  have hguard : w.guard.isSome = true := by
    obtain ⟨m, i, hguard, -⟩ := h
    rw [hguard]
    rfl
  -- The guard is made anew, with the first file that has not been used.
  let made : World := { w₁ with guard := some { maker := me } }
  let opened : World := { made with
    guard := some { maker := me, owner := some w₁.files }
    files := w₁.files + 1
    contents := Function.update w₁.contents w₁.files .empty }
  let locked : World := { opened with holder := Function.update w₁.holder w₁.files (some me) }
  let written : World := locked.write w₁.files .marker
  have hmade : alone me .mkdirGuard w₁ = (made, .made) := by
    simp [alone, handler, World.mkdirGuard, hnone, made]
  have hlock : alone me (.tryLock w₁.files) opened = (locked, true) := by
    simp [alone, handler, World.tryLock, opened, made, hfresh, locked]
  have hacquire : w.acquire me = (written, .ok w₁.files) := by
    refine (finish_call (u := w) true rfl).trans ?_
    refine (finish_call (u := w) Creation.exist ?_).trans ?_
    · simp [alone, handler, World.mkdirGuard, hguard]
    rw [finish_bind, hrecover]
    refine (finish_call Creation.made hmade).trans ?_
    refine (finish_call (u := made) true rfl).trans ?_
    refine (finish_call (u := opened) (some w₁.files) rfl).trans ?_
    refine (finish_call (u := opened) true rfl).trans ?_
    refine (finish_call true hlock).trans ?_
    refine (finish_call (u := written) true rfl).trans ?_
    exact (finish_call (u := written) true rfl).trans rfl
  rw [hacquire]
  exact ⟨_, rfl, w₁.files, rfl, Function.update_self .., Function.update_self ..⟩

/-- **Operations exclude each other.**  At most one live process is between a successful `lock` and
    its release, and it holds the guard; a recovery removes the guard or the owner file of a dead
    process only; a guard whose process is killed while it holds it is abandoned, and the next
    process that acquires the guard recovers it. -/
theorem at_most_one_at_work (ms : List Move) :
    let s := System.empty.after ms
    (∀ (i j : ℕ) (t u : Thread calls ℕ Unit), s.threads[i]? = some t → s.threads[j]? = some u →
      t.loc ∉ s.shared.dead → u.loc ∉ s.shared.dead → AtWork t.prog → AtWork u.prog → i = j) ∧
    (∀ (i : ℕ) (t : Thread calls ℕ Unit), s.threads[i]? = some t → t.loc ∉ s.shared.dead →
      AtWork t.prog → Holds t.loc s.shared) ∧
    (∀ (i : ℕ) (t : Thread calls ℕ Unit) (g : Guard), s.threads[i]? = some t →
      t.loc ∉ s.shared.dead → RemovesRecovered t.prog → s.shared.guard = some g → g.maker ∈ s.shared.dead) ∧
    (∀ p, Holds p s.shared → Abandoned (s.shared.exit p)) ∧
    (Abandoned s.shared → ∀ me, ∃ j, (s.shared.acquire me).2 = .ok j ∧
      Holds me (s.shared.acquire me).1) := by
  have h := after_lawful ms lawful_empty
  refine ⟨fun i j t u hi hj ht hu htwork huwork => ?_, fun i t hi ht hwork => ?_,
    fun i t g hi ht hremoves hg => ?_, fun p hp => hp.exit,
    fun hab me => hab.acquire h.disciplined.inv me⟩
  · by_contra hij
    refine h.disciplined.apart i j t u hij hi hj ?_
    have hholder := (h.atWork hi ht htwork).1
    exact Option.some.inj (hholder.symm.trans (h.atWork hj hu huwork).1)
  · exact (h.atWork hi ht hwork).2
  · rcases hremoves with hc | hc
    · exact h.pre hi ht hc g hg
    · exact h.pre hi ht hc g hg

end InstallGuard

end HomeLab
