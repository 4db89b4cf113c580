/-
  Who an install guard belongs to.

  The marker is written under the lock of the owner file and cleared before the
  lock is given up, so a process that finds the marker in a file it has locked
  knows that the maker of the guard is dead.  It clears the marker before it
  gives up the lock, so it is the only one to find it.  Hence a guard that is
  there belongs to one process at a time: its maker while that is alive, then
  the process that cleared its marker.  Nobody else changes it.

  This is a discipline of the processes (`discipline`), and each call keeps it
  from an assertion of its process to the next.
-/
import HomeLab.Background.Guard

namespace HomeLab

namespace InstallGuard

open Prog Background

/-! ## The discipline -/

/-- What holds of the guard whoever runs. -/
structure Sound (w : World) : Prop where
  marked : ∀ i, w.contents i = .marker → ∃ g, w.guard = some g ∧ g.owner = some i ∧
    g.clearer = none ∧ (g.maker ∈ w.dead ∨ w.holder i = some g.maker)
  cleared : ∀ g r, w.guard = some g → g.clearer = some r → g.maker ∈ w.dead
  operation : ∀ p, w.operationHolder = some p → p ∉ w.dead ∧ ∃ g, w.guard = some g ∧ g.maker = p
  maker : ∀ g, w.guard = some g → g.maker < w.processes
  clearer : ∀ g r, w.guard = some g → g.clearer = some r → r < w.processes
  owner : ∀ g i, w.guard = some g → g.owner = some i → i < w.files
  locked : ∀ i p, w.holder i = some p → i < w.files

/-- The guard is the process's, to fill or to remove. -/
def Guard.Of (g : Guard) (me : ℕ) : Prop := g.maker = me ∨ g.clearer = some me

/-- What a process may rely on while the others run. -/
structure Rely (me : ℕ) (w w' : World) : Prop where
  guard : ∀ g, g.Of me → (w'.guard = some g ↔ w.guard = some g) := by exact fun _ _ => Iff.rfl
  holder : ∀ i, w'.holder i = some me ↔ w.holder i = some me := by exact fun _ => Iff.rfl
  operation : w'.operationHolder = some me ↔ w.operationHolder = some me := by exact Iff.rfl
  kept : ∀ i, w.holder i = some me → w.contents i = .marker → w'.contents i = .marker := by
    exact fun _ _ h => h
  cleared : ∀ g i, w.guard = some g → g.Of me → g.owner = some i → w.contents i ≠ .marker →
    w'.contents i ≠ .marker := by exact fun _ _ _ _ _ h => h
  processes : w.processes ≤ w'.processes := by exact le_rfl
  files : w.files ≤ w'.files := by exact le_rfl

/-- The process holds a guard that is complete. -/
structure Marked (me i : ℕ) (w : World) : Prop where
  guard : w.guard = some { maker := me, owner := some i }
  holder : w.holder i = some me
  contents : w.contents i = .marker

/-- What must hold when a call is made: a recovery removes the guard of a dead process only, and
    a process at work holds the operation file and the guard. -/
def Pre (me : ℕ) (w : World) : Call → Prop
  | .removeOwner .recovery | .removeGuard .recovery => ∀ g, w.guard = some g → g.maker ∈ w.dead
  | .work | .releaseOperationLock => w.operationHolder = some me ∧ ∃ i, Marked me i w
  | _ => True

def discipline : Discipline calls World ℕ where
  inv := Sound
  alive := fun me w => me ∉ w.dead
  rely := Rely
  pre := Pre

/-! ## What a process may change -/

/-- The guard, if there is one, is `u`'s or that of a dead process which nobody recovers. -/
def Free (u : ℕ) (w : World) : Prop :=
  ∀ g, w.guard = some g → (g.maker = u ∨ g.maker ∈ w.dead) ∧ (g.clearer = none ∨ g.clearer = some u)

/-- What a call of `u` may change. -/
structure Touches (u : ℕ) (w w' : World) : Prop where
  guard : w'.guard = w.guard ∨ (Free u w ∧ Free u w') := by exact Or.inl rfl
  holder : ∀ i v, v ≠ u → (w'.holder i = some v ↔ w.holder i = some v) := by
    exact fun _ _ _ => Iff.rfl
  operation : ∀ v, v ≠ u → (w'.operationHolder = some v ↔ w.operationHolder = some v) := by
    exact fun _ _ => Iff.rfl
  lost : ∀ i, w.contents i = .marker → w'.contents i = .marker ∨ w.holder i = some u ∨
    w.holder i = none := by exact fun _ hi => Or.inl hi
  gained : ∀ i, w'.contents i = .marker → w.contents i = .marker ∨
    ∃ g, w.guard = some g ∧ g.maker = u ∧ g.clearer = none := by exact fun _ hi => Or.inl hi
  dead : w'.dead = w.dead := by rfl
  processes : w'.processes = w.processes := by rfl
  files : w.files ≤ w'.files := by exact le_rfl

theorem Touches.rely {u me : ℕ} {w w' : World} (h : Touches u w w') (hne : me ≠ u)
    (halive : me ∉ w.dead) : Rely me w w' where
  guard := by
    intro g hg
    rcases h.guard with heq | ⟨hfree, hfree'⟩
    · rw [heq]
    · have hnot {w : World} (hfree : Free u w) (hdead : me ∉ w.dead) : w.guard ≠ some g := by
        intro hguard
        obtain ⟨hmaker, hclearer⟩ := hfree g hguard
        rcases hg with rfl | hme
        · exact hmaker.elim hne hdead
        · rw [hme] at hclearer
          rcases hclearer with hnone | hsome
          · cases hnone
          · exact hne (Option.some.inj hsome)
      exact iff_of_false (hnot hfree' (h.dead ▸ halive)) (hnot hfree halive)
  holder := fun i => h.holder i me hne
  operation := h.operation me hne
  kept := by
    intro i hholder hmarker
    rcases h.lost i hmarker with hkept | hu | hnone
    · exact hkept
    · exact absurd (Option.some.inj (hholder.symm.trans hu)) hne
    · rw [hholder] at hnone
      cases hnone
  cleared := by
    intro g i hguard hg howner hnot hmarker
    rcases h.gained i hmarker with hmarked | ⟨g', hguard', hmaker, hclearer⟩
    · exact hnot hmarked
    · obtain rfl : g = g' := Option.some.inj (hguard.symm.trans hguard')
      rcases hg with rfl | hme
      · exact hne hmaker
      · rw [hclearer] at hme
        cases hme
  processes := h.processes.ge
  files := h.files

theorem Touches.keeps {u : ℕ} {w w' : World} (h : Touches u w w') (hs : Sound w') :
    discipline.Keeps u w w' where
  inv := hs
  rely := fun _ hne halive => h.rely hne halive
  alive := fun v hv => by
    show v ∉ w.dead
    rw [← h.dead]
    exact hv

/-! ## Assertions that the others keep -/

section
variable {me : ℕ}

theorem stable_holder (i : ℕ) : discipline.Stable me fun w => w.holder i = some me :=
  fun _ _ _ hr h => (hr.holder i).2 h

/-- The process has nothing to do with the guard that is there. -/
structure Outside (me : ℕ) (w : World) : Prop where
  guard : ∀ g, w.guard = some g → ¬g.Of me
  idle : w.operationHolder ≠ some me
  started : me < w.processes

theorem stable_outside : discipline.Stable me (Outside me) :=
  fun _ _ _ hr h => ⟨fun g hg hof => h.guard g ((hr.guard g hof).1 hg) hof,
    fun h' => h.idle (hr.operation.1 h'), h.started.trans_le hr.processes⟩

/-- The process has made the guard, with the owner file `o`, and is not at work. -/
structure Owning (me : ℕ) (o : Option ℕ) (w : World) : Prop where
  guard : w.guard = some { maker := me, owner := o }
  idle : w.operationHolder ≠ some me

theorem stable_owning (o : Option ℕ) : discipline.Stable me (Owning me o) :=
  fun _ _ _ hr h => ⟨(hr.guard _ (Or.inl rfl)).2 h.guard, fun h' => h.idle (hr.operation.1 h')⟩

theorem stable_complete (i : ℕ) : discipline.Stable me (Marked me i) :=
  fun _ _ _ hr h => ⟨(hr.guard _ (Or.inl rfl)).2 h.guard, (hr.holder i).2 h.holder,
    hr.kept i h.holder h.contents⟩

/-- The process has cleared the marker of a guard to recover it. -/
structure Clearing (me : ℕ) (o : Option ℕ) (w : World) : Prop where
  guard : ∃ m, w.guard = some { maker := m, owner := o, clearer := some me }
  contents : ∀ i, o = some i → w.contents i ≠ .marker
  idle : w.operationHolder ≠ some me

theorem stable_clearing (o : Option ℕ) : discipline.Stable me (Clearing me o) := by
  intro w w' _ hr h
  obtain ⟨m, hguard⟩ := h.guard
  exact ⟨⟨m, (hr.guard _ (Or.inr rfl)).2 hguard⟩,
    fun i hi => hr.cleared _ i hguard (Or.inr rfl) hi (h.contents i hi),
    fun h' => h.idle (hr.operation.1 h')⟩

end

/-! ## Calls that leave the guard alone -/

def harmless : Call → Bool
  | .mkdirGuard | .removeGuard _ | .createOwner | .removeOwner _ | .tryLock _ | .unlock _ | .close _
  | .writeMarker _ | .truncate _ _ | .tryOperationLock | .releaseOperationLock | .work => false
  | _ => true

variable {c : Call}

/-- Such a call makes the directory and the file of the operation at most. -/
theorem handler_of_harmless (hc : harmless c = true) (e : Environment) (w : World) (me : ℕ) :
    ∃ background operation, (handler c e w me).1 =
      { w with background := background, operation := operation } ∧ (handler c e w me).2.1 = me := by
  cases c <;> first | cases hc; done | exact ⟨_, _, rfl, rfl⟩

section
variable {me : ℕ} {w w' : World}

theorem keeps_self (hs : Sound w) : discipline.Keeps me w w := Touches.keeps {} hs

theorem pre_of_harmless (hc : harmless c = true) : Pre me w c := by
  cases c <;> first | cases hc; done | trivial

variable {P : World → Prop} {i : ℕ} {g : Guard} {o : Option ℕ}

/-- A harmless call keeps what the others keep. -/
theorem harmless_guarded (hc : harmless c = true) (hP : discipline.Stable me P) :
    Guarded discipline handler me (fun _ => P) P (query c) := by
  refine guarded_ask (fun w _ _ => pre_of_harmless hc) (fun e w hs _ h => ?_) fun _ => hP
  obtain ⟨background, operation, heq, hme⟩ := handler_of_harmless hc e w me
  rw [heq]
  exact ⟨hme, Touches.keeps {} { hs with }, hP _ _ hs {} h⟩

/-- While it works the process keeps its locks. -/
theorem work_guarded (hP : discipline.Stable me P)
    (hlocked : ∀ w, P w → w.operationHolder = some me ∧ ∃ i, Marked me i w) :
    Guarded discipline handler me (fun _ => P) P (query .work) :=
  guarded_ask (fun w _ h => hlocked w h) (fun _ _ hs _ h => ⟨rfl, keeps_self hs, h⟩) fun _ => hP

/-! ## Making the guard -/

theorem Sound.unmarked (hs : Sound w) (h : ∀ g, w.guard = some g → g.owner ≠ some i) :
    w.contents i ≠ .marker := by
  intro hi
  obtain ⟨g, hg, ho, -⟩ := hs.marked i hi
  exact h g hg ho

theorem Sound.free (hs : Sound w) (h : w.guard = none) : w.operationHolder = none := by
  cases hop : w.operationHolder with
  | none => rfl
  | some p =>
    obtain ⟨-, g, hg, -⟩ := hs.operation p hop
    rw [h] at hg
    cases hg

/-- A process changes a guard that is its own, and nothing else. -/
theorem touches_guard {o : Option Guard} (hfree : Free me w)
    (hfree' : ∀ g, o = some g →
      (g.maker = me ∨ g.maker ∈ w.dead) ∧ (g.clearer = none ∨ g.clearer = some me)) :
    Touches me w { w with guard := o } where
  guard := Or.inr ⟨hfree, hfree'⟩

theorem Sound.mkdir (hs : Sound w) (h : w.guard = none) (hme : me < w.processes) :
    Sound { w with guard := some { maker := me } } where
  marked := fun i hi => absurd hi (hs.unmarked fun g hg => by rw [h] at hg; cases hg)
  cleared := fun g r hg hr => by
    rw [← Option.some.inj hg] at hr
    cases hr
  operation := fun p hp => by
    replace hp : w.operationHolder = some p := hp
    rw [hs.free h] at hp
    cases hp
  maker := fun g hg => by
    rw [← Option.some.inj hg]
    exact hme
  clearer := fun g r hg hr => by
    rw [← Option.some.inj hg] at hr
    cases hr
  owner := fun g i hg hi => by
    rw [← Option.some.inj hg] at hi
    cases hi
  locked := hs.locked

theorem mkdirGuard_guarded :
    Guarded discipline handler me
      (fun x w => (x = .made → Owning me none w) ∧ (x ≠ .made → Outside me w)) (Outside me)
      (query .mkdirGuard) := by
  refine guarded_ask (fun _ _ _ => trivial) (fun e w hs _ h => ⟨rfl, ?_⟩)
    fun x => (stable_owning none).imp.and stable_outside.imp
  show discipline.Keeps me w (w.mkdirGuard me e).1 ∧
    ((w.mkdirGuard me e).2 = .made → Owning me none (w.mkdirGuard me e).1) ∧
    ((w.mkdirGuard me e).2 ≠ .made → Outside me (w.mkdirGuard me e).1)
  have hkeeps : discipline.Keeps me w w := keeps_self hs
  unfold World.mkdirGuard
  split
  · exact ⟨hkeeps, nofun, fun _ => h⟩
  · rename_i hnone
    rw [Option.not_isSome_iff_eq_none] at hnone
    split
    · have hfree : Free me w := fun g hg => by
        rw [hnone] at hg
        cases hg
      have htouches : Touches me w { w with guard := some { maker := me } } :=
        touches_guard hfree fun g hg => by
          rw [← Option.some.inj hg]
          exact ⟨Or.inl rfl, Or.inl rfl⟩
      exact ⟨htouches.keeps (hs.mkdir hnone h.started), fun _ => ⟨rfl, h.idle⟩,
        fun hne => absurd rfl hne⟩
    · exact ⟨hkeeps, nofun, fun _ => h⟩

/-- The guard stays with its process. -/
theorem Sound.change (hs : Sound w) {g' : Guard} (hg : w.guard = some g) (hg' : w'.guard = some g')
    (hmaker : g'.maker = g.maker)
    (hclearer : ∀ r, g'.clearer = some r → g.maker ∈ w.dead ∧ r < w.processes)
    (hoperation : w'.operationHolder = w.operationHolder) (hprocesses : w'.processes = w.processes)
    (hdead : w'.dead = w.dead) (howner : ∀ i, g'.owner = some i → i < w'.files)
    (hlocked : ∀ i p, w'.holder i = some p → i < w'.files) (hmarked : ∀ i, w'.contents i = .marker →
      g'.owner = some i ∧ g'.clearer = none ∧ (g'.maker ∈ w'.dead ∨ w'.holder i = some g'.maker)) :
    Sound w' where
  marked := fun i hi => ⟨g', hg', hmarked i hi⟩
  cleared := by
    intro g₁ r hg₁ hr
    obtain rfl : g' = g₁ := Option.some.inj (hg'.symm.trans hg₁)
    rw [hmaker, hdead]
    exact (hclearer r hr).1
  operation := by
    intro p hp
    obtain ⟨hp', g₁, hg₁, hm⟩ := hs.operation p (hoperation.symm.trans hp)
    obtain rfl : g = g₁ := Option.some.inj (hg.symm.trans hg₁)
    rw [hdead]
    exact ⟨hp', g', hg', hmaker.trans hm⟩
  maker := by
    intro g₁ hg₁
    obtain rfl : g' = g₁ := Option.some.inj (hg'.symm.trans hg₁)
    rw [hmaker, hprocesses]
    exact hs.maker g hg
  clearer := by
    intro g₁ r hg₁ hr
    obtain rfl : g' = g₁ := Option.some.inj (hg'.symm.trans hg₁)
    rw [hprocesses]
    exact (hclearer r hr).2
  owner := by
    intro g₁ i hg₁ hi
    obtain rfl : g' = g₁ := Option.some.inj (hg'.symm.trans hg₁)
    exact howner i hi
  locked := hlocked

theorem free_owning (h : w.guard = some { maker := me, owner := o }) : Free me w := by
  intro g hg
  rw [← Option.some.inj (h.symm.trans hg)]
  exact ⟨Or.inl rfl, Or.inl rfl⟩

theorem createOwner_guarded :
    Guarded discipline handler me
      (fun x w => (∀ i, x = some i → Owning me (some i) w) ∧ (x = none → Owning me none w))
      (Owning me none) (query .createOwner) := by
  refine guarded_ask (fun _ _ _ => trivial) (fun e w hs _ h => ⟨rfl, ?_⟩) fun x => ?_
  · show discipline.Keeps me w (w.createOwner e).1 ∧
      (∀ i, (w.createOwner e).2 = some i → Owning me (some i) (w.createOwner e).1) ∧
      ((w.createOwner e).2 = none → Owning me none (w.createOwner e).1)
    rw [World.createOwner, h.guard]
    dsimp only
    split
    · -- No file holds the marker as long as the guard has no owner file.
      have hno (i : ℕ) : w.contents i ≠ .marker := hs.unmarked fun g hg => by
        rw [← Option.some.inj (h.guard.symm.trans hg)]
        nofun
      have hno' (i : ℕ) : Function.update w.contents w.files .empty i ≠ .marker := by
        rw [Function.update_apply]
        split
        · nofun
        · exact hno i
      refine ⟨Touches.keeps ?_ (hs.change h.guard rfl rfl nofun rfl rfl rfl
        (fun i hi => Option.some.inj hi ▸ Nat.lt_succ_self _)
        (fun i p hp => (hs.locked i p hp).trans (Nat.lt_succ_self _))
        fun i hi => absurd hi (hno' i)), fun i hi => ?_, nofun⟩
      · exact
          { guard := Or.inr ⟨free_owning h.guard, free_owning rfl⟩
            lost := fun i hi => absurd hi (hno i)
            gained := fun i hi => absurd hi (hno' i)
            files := Nat.le_succ _ }
      · rw [← Option.some.inj hi]
        exact ⟨rfl, h.idle⟩
    · exact ⟨keeps_self hs, nofun, fun _ => h⟩
  · refine Discipline.Stable.and (fun w w' hw hr hx i hi => ?_) (stable_owning none).imp
    exact stable_owning (some i) w w' hw hr (hx i hi)

/-! ## Locking and writing the owner file -/

theorem Sound.setHolder (hs : Sound w) {holder : ℕ → Option ℕ}
    (h : ∀ i g, w.contents i = .marker → w.guard = some g → w.holder i = some g.maker →
      g.maker ∈ w.dead ∨ holder i = some g.maker)
    (hlocked : ∀ i p, holder i = some p → i < w.files) : Sound { w with holder := holder } where
  marked := by
    intro i hi
    obtain ⟨g, hg, ho, hc, hm⟩ := hs.marked i hi
    exact ⟨g, hg, ho, hc, hm.elim Or.inl (h i g hi hg)⟩
  locked := hlocked
  __ := hs

theorem touches_holder (hw : w.holder i = none ∨ w.holder i = some me) (ho : o = none ∨ o = some me) :
    Touches me w { w with holder := Function.update w.holder i o } where
  holder := by
    intro j v hv
    show Function.update w.holder i o j = some v ↔ w.holder j = some v
    rw [Function.update_apply]
    split
    · rename_i hj
      subst hj
      have hnot {x : Option ℕ} (hx : x = none ∨ x = some me) : x ≠ some v := by
        rintro rfl
        rcases hx with hx | hx
        · cases hx
        · exact hv (Option.some.inj hx)
      exact iff_of_false (hnot ho) (hnot hw)
    · exact Iff.rfl

/-- The assertion does not depend on who holds the lock of a file. -/
def Unlocked (P : World → Prop) : Prop := ∀ w holder, P w → P { w with holder := holder }

theorem tryLock_guarded (hP : discipline.Stable me P) (hfree : Unlocked P)
    (hi : ∀ w, Sound w → P w → i < w.files) :
    Guarded discipline handler me (fun ok w => P w ∧ (ok = true → w.holder i = some me)) P
      (query (.tryLock i)) := by
  refine guarded_ask (fun _ _ _ => trivial) (fun e w hs _ h => ⟨rfl, ?_⟩)
    fun ok => hP.and (stable_holder i).imp
  show discipline.Keeps me w (w.tryLock i me e).1 ∧ P (w.tryLock i me e).1 ∧
    ((w.tryLock i me e).2 = true → (w.tryLock i me e).1.holder i = some me)
  unfold World.tryLock
  split
  · rename_i hok
    have hnone : w.holder i = none := by
      rw [Bool.and_eq_true, Option.isNone_iff_eq_none] at hok
      exact hok.2
    refine ⟨(touches_holder (Or.inl hnone) (Or.inr rfl)).keeps (hs.setHolder ?_ ?_),
      hfree _ _ h, fun _ => Function.update_self ..⟩
    · intro j g _ _ hj
      refine Or.inr ?_
      rw [Function.update_of_ne (fun hji => by rw [hji, hnone] at hj; cases hj)]
      exact hj
    · intro j p hp
      rw [Function.update_apply] at hp
      split at hp
      · rename_i hji
        rw [hji]
        exact hi w hs h
      · exact hs.locked j p hp
  · exact ⟨keeps_self hs, h, nofun⟩

theorem unlock_keeps (hs : Sound w)
    (hsafe : w.contents i = .marker → ∀ g, w.guard = some g → g.maker ≠ me) :
    discipline.Keeps me w (w.unlock i me) := by
  unfold World.unlock
  split
  · rename_i hholder
    refine (touches_holder (Or.inr hholder) (Or.inl rfl)).keeps (hs.setHolder ?_ ?_)
    · intro j g hj hg hmaker
      refine Or.inr ?_
      rw [Function.update_of_ne]
      · exact hmaker
      · rintro rfl
        exact hsafe hj g hg (Option.some.inj (hmaker.symm.trans hholder))
    · intro j p hp
      rw [Function.update_apply] at hp
      split at hp
      · cases hp
      · exact hs.locked j p hp
  · exact keeps_self hs

theorem unlock_apply (hfree : Unlocked P) (i : ℕ) (h : P w) :
    P (w.unlock i me) := by
  unfold World.unlock
  split
  · exact hfree _ _ h
  · exact h

theorem unlock_guarded (hP : discipline.Stable me P) (hfree : Unlocked P)
    (hsafe : ∀ w, P w → w.contents i = .marker → ∀ g, w.guard = some g → g.maker ≠ me) :
    Guarded discipline handler me (fun _ => P) P (query (.unlock i)) :=
  guarded_ask (fun _ _ _ => trivial)
    (fun _ w hs _ h => ⟨rfl, unlock_keeps hs (hsafe w h), unlock_apply hfree i h⟩) fun _ => hP

theorem close_guarded (hP : discipline.Stable me P) (hfree : Unlocked P)
    (hsafe : ∀ w, P w → w.contents i = .marker → ∀ g, w.guard = some g → g.maker ≠ me) :
    Guarded discipline handler me (fun _ => P) P (query (.close i)) :=
  guarded_ask (fun _ _ _ => trivial)
    (fun _ w hs _ h => ⟨rfl, unlock_keeps hs (hsafe w h), unlock_apply hfree i h⟩) fun _ => hP

/-- The maker writes to its owner file. -/
theorem write_keeps (hs : Sound w) (hg : w.guard = some { maker := me, owner := some i })
    (halive : me ∉ w.dead) {c : Contents} (hc : c = .marker → w.holder i = some me) :
    discipline.Keeps me w (w.write i c) := by
  have hother {j : ℕ} (hj : j ≠ i) : w.contents j ≠ .marker := hs.unmarked fun g hg' => by
    rw [← Option.some.inj (hg.symm.trans hg')]
    exact fun heq => hj (Option.some.inj heq).symm
  refine Touches.keeps ?_ (hs.change hg hg rfl nofun rfl rfl rfl
    (fun j hj => hs.owner _ j hg hj) hs.locked fun j hj => ?_)
  · refine
      { lost := fun j hj => ?_
        gained := fun j _ => Or.inr ⟨_, hg, rfl, rfl⟩ }
    obtain ⟨g, hg', -, -, hm⟩ := hs.marked j hj
    rw [← Option.some.inj (hg.symm.trans hg')] at hm
    exact Or.inr (Or.inl (hm.resolve_left halive))
  · replace hj : Function.update w.contents i c j = .marker := hj
    by_cases hji : j = i
    · subst hji
      rw [Function.update_self] at hj
      exact ⟨rfl, rfl, Or.inr (hc hj)⟩
    · rw [Function.update_of_ne hji] at hj
      exact absurd hj (hother hji)

theorem writeMarker_guarded (i : ℕ) :
    Guarded discipline handler me
      (fun ok w => Owning me (some i) w ∧ (ok = true → Marked me i w))
      (fun w => Owning me (some i) w ∧ w.holder i = some me) (query (.writeMarker i)) := by
  refine guarded_ask (fun _ _ _ => trivial) (fun e w hs halive h => ⟨rfl, ?_, ?_, fun hok => ?_⟩)
    fun ok => (stable_owning _).and (stable_complete i).imp
  · exact write_keeps hs h.1.guard halive fun _ => h.2
  · exact ⟨h.1.guard, h.1.idle⟩
  · replace hok : e.ok = true := hok
    refine ⟨h.1.guard, h.2, ?_⟩
    show Function.update w.contents i (if e.ok then .marker else .short) i = .marker
    rw [hok, Function.update_self]
    rfl

/-! ## Removing the guard -/

theorem stable_cleaned (i : ℕ) :
    discipline.Stable me fun w => Owning me (some i) w ∧ w.contents i ≠ .marker :=
  fun w w' hs hr h => ⟨stable_owning _ w w' hs hr h.1,
    hr.cleared _ i h.1.guard (Or.inl rfl) rfl h.2⟩

theorem truncate_guarded (i : ℕ) :
    Guarded discipline handler me
      (fun _ w => Owning me (some i) w ∧ w.contents i ≠ .marker) (Owning me (some i))
      (query (.truncate .owner i)) := by
  refine guarded_ask (fun _ _ _ => trivial) (fun e w hs halive h => ⟨rfl, ?_, ⟨h.guard, h.idle⟩, ?_⟩)
    fun _ => stable_cleaned i
  · exact write_keeps (c := .empty) hs h.guard halive nofun
  · show Function.update w.contents i .empty i ≠ .marker
    rw [Function.update_self]
    nofun

/-- An owner file without the marker is removed. -/
theorem removeOwner_keeps (hs : Sound w) (hg : w.guard = some g) (hfree : Free me w)
    (hcleared : ∀ i, g.owner = some i → w.contents i ≠ .marker) :
    discipline.Keeps me w { w with guard := some { g with owner := none } } := by
  have hno (i : ℕ) : w.contents i ≠ .marker := by
    intro hi
    obtain ⟨g', hg', ho, -⟩ := hs.marked i hi
    rw [← Option.some.inj (hg.symm.trans hg')] at ho
    exact hcleared i ho hi
  refine (touches_guard hfree fun g' hg' => ?_).keeps (hs.change hg rfl rfl (fun r hr =>
    ⟨hs.cleared g r hg hr, hs.clearer g r hg hr⟩) rfl rfl rfl nofun hs.locked
    fun i hi => absurd hi (hno i))
  rw [← Option.some.inj hg']
  exact hfree g hg

/-- An empty guard directory is removed. -/
theorem removeGuard_keeps (hs : Sound w) (hg : w.guard = some g) (hfree : Free me w)
    (hempty : g.owner = none) (hidle : w.operationHolder ≠ some g.maker) :
    discipline.Keeps me w { w with guard := none } := by
  refine (touches_guard (o := none) hfree nofun).keeps
    { marked := fun i hi => ?_
      cleared := nofun
      operation := fun p hp => ?_
      maker := nofun
      clearer := nofun
      owner := nofun
      locked := hs.locked }
  · obtain ⟨g', hg', ho, -⟩ := hs.marked i hi
    rw [← Option.some.inj (hg.symm.trans hg'), hempty] at ho
    cases ho
  · obtain ⟨-, g', hg', hm⟩ := hs.operation p hp
    rw [← Option.some.inj (hg.symm.trans hg')] at hm
    exact absurd (hp.trans (congrArg some hm.symm)) hidle

theorem removeOwner_guarded (i : ℕ) :
    Guarded discipline handler me (fun _ w => ∃ o, Owning me o w)
      (fun w => Owning me (some i) w ∧ w.contents i ≠ .marker) (query (.removeOwner .owner)) := by
  refine guarded_ask (fun _ _ _ => trivial) (fun e w hs _ h => ⟨rfl, ?_⟩)
    fun _ => Discipline.Stable.exists stable_owning
  show discipline.Keeps me w (w.removeOwner e).1 ∧ ∃ o, Owning me o (w.removeOwner e).1
  rw [World.removeOwner, h.1.guard]
  dsimp only
  split
  · refine ⟨removeOwner_keeps hs h.1.guard (free_owning h.1.guard) fun j hj => ?_,
      none, rfl, h.1.idle⟩
    rw [← Option.some.inj hj]
    exact h.2
  · exact ⟨keeps_self hs, some i, h.1⟩

theorem removeGuard_guarded :
    Guarded discipline handler me (fun _ _ => True) (fun w => ∃ o, Owning me o w)
      (query (.removeGuard .owner)) := by
  refine guarded_ask (fun _ _ _ => trivial) (fun e w hs _ h => ⟨rfl, ?_, trivial⟩)
    fun _ => Discipline.stable_true
  obtain ⟨o, h⟩ := h
  show discipline.Keeps me w (w.removeGuard e).1
  rw [World.removeGuard, h.guard]
  dsimp only
  split
  · rename_i hok
    rw [Bool.and_eq_true, Option.isNone_iff_eq_none] at hok
    exact removeGuard_keeps hs h.guard (free_owning h.guard) hok.2 h.idle
  · exact keeps_self hs

theorem cleanup_guarded (i : ℕ) :
    Guarded discipline handler me (fun _ _ => True) (Owning me (some i)) (cleanup i) := by
  have hfree : Unlocked fun w => Owning me (some i) w ∧ w.contents i ≠ .marker :=
    fun w holder h => ⟨⟨h.1.guard, h.1.idle⟩, h.2⟩
  refine (truncate_guarded i).bind fun _ => ?_
  refine (harmless_guarded rfl (stable_cleaned i)).bind fun _ => ?_
  refine (unlock_guarded (stable_cleaned i) hfree fun w h hm => absurd hm h.2).bind fun _ => ?_
  refine (close_guarded (stable_cleaned i) hfree fun w h hm => absurd hm h.2).bind fun _ => ?_
  refine (removeOwner_guarded i).bind fun _ => ?_
  refine removeGuard_guarded.bind fun _ => ?_
  exact fun _ _ _ => trivial

/-! ## Recovering a guard -/

/-- The process has locked a file to recover its guard. -/
structure Recovering (me i : ℕ) (w : World) : Prop where
  outside : Outside me w
  holder : w.holder i = some me

theorem stable_recovering (i : ℕ) : discipline.Stable me (Recovering me i) :=
  fun w w' hs hr h => ⟨stable_outside w w' hs hr h.outside, (hr.holder i).2 h.holder⟩

theorem openOwner_guarded :
    Guarded discipline handler me (fun x w => Outside me w ∧ ∀ i, x = some i → i < w.files)
      (Outside me) (query .openOwner) := by
  refine guarded_ask (fun _ _ _ => trivial)
    (fun e w hs _ h => ⟨rfl, keeps_self hs, h, fun i hi => ?_⟩)
    fun x w w' hs hr h => ⟨stable_outside w w' hs hr h.1, fun i hi => (h.2 i hi).trans_le hr.files⟩
  replace hi : (if e.ok then w.owner else none) = some i := hi
  split at hi
  · obtain ⟨g, hg, ho⟩ := Option.bind_eq_some_iff.1 hi
    exact hs.owner g i hg ho
  · cases hi

theorem readAll_guarded (i : ℕ) :
    Guarded discipline handler me
      (fun x w => Recovering me i w ∧ (x = some .marker → w.contents i = .marker))
      (Recovering me i) (query (.readAll i)) := by
  refine guarded_ask (fun _ _ _ => trivial)
    (fun e w hs _ h => ⟨rfl, keeps_self hs, h, fun hx => ?_⟩)
    fun x w w' hs hr h => ⟨stable_recovering i w w' hs hr h.1, fun hx => hr.kept i h.1.holder (h.2 hx)⟩
  replace hx : (if e.ok then some (w.contents i) else none) = some .marker := hx
  split at hx
  · exact Option.some.inj hx
  · cases hx

/-- **Who finds the marker in a file it has locked, finds the guard of a dead process.** -/
theorem Recovering.dead (h : Recovering me i w) (hs : Sound w) (hmarker : w.contents i = .marker) :
    ∃ m, w.guard = some { maker := m, owner := some i } ∧ m ∈ w.dead := by
  obtain ⟨⟨m, o, c⟩, hg, rfl, rfl, hm⟩ := hs.marked i hmarker
  refine ⟨m, hg, hm.resolve_right fun hholder => ?_⟩
  exact h.outside.guard _ hg (Or.inl (Option.some.inj (hholder.symm.trans h.holder)))

theorem clear_guarded (i : ℕ) :
    Guarded discipline handler me (fun _ => Clearing me (some i))
      (fun w => Recovering me i w ∧ w.contents i = .marker) (query (.truncate .recovery i)) := by
  refine guarded_ask (fun _ _ _ => trivial) (fun e w hs _ h => ⟨rfl, ?_⟩)
    fun _ => stable_clearing _
  obtain ⟨m, hg, hdead⟩ := h.1.dead hs h.2
  have hguard : (w.truncate .recovery i me).guard =
      some { maker := m, owner := some i, clearer := some me } := by
    simp [World.truncate, hg]
  have hno (j : ℕ) : (w.truncate .recovery i me).contents j ≠ .marker := by
    show Function.update w.contents i .empty j ≠ .marker
    rw [Function.update_apply]
    split
    · nofun
    · rename_i hj
      refine hs.unmarked fun g hg' => ?_
      rw [← Option.some.inj (hg.symm.trans hg')]
      exact fun heq => hj (Option.some.inj heq).symm
  refine ⟨Touches.keeps ?_ (hs.change hg hguard rfl (fun r hr => ⟨hdead, ?_⟩) rfl rfl rfl
    (fun j hj => hs.owner _ j hg hj) hs.locked fun j hj => absurd hj (hno j)), ⟨m, hguard⟩, fun j _ => hno j, h.1.outside.idle⟩
  · refine
      { guard := Or.inr ⟨fun g hg' => ?_, fun g hg' => ?_⟩
        lost := fun j hj => ?_
        gained := fun j hj => absurd hj (hno j) }
    · rw [← Option.some.inj (hg.symm.trans hg')]
      exact ⟨Or.inr hdead, Or.inl rfl⟩
    · rw [← Option.some.inj (hguard.symm.trans hg')]
      exact ⟨Or.inr hdead, Or.inr rfl⟩
    · obtain ⟨g, hg', ho, -⟩ := hs.marked j hj
      rw [← Option.some.inj (hg.symm.trans hg')] at ho
      rw [← Option.some.inj ho]
      exact Or.inr (Or.inl h.1.holder)
  · rw [← Option.some.inj hr]
    exact h.1.outside.started

theorem Clearing.dead (h : Clearing me o w) (hs : Sound w) :
    ∀ g, w.guard = some g → g.maker ∈ w.dead := by
  intro g hg
  obtain ⟨m, hguard⟩ := h.guard
  refine hs.cleared g me hg ?_
  rw [← Option.some.inj (hguard.symm.trans hg)]

theorem Clearing.free (h : Clearing me o w) (hs : Sound w) : Free me w := by
  intro g hg
  obtain ⟨m, hguard⟩ := h.guard
  refine ⟨Or.inr (h.dead hs g hg), Or.inr ?_⟩
  rw [← Option.some.inj (hguard.symm.trans hg)]

theorem removeRecoveredOwner_guarded (i : ℕ) :
    Guarded discipline handler me (fun ok w => ok = true → Clearing me none w)
      (Clearing me (some i)) (query (.removeOwner .recovery)) := by
  refine guarded_ask (fun w hs h => h.dead hs) (fun e w hs _ h => ⟨rfl, ?_⟩)
    fun _ => (stable_clearing none).imp
  obtain ⟨m, hg⟩ := h.guard
  show discipline.Keeps me w (w.removeOwner e).1 ∧
    ((w.removeOwner e).2 = true → Clearing me none (w.removeOwner e).1)
  rw [World.removeOwner, hg]
  dsimp only
  split
  · refine ⟨removeOwner_keeps hs hg (h.free hs) fun j hj => h.contents j hj, fun _ => ?_⟩
    exact ⟨⟨m, rfl⟩, nofun, h.idle⟩
  · exact ⟨keeps_self hs, nofun⟩

theorem removeRecoveredGuard_guarded :
    Guarded discipline handler me (fun ok w => ok = true → Outside me w) (Clearing me none)
      (query (.removeGuard .recovery)) := by
  refine guarded_ask (fun w hs h => h.dead hs) (fun e w hs _ h => ⟨rfl, ?_⟩)
    fun _ => stable_outside.imp
  obtain ⟨m, hg⟩ := h.guard
  show discipline.Keeps me w (w.removeGuard e).1 ∧
    ((w.removeGuard e).2 = true → Outside me (w.removeGuard e).1)
  rw [World.removeGuard, hg]
  dsimp only
  split
  · refine ⟨removeGuard_keeps hs hg (h.free hs) rfl fun hop => ?_, fun _ => ?_⟩
    · exact (hs.operation m hop).1 (h.dead hs _ hg)
    · exact ⟨nofun, h.idle, hs.clearer _ me hg rfl⟩
  · exact ⟨keeps_self hs, nofun⟩

theorem removeRecovered_guarded (i : ℕ) :
    Guarded discipline handler me (fun r w => r = some true → Outside me w)
      (fun w => Recovering me i w ∧ w.contents i = .marker) (removeRecovered i) := by
  have hfree : Unlocked (Clearing me (some i)) := fun w holder h => ⟨h.guard, h.contents, h.idle⟩
  have hsafe (w : World) (h : Clearing me (some i) w) (hm : w.contents i = .marker) :
      ∀ g, w.guard = some g → g.maker ≠ me := absurd hm (h.contents i rfl)
  refine (clear_guarded i).bind fun _ => ?_
  refine (harmless_guarded rfl (stable_clearing _)).bind fun synced => ?_
  refine (unlock_guarded (stable_clearing _) hfree hsafe).bind fun _ => ?_
  refine (close_guarded (stable_clearing _) hfree hsafe).bind fun closed => ?_
  split
  · exact fun _ _ _ => nofun
  refine (removeRecoveredOwner_guarded i).bind fun ok => ?_
  cases ok with
  | false => exact fun _ _ _ => nofun
  | true =>
    refine (removeRecoveredGuard_guarded.weaken fun w _ h => h rfl).bind fun ok => ?_
    cases ok with
    | false => exact fun _ _ _ => nofun
    | true => exact fun _ _ h _ => h rfl

end

end InstallGuard

end HomeLab
