/-
  Interrupted operations of the background service.

  An operation that is killed leaves the directory complete, with an enable
  unfinished or with a disable under way; these are the states that the next
  enable or disable recovers from.  One state is not among them: while the
  `.disabling` marker is written, its temporary file lies beside a complete set
  of files, and every operation refuses a directory with a name it does not
  expect.
-/
import HomeLab.Background.Service

namespace HomeLab

namespace Background

open Prog

/-! ## States an operation may leave -/

/-- The marker is in place: the settings and the registration are complete. -/
structure Complete (s : State) : Prop where
  marker : s.file (.final .marker) = some (some .marker)
  settings : s.file (.final .settings) = some (some .settings)
  registration : s.file (.final .registration) = some (some .definition)
  next : ∀ f, f ≠ .disabling → s.file (.next f) = none
  disabling : s.file (.final .disabling) = none ∨ s.file (.final .disabling) = some (some .marker)

/-- An enable has not come to its marker. -/
structure Unfinished (s : State) : Prop where
  marker : s.file (.final .marker) = none
  disabling : s.file (.final .disabling) = none
  next : s.file (.next .disabling) = none
  registered : s.registered = false

/-- A disable has unregistered the job and removed the marker. -/
structure Leaving (s : State) : Prop where
  marker : s.file (.final .marker) = none
  disabling : s.file (.final .disabling) = some (some .marker)
  next : ∀ f, s.file (.next f) = none
  registered : s.registered = false

/-- What holds whenever an operation is killed. -/
structure Recoverable (s : State) : Prop where
  absent : s.dir = false → ∀ n, s.file n = none
  shape : Complete s ∨ Unfinished s ∨ Leaving s

/-- The temporary file of the `.disabling` marker is not there. -/
def Settled (s : State) : Prop := s.file (.next .disabling) = none

instance (s : State) : Decidable (Settled s) := inferInstanceAs (Decidable (_ = _))

/-- The job is registered and its files are intact. -/
structure Working (s : State) : Prop where
  complete : Complete s
  disabling : s.file (.final .disabling) = none
  settled : Settled s
  dir : s.dir = true
  registered : s.registered = true

/-- The manager is available and its operations succeed, and the lock is free. -/
structure Environment.Sound (e : Environment) : Prop where
  lock : e.lock = none
  available : e.available = true
  inspect : e.inspect = none
  ok : e.ok = true

@[simp] theorem setFile_self (s : State) (n : Name) (t : Option (Option Text)) :
    (s.setFile n t).file n = t := Function.update_self ..

theorem setFile_ne (s : State) {n m : Name} (t : Option (Option Text)) (h : m ≠ n) :
    (s.setFile n t).file m = s.file m := Function.update_of_ne h ..

theorem Unfinished.setFile {s : State} (h : Unfinished s) {n : Name} (t : Option (Option Text))
    (hn : partialName n = true) : Unfinished (s.setFile n t) where
  marker := by rw [setFile_ne _ _ (by rintro rfl; cases hn)]; exact h.marker
  disabling := by rw [setFile_ne _ _ (by rintro rfl; cases hn)]; exact h.disabling
  next := by rw [setFile_ne _ _ (by rintro rfl; cases hn)]; exact h.next
  registered := h.registered

/-- The states differ in the lock file only, and the directory is there. -/
structure Agree (s s' : State) : Prop where
  file : ∀ n, n ≠ .lock → s'.file n = s.file n
  registered : s'.registered = s.registered
  dir : s'.dir = true

theorem agree_enter (s : State) : Agree s s.enter :=
  ⟨fun _ hn => setFile_ne s _ hn, rfl, rfl⟩

theorem Complete.agree {s s' : State} (h : Complete s) (ha : Agree s s') : Complete s' where
  marker := by rw [ha.file _ (by simp)]; exact h.marker
  settings := by rw [ha.file _ (by simp)]; exact h.settings
  registration := by rw [ha.file _ (by simp)]; exact h.registration
  next := fun f hf => by rw [ha.file _ (by simp)]; exact h.next f hf
  disabling := by rw [ha.file _ (by simp)]; exact h.disabling

theorem Unfinished.agree {s s' : State} (h : Unfinished s) (ha : Agree s s') : Unfinished s' where
  marker := by rw [ha.file _ (by simp)]; exact h.marker
  disabling := by rw [ha.file _ (by simp)]; exact h.disabling
  next := by rw [ha.file _ (by simp)]; exact h.next
  registered := by rw [ha.registered]; exact h.registered

theorem Leaving.agree {s s' : State} (h : Leaving s) (ha : Agree s s') : Leaving s' where
  marker := by rw [ha.file _ (by simp)]; exact h.marker
  disabling := by rw [ha.file _ (by simp)]; exact h.disabling
  next := fun f => by rw [ha.file _ (by simp)]; exact h.next f
  registered := by rw [ha.registered]; exact h.registered

theorem Settled.agree {s s' : State} (h : Settled s) (ha : Agree s s') : Settled s' := by
  rw [Settled, ha.file _ (by simp)]
  exact h

theorem recoverable_of_dir {s : State} (hdir : s.dir = true)
    (h : Complete s ∨ Unfinished s ∨ Leaving s) : Recoverable s :=
  ⟨fun hd => (by simp [hdir] at hd), h⟩

theorem Recoverable.agree {s s' : State} (h : Recoverable s) (ha : Agree s s') : Recoverable s' :=
  recoverable_of_dir ha.dir
    (h.shape.imp (·.agree ha) fun h => h.imp (·.agree ha) (·.agree ha))

theorem Recoverable.dir {s : State} (h : Recoverable s) (hc : Complete s) : s.dir = true := by
  by_contra hdir
  have hnone := h.absent (by simpa using hdir) (.final .marker)
  rw [hc.marker] at hnone
  cases hnone

/-! ## Reading -/

section
variable {ok : Environment → Prop} {C : State → Prop} {s : State}

/-- An unfinished enable leaves only names that are recovered. -/
theorem Unfinished.names (h : Unfinished s) :
    ∀ n ∈ s.names, partialName n = true ∧ (s.file n).isSome = true := by
  intro n hn
  rw [State.names, List.mem_filter] at hn
  refine ⟨?_, hn.2⟩
  cases n with
  | lock => rfl
  | final f =>
    cases f with
    | settings | registration => rfl
    | marker => rw [h.marker] at hn; exact absurd hn.2 nofun
    | disabling => rw [h.disabling] at hn; exact absurd hn.2 nofun
  | next f =>
    cases f with
    | disabling => rw [h.next] at hn; exact absurd hn.2 nofun
    | _ => rfl

/-- The state without some of the files. -/
def State.without (s : State) (ns : List Name) : State :=
  { s with file := fun n => if n ∈ ns then none else s.file n }

end

end Background

end HomeLab
