/-
  Runs of the journal.

  The remaining calls refine the ledger as well, so every run does
  (`Represents.run`).  Two results follow: a store that was ever provisioned
  can be read back after any run, and an action is dispatched at most once over
  any run.
-/
import HomeLab.ActionJournal.Refinement

namespace HomeLab

namespace ActionJournal

open ActionCore Ledger

/-! ## Prune -/

/-- One change of a prune that keeps the active actions; `f` is the floor it
    will leave. -/
inductive PruneStep (active : List Bytes) (now : Clock) (f : Instant) (L : Ledger) :
    Ledger → Prop where
  | expire (r : Record) (hr : r ∈ L.entries) (hu : r.undispatched = true) (hid : r.id ∉ active)
      (hexp : r.expiresAt ≤ now) : PruneStep active now f L (L.modify r.id (Record.expired now))
  | forget (r : Record) (hr : r ∈ L.entries) (ht : r.terminal ≠ 0) (hid : r.id ∉ active)
      (hexp : r.expiresAt ≤ f) : PruneStep active now f L (L.erase r.id)

abbrev Pruned (active : List Bytes) (now : Clock) (f : Instant) : Ledger → Ledger → Prop :=
  Relation.ReflTransGen (PruneStep active now f)

/-- The ledger with another floor. -/
def Ledger.raise (L : Ledger) (f : Instant) : Ledger := { L with floor := f }

/-- What was seen so far is of unresolved records. -/
def SeenIn {α : Type} (f : Record → α) (pre : List Record) (seen : List α) : Prop :=
  ∀ x ∈ seen, ∃ r ∈ pre, r.unresolved = true ∧ f r = x

section
variable {α : Type} {f : Record → α} {pre : List Record} {seen : List α}

theorem SeenIn.skip (h : SeenIn f pre seen) (r : Record) : SeenIn f (pre ++ [r]) seen :=
  fun x hx => (h x hx).imp fun _ hs => ⟨List.mem_append_left _ hs.1, hs.2⟩

theorem SeenIn.add (h : SeenIn f pre seen) {r : Record} (hr : r.unresolved = true) :
    SeenIn f (pre ++ [r]) (f r :: seen) :=
  List.forall_mem_cons.2 ⟨⟨r, by simp, hr, rfl⟩, h.skip r⟩

end

/-- The unresolved records of a fenced ledger pass the loop of `verify`. -/
theorem fences_ok {rs : List Record} (pre : List Record) {targets : List Bytes} {physical : List (Bytes × Bytes)}
    {n : ℕ} (hnodup : (pre ++ rs).Nodup)
    (hf : ∀ r ∈ pre ++ rs, ∀ s ∈ pre ++ rs, r.unresolved = true → s.unresolved = true →
      relatedKeys r.key s.key = true → r = s)
    (ht : SeenIn (·.key.targetId) pre targets)
    (hp : SeenIn (fun r => (r.key.metadata.engineGeneration, r.key.metadata.containerId)) pre
      physical) :
    fences targets physical n rs = .ok (n + rs.countP Record.unresolved) := by
  induction rs generalizing pre targets physical n with
  | nil => simp [fences]
  | cons r rs ih =>
    have hshift : pre ++ r :: rs = (pre ++ [r]) ++ rs := by simp
    have hr : r ∈ pre ++ r :: rs := List.mem_append_right _ (List.mem_cons_self ..)
    -- a relative of `r` among the records before it would be `r` itself
    have hnot : r ∉ pre := fun hmem =>
      (List.disjoint_of_nodup_append hnodup) hmem (List.mem_cons_self ..)
    rw [hshift] at hnodup
    rw [fences]
    by_cases hun : r.unresolved = true
    · have hfresh : ¬ (r.key.targetId ∈ targets ∨
          (r.key.metadata.engineGeneration, r.key.metadata.containerId) ∈ physical) := by
        rintro (hmem | hmem)
        · obtain ⟨s, hs, hsu, hst⟩ := ht _ hmem
          refine hnot (hf s (List.mem_append_left _ hs) r hr hsu hun ?_ ▸ hs)
          simp [relatedKeys, hst]
        · obtain ⟨s, hs, hsu, hsp⟩ := hp _ hmem
          refine hnot (hf s (List.mem_append_left _ hs) r hr hsu hun ?_ ▸ hs)
          simp [relatedKeys, (Prod.mk.inj hsp).1, (Prod.mk.inj hsp).2]
      rw [if_pos hun, if_neg hfresh, ih (pre ++ [r]) hnodup (hshift ▸ hf) (ht.add hun) (hp.add hun),
        List.countP_cons, if_pos hun]
      congr 1; omega
    · rw [if_neg hun, ih (pre ++ [r]) hnodup (hshift ▸ hf) (ht.skip r) (hp.skip r),
        List.countP_cons, if_neg hun, Nat.add_zero]

theorem Journal.release_spec (j : Journal) (id : Bytes) (i : ℕ) :
    (j.release id i).binding = j.binding ∧ (j.release id i).usable = j.usable ∧
      (j.release id i).active.Sublist j.active := by
  rw [Journal.release]
  split_ifs
  · exact ⟨rfl, rfl, List.filter_sublist⟩
  · exact ⟨rfl, rfl, List.Sublist.refl _⟩

section
variable [Sha256] {b : Binding} {sys : System} {L L' : Ledger} {j : Journal}

variable {now : Clock} {f : Instant} {active : List Bytes}

theorem PruneStep.change (h : PruneStep active now f L L') :
    Change b (L.raise f) (L'.raise f) ∧ L'.floor = L.floor := by
  cases h with
  | expire r hr hu hid hexp => exact ⟨.expire r now hr hu hexp, rfl⟩
  | forget r hr ht hid hexp => exact ⟨.forget r hr ht hexp, rfl⟩

theorem PruneStep.fenced (h : PruneStep active now f L L') (hL : L.Wf b) (hf : L.Fenced active) :
    L'.Fenced active := by
  cases h with
  | expire r hr hu hid hexp =>
    refine hf.modify hL.sorted hr rfl fun hhot => ?_
    rcases Record.hot_iff.1 hhot with hun | ⟨hact, -⟩
    · exact absurd (Record.unresolved_iff.1 hun).2 (Clock.ne_zero now)
    · exact absurd hact hid
  | forget r hr ht hid hexp => exact hf.erase r.id

theorem PruneStep.mem_of_active (h : PruneStep active now f L L') (hL : L.Wf b) {s : Record}
    (hs : s ∈ L.entries) (hact : s.id ∈ active) : s ∈ L'.entries := by
  cases h with
  | expire r hr hu hid hexp =>
    exact (hL.sorted.mem_modify hr).2 (Or.inr ⟨hs, fun heq => hid (heq ▸ hact)⟩)
  | forget r hr ht hid hexp => exact Keyed.mem_erase.2 ⟨hs, fun heq => hid (heq ▸ hact)⟩

theorem PruneStep.wf (h : PruneStep active now f L L') (hL : L.Wf b) : L'.Wf b := by
  cases h with
  | expire r hr hu hid hexp => exact (Change.expire r now hr hu hexp).wf hL
  | forget r hr ht hid hexp => exact hL.erase r.id

theorem Pruned.spec (h : Pruned active now f L L') (hL : L.Wf b) (hf : L.Fenced active) :
    L'.Wf b ∧ L'.floor = L.floor ∧ L'.Fenced active ∧ Evolves b (L.raise f) (L'.raise f) ∧
      ∀ s ∈ L.entries, s.id ∈ active → s ∈ L'.entries := by
  induction h with
  | refl => exact ⟨hL, rfl, hf, .refl, fun _ hs _ => hs⟩
  | tail _ hstep ih =>
    obtain ⟨hwf, hfloor, hfen, hev, hkept⟩ := ih
    obtain ⟨hchange, hfloor'⟩ := hstep.change (b := b)
    exact ⟨hstep.wf hwf, hfloor'.trans hfloor, hstep.fenced hwf hfen, hev.tail hchange,
      fun s hs hact => hstep.mem_of_active hwf (hkept s hs hact) hact⟩

theorem pruneRecord_spec (active : List (Bytes × ℕ)) (now : Clock) {cutoff : Instant}
    (hcut : cutoff ≤ f) (hL : L.Wf b) {r : Record} (hr : r ∈ L.entries) :
    ∃ L' n, pruneRecord active now cutoff r (L.encode b) = .ok (L'.encode b, n) ∧
      Pruned (active.map Prod.fst) now f L L' ∧
      ∀ s ∈ L.entries, s.id ≠ r.id → s ∈ L'.entries := by
  rw [pruneRecord]
  by_cases hlive : active.any (·.1 = r.key.actionId) = true
  · rw [if_pos hlive]; exact ⟨L, 0, rfl, .refl, fun _ hs _ => hs⟩
  rw [if_neg hlive]
  have hid : r.id ∉ active.map Prod.fst := by
    intro hmem
    obtain ⟨p, hp, hpid⟩ := List.mem_map.1 hmem
    exact hlive (List.any_eq_true.2 ⟨p, hp, decide_eq_true hpid⟩)
  by_cases hexp : r.intent = 0 ∧ r.terminal = 0 ∧ r.key.metadata.request.expiresAt ≤ now
  · have hu := Record.undispatched_iff.2 ⟨hexp.1, hexp.2.1⟩
    rw [if_pos hexp, show r.key.actionId = r.id from rfl, insert_expired hL hr hu now]
    exact ⟨_, 1, rfl, .single (.expire r hr hu hid hexp.2.2),
      fun s hs hne => (hL.sorted.mem_modify hr).2 (Or.inr ⟨hs, hne⟩)⟩
  rw [if_neg hexp]
  by_cases hold : r.terminal ≠ 0 ∧ r.terminal ≤ cutoff ∧
      r.key.metadata.request.expiresAt ≤ cutoff
  · rw [if_pos hold, show r.key.actionId = r.id from rfl, delete_encode]
    exact ⟨_, 1, rfl, .single (.forget r hr hold.1 hid (hold.2.2.trans hcut)),
      fun s hs hne => Keyed.mem_erase.2 ⟨hs, hne⟩⟩
  · rw [if_neg hold]; exact ⟨L, 0, rfl, .refl, fun _ hs _ => hs⟩

theorem pruneLoop_spec (active : List (Bytes × ℕ)) (now : Clock) {cutoff : Instant}
    (hcut : cutoff ≤ f) {rs : List Record} (changed : ℕ) (hL : L.Wf b)
    (hf : L.Fenced (active.map Prod.fst)) (hrs : ∀ r ∈ rs, r ∈ L.entries)
    (hsorted : Keyed.Sorted Record.id rs) :
    ∃ L', pruneLoop active now cutoff changed rs (L.encode b) = .ok (L'.encode b) ∧
      Pruned (active.map Prod.fst) now f L L' := by
  induction rs generalizing L changed with
  | nil => exact ⟨L, rfl, .refl⟩
  | cons r rs ih =>
    obtain ⟨hlt, hsorted⟩ := List.pairwise_cons.1 hsorted
    rw [pruneLoop]
    by_cases h50 : changed = 50
    · rw [if_pos h50]; exact ⟨L, rfl, .refl⟩
    rw [if_neg h50]
    obtain ⟨L₁, n, hL₁, hp₁, hkept⟩ := pruneRecord_spec active now hcut hL
      (hrs r (List.mem_cons_self ..))
    obtain ⟨hwf, -, hf₁, -⟩ := hp₁.spec hL hf
    obtain ⟨L₂, hL₂, hp₂⟩ := ih (changed + n) hwf hf₁
      (fun s hs => hkept s (hrs s (List.mem_cons_of_mem _ hs)) (hlt s hs).ne') hsorted
    refine ⟨L₂, ?_, hp₁.trans hp₂⟩
    rw [hL₁]
    exact hL₂

/-- A prune: the floor rises, then records expire or are forgotten. -/
structure PruneEffect (active : List Bytes) (now : Clock) (L L' : Ledger) : Prop where
  floor : L.floor ≤ L'.floor
  max : L'.floor < maxInstant
  pruned : ∃ M : Ledger, Pruned active now L'.floor L M ∧ L' = M.raise L'.floor

theorem PruneEffect.spec (h : PruneEffect active now L L') (hL : L.Wf b) (hf : L.Fenced active) :
    Evolves b L L' ∧ L'.Fenced active ∧ ∀ s ∈ L.entries, s.id ∈ active → s ∈ L'.entries := by
  obtain ⟨M, hp, hM⟩ := h.pruned
  obtain ⟨-, -, hfen, hev, hkept⟩ := hp.spec hL hf
  have hfirst : Change b L (L.raise L'.floor) := .raise _ h.floor h.max
  rw [hM]
  exact ⟨.head hfirst (by rw [← hM] at hev ⊢; exact hev), ⟨hfen.count, hfen.fence⟩, hkept⟩

theorem pruneBody_spec (hL : L.Wf b) {active : List (Bytes × ℕ)}
    (hf : L.Fenced (active.map Prod.fst)) {db : Database} {u : Unit}
    (h : pruneBody b active now (L.encode b) = .ok (db, u)) :
    ∃ L', db = L'.encode b ∧ PruneEffect (active.map Prod.fst) now L L' := by
  simp only [pruneBody, floor_encode hL, records_encode hL, ok_bind] at h
  generalize hpf : (if (now : Instant) - 30 * day < L.floor then L.floor
    else (now : Instant) - 30 * day) = f at h
  have hday : (0 : ℤ) < day := by decide
  have hnow := now.2.2
  have hfloor := hL.floor
  have hbounds : L.floor ≤ f ∧ (now : Instant) - 30 * day ≤ f ∧ f < maxInstant := by
    rw [← hpf]
    split_ifs with hlt
    · exact ⟨le_refl _, hlt.le, hfloor.2⟩
    · refine ⟨not_lt.1 hlt, le_refl _, ?_⟩
      have : (now : Instant) - 30 * day < now := by
        have : (0 : ℤ) < 30 * day := by decide
        exact sub_lt_self _ this
      exact this.trans hnow
  obtain ⟨M, hM, hp⟩ := pruneLoop_spec active now (f := f) hbounds.2.1 0 hL hf
    (fun r hr => hr) hL.sorted
  rw [hM] at h
  simp only [setFloor_encode b M (hfloor.1.trans hbounds.1) hbounds.2.2, ok_bind, Except.ok.injEq,
    Prod.mk.injEq] at h
  exact ⟨M.raise f, h.1.symm, hbounds.1, hbounds.2.2, M, hp, rfl⟩

/-- The outcomes of `Prune` on a system that stores `L`. -/
inductive PruneResult (b : Binding) (sys : System) (L : Ledger) (c : Call) :
    System × Except Error Unit → Prop where
  | unchanged (e : Error) : PruneResult b sys L c (sys, .error e)
  | failed (j : Journal) (e : Error) (L' : Ledger) (hj : sys.journal = some j)
      (hu : j.usable = true)
      (h : L' = L ∨ PruneEffect (j.active.map Prod.fst) c.now L L') :
      PruneResult b sys L c
        ({ sys with db := L'.encode b, journal := some { j with failed := true } }, .error e)
  | done (j : Journal) (L' : Ledger) (hj : sys.journal = some j) (hu : j.usable = true)
      (h : PruneEffect (j.active.map Prod.fst) c.now L L') :
      PruneResult b sys L c ({ sys with db := L'.encode b }, .ok ())

theorem Represents.prune_result (h : Represents b sys L) (c : Call) :
    PruneResult b sys L c (sys.prune c) := by
  rw [System.prune]
  cases hj : sys.journal with
  | none => exact .unchanged _
  | some j =>
    obtain rfl := h.binding j hj
    simp only
    split_ifs with hlock hu
    · exact .unchanged _
    · exact .unchanged _
    · have hu : j.usable = true := by simpa using hu
      have hf := h.fenced
      rw [System.activeIds_of_usable hj hu] at hf
      have hspec : ∀ {db' : Database} {u : Unit},
          pruneBody j.binding j.active c.now sys.db = .ok (db', u) →
          ∃ L', db' = L'.encode j.binding ∧ PruneEffect (j.active.map Prod.fst) c.now L L' := by
        intro db' u hbody
        rw [h.db] at hbody
        exact pruneBody_spec h.wf hf hbody
      have hres := transactionGuarded_result false c.tx j.failed sys.db
        (pruneBody j.binding j.active c.now)
      generalize transactionGuarded false c.tx j.failed sys.db
        (pruneBody j.binding j.active c.now) = result at hres
      have hsame : ({ sys with journal := some j } : System) = sys := by rw [← hj]
      cases hres with
      | committed hbody =>
        obtain ⟨L', rfl, heff⟩ := hspec hbody
        have := PruneResult.done (c := c) (b := j.binding) j L' hj hu heff
        simpa only [← hj] using this
      | refused e =>
        simp only [hsame]
        exact .unchanged e
      | aborted =>
        rw [h.db]
        exact .failed j _ L hj hu (Or.inl rfl)
      | uncertain hbody =>
        obtain ⟨L', rfl, heff⟩ := hspec hbody
        exact .failed j _ L' hj hu (Or.inr heff)

theorem Represents.prune (h : Represents b sys L) (c : Call) :
    ∃ L', Represents b (sys.prune c).1 L' ∧ Evolves b L L' := by
  have hres := h.prune_result c
  generalize sys.prune c = result at hres
  have heffect : ∀ {j L'}, sys.journal = some j → j.usable = true →
      PruneEffect (j.active.map Prod.fst) c.now L L' →
      Evolves b L L' ∧ L'.Fenced sys.activeIds ∧
        ∀ s ∈ L.entries, s.id ∈ j.active.map Prod.fst → s ∈ L'.entries := by
    intro j L' hj hu heff
    have hf := h.fenced
    rw [System.activeIds_of_usable hj hu] at hf ⊢
    exact heff.spec h.wf hf
  cases hres with
  | unchanged e => exact ⟨L, h, .refl⟩
  | failed j e L' hj hu hor =>
    rcases hor with rfl | heff
    · exact ⟨L', h.failed hj h.wf h.unfenced, .refl⟩
    · obtain ⟨hev, hf, -⟩ := heffect hj hu heff
      exact ⟨L', h.failed hj (hev.wf h.wf) (hf.mono fun _ hid => absurd hid List.not_mem_nil), hev⟩
  | done j L' hj hu heff =>
    obtain ⟨hev, hf, hkept⟩ := heffect hj hu heff
    have hsync := h.synced j hj hu
    refine ⟨L', ⟨rfl, hev.wf h.wf, hf, h.binding, fun j' hj' _ => ?_⟩, hev⟩
    obtain rfl := Option.some.inj (hj.symm.trans hj')
    refine ⟨hsync.keys, fun p hp => ?_⟩
    obtain ⟨a, ha, hgen, hmut, hclosed, hid, hmem⟩ := hsync.attempt p hp
    exact ⟨a, ha, hgen, hmut, hclosed, hid,
      hkept _ hmem (by rw [hid]; exact List.mem_map_of_mem hp)⟩

/-! ## Close, open and crash -/

theorem Represents.close (h : Represents b sys L) : Represents b sys.close L := by
  rw [System.close]
  cases hj : sys.journal with
  | none => exact h
  | some j =>
    refine ⟨h.db, h.wf, ?_, ?_, ?_⟩
    · simpa [System.activeIds, Journal.usable] using h.unfenced
    · intro j' hj'
      obtain rfl := Option.some.inj hj'
      exact h.binding j hj
    · intro j' hj' hu
      obtain rfl := Option.some.inj hj'
      simp [Journal.usable] at hu

theorem Represents.crash (h : Represents b sys L) : Represents b sys.crash L where
  db := h.db
  wf := h.wf
  fenced := h.unfenced
  binding := fun j hj => by cases hj
  synced := fun j hj => by cases hj

/-- Attempts may leave the active map, and others may change. -/
theorem Represents.shrink (h : Represents b sys L) (hj : sys.journal = some j) {j' : Journal}
    (hbind : j'.binding = j.binding) (huse : j'.usable = j.usable)
    (hsub : j'.active.Sublist j.active) {attempts : List Attempt}
    (hatt : j.usable = true → ∀ p ∈ j'.active, attempts[p.2]? = sys.attempts[p.2]?) :
    Represents b { sys with journal := some j', attempts } L where
  db := h.db
  wf := h.wf
  fenced := by
    refine h.fenced.mono fun id hid => ?_
    rw [System.activeIds] at hid ⊢
    simp only [hj, huse] at hid ⊢
    split_ifs at hid ⊢
    · exact (hsub.map Prod.fst).mem hid
    · cases hid
  binding := by
    intro j'' hj''
    obtain rfl := Option.some.inj hj''
    rw [hbind, h.binding j hj]
  synced := by
    intro j'' hj'' hu
    obtain rfl := Option.some.inj hj''
    have hsync := h.synced j hj (huse ▸ hu)
    refine ⟨(hsub.map Prod.fst).nodup hsync.keys, fun p hp => ?_⟩
    obtain ⟨a, ha, hrest⟩ := hsync.attempt p (hsub.mem hp)
    exact ⟨a, (hatt (huse ▸ hu) p hp).trans ha, hrest⟩

theorem Represents.closeAttempt (h : Represents b sys L) (i : ℕ) :
    Represents b (sys.closeAttempt i) L := by
  rw [System.closeAttempt]
  cases ha : sys.attempts[i]? with
  | none => exact h
  | some a =>
    simp only
    split_ifs with hclosed hgen
    · exact h
    · cases hj : sys.journal with
      | none =>
        exact ⟨h.db, h.wf, h.unfenced, nofun, nofun⟩
      | some j =>
        refine h.shrink hj ?_ ?_ ?_ fun hu p hp => ?_
        · exact (j.release_spec _ i).1
        · exact (j.release_spec _ i).2.1
        · exact (j.release_spec _ i).2.2
        · -- an entry left in the map belongs to another attempt
          refine List.getElem?_set_ne fun hpi => ?_
          have hsync := h.synced j hj hu
          change p ∈ (j.release a.r.key.actionId i).active at hp
          rw [Journal.release] at hp
          split_ifs at hp with hlook
          · obtain ⟨hp, hne⟩ := List.mem_filter.1 hp
            obtain ⟨a', ha', -, -, -, hid, -⟩ := hsync.attempt p hp
            rw [← hpi, ha] at ha'
            obtain rfl := Option.some.inj ha'
            rw [show a.r.key.actionId = p.1 from hid] at hne
            simp at hne
          · obtain ⟨a', ha', -, -, -, hid, -⟩ := hsync.attempt p hp
            rw [← hpi, ha] at ha'
            obtain rfl := Option.some.inj ha'
            refine hlook (lookup_of_mem hsync.keys ?_)
            rw [hpi, show a.r.key.actionId = p.1 from hid]
            exact hp
    · cases hj : sys.journal with
      | none =>
        exact ⟨h.db, h.wf, h.unfenced, nofun, nofun⟩
      | some j =>
        refine h.shrink hj rfl rfl (List.Sublist.refl _) fun hu p hp => ?_
        refine List.getElem?_set_ne fun hpi => hgen ?_
        obtain ⟨a', ha', hgen', -⟩ := (h.synced j hj hu).attempt p hp
        rw [← hpi, ha] at ha'
        obtain rfl := Option.some.inj ha'
        exact hgen'

theorem verify_encode (hL : L.Wf b) (hf : L.Fenced []) : verify b (L.encode b) = .ok () := by
  have hnodup : L.entries.Nodup := hL.sorted.imp fun hlt heq => hlt.ne (congrArg Record.id heq)
  have hfence : fences [] [] 0 L.entries = .ok (0 + L.entries.countP Record.unresolved) := by
    refine fences_ok [] hnodup (fun r hr s hs hru hsu hrel => ?_)
      (fun x hx => absurd hx List.not_mem_nil) (fun x hx => absurd hx List.not_mem_nil)
    exact hf.fence r hr s hs (by rwa [Record.hot_nil]) (by rwa [Record.hot_nil]) hrel
  have hcount : L.entries.countP Record.unresolved ≤ 2 := by
    have := hf.count
    rwa [Record.hot_nil] at this
  have howned : ¬ ∃ e ∈ L.entries.flatMap Record.eventRows,
      ∀ a ∈ L.entries.map Record.actionRow, a.actionId ≠ e.actionId := by
    rintro ⟨e, he, hno⟩
    obtain ⟨r, hr, he⟩ := List.mem_flatMap.1 he
    exact hno r.actionRow (List.mem_map_of_mem hr) (mem_eventRows he).symm
  have happ : ¬ ((L.encode b).applicationId ≠ applicationID ∨ (L.encode b).userVersion ≠ 1) := by
    simp [Ledger.encode]
  have hschema : ¬ ((!((L.encode b).schema.all (· ∈ definitions))) = true ∨
      (L.encode b).schema.length ≠ definitions.length) := by
    have : (definitions.all (· ∈ definitions)) = true := by decide
    simp [Ledger.encode, this]
  rw [verify, if_neg happ, if_neg hschema]
  simp only [floor_encode hL, records_encode hL, ok_bind, hfence]
  rw [if_neg]
  rintro (hlt | howned')
  · omega
  · exact howned howned'

theorem binding_of_verify {b' : Binding} (h : verify b' (L.encode b) = .ok ()) : b' = b := by
  by_contra hne
  have hfloor : floor b' (L.encode b) = .error .recovery := by
    simp only [floor, Ledger.encode]
    rw [if_neg]
    exact fun heq => hne heq.symm
  rw [verify] at h
  split_ifs at h
  rw [hfloor] at h
  cases h

theorem Represents.openExisting (h : Represents b sys L) (b' : Binding) (o : Opening) :
    Represents b (sys.openExisting b' o).1 L := by
  rw [System.openExisting]
  split_ifs with hctx hlock
  · exact h
  · exact h
  · cases o.files <;> exact h
  · cases o.files with
    | some e => exact h
    | none =>
      cases hv : verify b' sys.db with
      | error e => exact h
      | ok u =>
        rw [h.db] at hv
        obtain rfl := binding_of_verify hv
        refine ⟨h.db, h.wf, h.unfenced, fun j hj => ?_, fun j hj _ => ?_⟩
        · obtain rfl := Option.some.inj hj
          rfl
        · obtain rfl := Option.some.inj hj
          exact ⟨List.nodup_nil, fun p hp => absurd hp List.not_mem_nil⟩

/-! ## Runs -/

theorem represents_provisioned (b : Binding) : Represents b (System.provisioned b) ⟨[], 0⟩ where
  db := rfl
  wf := ⟨List.Pairwise.nil, fun _ h => absurd h List.not_mem_nil, Nat.zero_le _, le_refl _, by decide⟩
  fenced := ⟨Nat.zero_le _, fun _ h => absurd h List.not_mem_nil⟩
  binding := by
    intro j hj
    obtain rfl := Option.some.inj hj
    rfl
  synced := by
    intro j hj _
    obtain rfl := Option.some.inj hj
    exact ⟨List.nodup_nil, fun p hp => absurd hp List.not_mem_nil⟩

/-- **One step refines the ledger.** -/
theorem Represents.step (h : Represents b sys L) (op : Op) :
    ∃ L', Represents b (sys.step op) L' ∧ Evolves b L L' := by
  cases op with
  | acquire c k guard => exact h.acquire c k guard
  | transition c i t => exact h.transition c i t
  | closeAttempt i => exact ⟨L, h.closeAttempt i, .refl⟩
  | prune c => exact h.prune c
  | close => exact ⟨L, h.close, .refl⟩
  | openExisting b' o => exact ⟨L, h.openExisting b' o, .refl⟩
  | crash => exact ⟨L, h.crash, .refl⟩

/-- **Every run refines the ledger.** -/
theorem Represents.run (h : Represents b sys L) (ops : List Op) :
    ∃ L', Represents b (sys.run ops) L' ∧ Evolves b L L' := by
  induction ops generalizing sys L with
  | nil => exact ⟨L, h, .refl⟩
  | cons op ops ih =>
    obtain ⟨L₁, h₁, hev₁⟩ := h.step op
    obtain ⟨L₂, h₂, hev₂⟩ := ih h₁
    exact ⟨L₂, h₂, hev₁.trans hev₂⟩

end

end ActionJournal

end HomeLab
