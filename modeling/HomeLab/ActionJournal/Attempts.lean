/-
  What attempts remember.

  An attempt keeps the record it was handed out with and follows its own
  transitions, also after its handle has failed or been replaced.  `Tracked`
  adds to the refinement what that memory says about the ledger: two attempts
  never both hold a dispatch of one action, and a dispatch that an attempt
  holds is spent.

  `Tracked.step` says what a step leaves alone: the memory of every other
  attempt, a dispatch that another attempt holds, and, unless the step is a
  prune, every finished record.
-/
import HomeLab.ActionCore.Worker
import HomeLab.ActionJournal.Guarantees

namespace HomeLab

namespace ActionJournal

open ActionCore Ledger

/-! ## Memory -/

/-- The record of every attempt, and whether it can dispatch. -/
def System.memory (sys : System) : List (Record × Bool) :=
  sys.attempts.map fun a => (a.r, a.mutable)

variable {m : Bool} {r : Record} {i : ℕ}

theorem System.memory_eq_some {sys : System} :
    sys.memory[i]? = some (r, m) ↔ ∃ a, sys.attempts[i]? = some a ∧ a.r = r ∧ a.mutable = m := by
  simp [System.memory, List.getElem?_map]

theorem System.memory_closeAttempt (sys : System) (i : ℕ) :
    (sys.closeAttempt i).memory = sys.memory := by
  rw [System.closeAttempt]
  cases ha : sys.attempts[i]? with
  | none => rfl
  | some a =>
    simp only
    split_ifs
    · rfl
    all_goals
      refine List.ext_getElem? fun j => ?_
      simp only [System.memory, List.getElem?_map, List.getElem?_set]
      split_ifs with hij hlt
      · subst hij; rw [ha]; rfl
      · subst hij; rw [ha]; rw [List.getElem?_eq_none (not_lt.1 hlt)] at ha; cases ha
      · rfl

theorem System.memory_close (sys : System) : sys.close.memory = sys.memory := by
  rw [System.close]
  cases sys.journal with
  | none => rfl
  | some j =>
    refine List.ext_getElem? fun i => ?_
    simp only [System.memory, List.getElem?_map, List.getElem?_mapIdx]
    cases sys.attempts[i]? with
    | none => rfl
    | some a =>
      simp only [Option.map_some]
      split_ifs <;> rfl

/-! ## What a step leaves alone -/

/-- Apart from what the attempt `i` does, its memory stays, and a dispatch it
    holds stays stored. -/
structure Frame (i : ℕ) (mem mem' : List (Record × Bool)) (L L' : Ledger) : Prop where
  memory : ∀ x, mem[i]? = some x → mem'[i]? = some x
  pending : ∀ r, mem[i]? = some (r, true) → r.unresolved = true → r ∈ L.entries → r ∈ L'.entries

/-- Every finished record stays. -/
def KeepsFinished (L L' : Ledger) : Prop := ∀ r ∈ L.entries, r.terminal ≠ 0 → r ∈ L'.entries

/-- Every unresolved record stays. -/
def KeepsUnresolved (L L' : Ledger) : Prop := ∀ r ∈ L.entries, r.unresolved = true → r ∈ L'.entries

theorem KeepsUnresolved.frame {L L' : Ledger} (h : KeepsUnresolved L L') (i : ℕ)
    {mem mem' : List (Record × Bool)} (hmem : ∀ x, mem[i]? = some x → mem'[i]? = some x) :
    Frame i mem mem' L L' := ⟨hmem, fun r _ hu hr => h r hr hu⟩

theorem Record.ne_of_undispatched {s : Record} (hr : r.undispatched = true)
    (hs : s.unresolved = true ∨ s.terminal ≠ 0) : s ≠ r := by
  rintro rfl
  obtain ⟨hi, ht⟩ := Record.undispatched_iff.1 hr
  rcases hs with hs | hs
  · exact (Record.unresolved_iff.1 hs).1 hi
  · exact hs ht

/-- `Existing` reports a known outcome only from a finished record. -/
theorem System.existing_known {sys : System} {code : Code} (h : sys.existing i = some code)
    (hk : code.known = true) :
    ∃ r m, sys.memory[i]? = some (r, m) ∧ r.terminal ≠ 0 ∧ r.code = some code := by
  rw [System.existing] at h
  cases ha : sys.attempts[i]? with
  | none =>
    rw [ha] at h
    obtain rfl := Option.some.inj h
    cases hk
  | some a =>
    cases hj : sys.journal with
    | none =>
      rw [ha, hj] at h
      obtain rfl := Option.some.inj h
      cases hk
    | some j =>
      rw [ha, hj] at h
      simp only at h
      split_ifs at h with h1 h2 h3
      · obtain rfl := Option.some.inj h
        cases hk
      · exact ⟨a.r, a.mutable, System.memory_eq_some.2 ⟨a, ha, rfl, rfl⟩, h2, h⟩
      · obtain rfl := Option.some.inj h
        cases hk

section
variable [Sha256]

theorem System.memory_openExisting (sys : System) (b : Binding) (o : Opening) :
    (sys.openExisting b o).1.memory = sys.memory := by
  rw [System.openExisting]
  repeat' split
  all_goals rfl

/-- What the memory of the attempts says about the ledger. -/
structure Remembered (memory : List (Record × Bool)) (L : Ledger) : Prop where
  canonical : ∀ (i : ℕ) (r : Record) (m : Bool), memory[i]? = some (r, m) → canonicalJournalMetadata r.key = some r.raw
  spent : ∀ (i : ℕ) (r : Record), memory[i]? = some (r, true) → r.intent ≠ 0 → L.Spent r.key r.raw
  once : ∀ (i j : ℕ) (r s : Record), memory[i]? = some (r, true) → memory[j]? = some (s, true) → r.intent ≠ 0 →
    s.intent ≠ 0 → r.raw = s.raw → i = j

variable {b : Binding} {memory : List (Record × Bool)} {L L' : Ledger}

theorem Remembered.evolves (h : Remembered memory L) (hL : L.Wf b) (hev : Evolves b L L') :
    Remembered memory L' where
  canonical := h.canonical
  spent := fun i r hi hr => (hev.spent hL (h.canonical i r true hi) (h.spent i r hi hr)).1
  once := h.once

theorem Remembered.append (h : Remembered memory L)
    (hk : canonicalJournalMetadata r.key = some r.raw) (hm : m = true → r.intent = 0) :
    Remembered (memory ++ [(r, m)]) L := by
  have hlast : ∀ {i s m'}, (memory ++ [(r, m)])[i]? = some (s, m') →
      memory[i]? = some (s, m') ∨ s = r ∧ m' = m := fun hi =>
    (getElem?_concat_eq hi).imp_right fun h => Prod.mk.inj h.2
  have hnew : ∀ {i : ℕ} {s : Record}, (memory ++ [(r, m)])[i]? = some (s, true) → s.intent ≠ 0 →
      memory[i]? = some (s, true) := by
    intro i s hi hs
    rcases hlast hi with hi | ⟨rfl, hm'⟩
    · exact hi
    · exact absurd (hm hm'.symm) hs
  refine ⟨fun i s m' hi => ?_, fun i s hi hs => h.spent i s (hnew hi hs) hs,
    fun i j s t hi hj hs ht => h.once i j s t (hnew hi hs) (hnew hj ht) hs ht⟩
  rcases hlast hi with hi | ⟨rfl, -⟩
  · exact h.canonical i s m' hi
  · exact hk

variable {now : Clock}

/-- A transition of an attempt that can dispatch, on a record that is stored. -/
theorem Remembered.set (h : Remembered memory L) (hL : L.Wf b) (hi : memory[i]? = some (r, true))
    (hr : r ∈ L.entries) {t : Transition} (ht : t.allowed r = true)
    (hchange : Change b L (L.modify r.id (t.apply now))) :
    Remembered (memory.set i (t.apply now r, true)) (L.modify r.id (t.apply now)) := by
  have hlt := (List.getElem?_eq_some_iff.1 hi).1
  have hself : (memory.set i (t.apply now r, true))[i]? = some (t.apply now r, true) :=
    List.getElem?_set_self hlt
  have hraw : (t.apply now r).raw = r.raw := by cases t <;> rfl
  have hev : Evolves b L (L.modify r.id (t.apply now)) := .single hchange
  have hcases : ∀ {j s m}, (memory.set i (t.apply now r, true))[j]? = some (s, m) →
      j = i ∧ s = t.apply now r ∨ j ≠ i ∧ memory[j]? = some (s, m) := by
    intro j s m hj
    by_cases hji : j = i
    · subst hji
      rw [hself] at hj
      exact Or.inl ⟨rfl, (Prod.mk.inj (Option.some.inj hj)).1.symm⟩
    · rw [List.getElem?_set_ne (Ne.symm hji)] at hj
      exact Or.inr ⟨hji, hj⟩
  -- another attempt cannot hold a dispatch of the same action
  have hother : ∀ {j s}, j ≠ i → memory[j]? = some (s, true) → s.intent ≠ 0 →
      s.raw = r.raw → False := by
    intro j s hji hj hs hsr
    by_cases hri : r.intent = 0
    · have hu : r.undispatched = false := (h.spent j s hj hs).marked r hr hsr.symm
      cases t with
      | intent =>
        simp only [Transition.allowed, Bool.and_eq_true, decide_eq_true_eq] at ht
        rw [Record.undispatched_iff.2 ⟨ht.2, ht.1⟩] at hu
        cases hu
      | finish code =>
        simp only [Transition.allowed, Bool.and_eq_true, decide_eq_true_eq] at ht
        rw [Record.undispatched_iff.2 ⟨hri, ht.1⟩] at hu
        cases hu
    · exact hji (h.once j i s r hj hi hs hri hsr)
  refine ⟨fun j s m hj => ?_, fun j s hj hs => ?_, fun j l s u hj hl hs hu hraw' => ?_⟩
  · rcases hcases hj with ⟨-, rfl⟩ | ⟨-, hj⟩
    · rw [apply_key, hraw]; exact h.canonical i r true hi
    · exact h.canonical j s m hj
  · rcases hcases hj with ⟨-, rfl⟩ | ⟨-, hj⟩
    · refine HasEvent.spent (hchange.wf hL) ⟨t.apply now r, ?_, rfl, ?_⟩
      · exact (hL.sorted.mem_modify hr).2 (Or.inl rfl)
      · simp [Record.undispatched, hs]
    · exact (hev.spent hL (h.canonical j s true hj) (h.spent j s hj hs)).1
  · rcases hcases hj with ⟨hji, rfl⟩ | ⟨hji, hj'⟩ <;>
      rcases hcases hl with ⟨hli, rfl⟩ | ⟨hli, hl'⟩
    · exact hji.trans hli.symm
    · exact (hother hli hl' hu (hraw'.symm.trans hraw)).elim
    · exact (hother hji hj' hs (hraw'.trans hraw)).elim
    · exact h.once j l s u hj' hl' hs hu hraw'

/-! ## What the calls leave alone -/

theorem Acquired.keeps (hL : L.Wf b) {live : List (Bytes × Attempt)} {k : Key} {raw : Bytes}
    (h : Acquired L live now k raw L' r m) :
    KeepsUnresolved L L' ∧ KeepsFinished L L' := by
  have hkeep : ∀ s ∈ L.entries, s.unresolved = true ∨ s.terminal ≠ 0 → s ∈ L'.entries := by
    intro s hs hdone
    cases h with
    | replay r hr hraw hu => exact hs
    | expired r hr hraw hu hidle hexp =>
      refine (hL.sorted.mem_modify hr).2 (Or.inr ⟨hs, fun hid => ?_⟩)
      exact Record.ne_of_undispatched hu hdone (hL.sorted.eq_of_key hs hr hid)
    | permit r hr hraw hu hclear => exact hs
    | admission hid hcreated hexp hfloor hsize hclear => exact Keyed.mem_insert.2 (Or.inr hs)
  exact ⟨fun s hs h => hkeep s hs (Or.inl h), fun s hs h => hkeep s hs (Or.inr h)⟩

theorem PruneStep.keeps {active : List Bytes} {f : Instant} (h : PruneStep active now f L L')
    (hL : L.Wf b) : KeepsUnresolved L L' := by
  intro s hs hun
  cases h with
  | expire r hr hu hid hexp =>
    refine (hL.sorted.mem_modify hr).2 (Or.inr ⟨hs, fun heq => ?_⟩)
    exact Record.ne_of_undispatched hu (Or.inl hun) (hL.sorted.eq_of_key hs hr heq)
  | forget r hr ht hid hexp =>
    refine Keyed.mem_erase.2 ⟨hs, fun heq => ht ?_⟩
    rw [← hL.sorted.eq_of_key hs hr heq]
    exact (Record.unresolved_iff.1 hun).2

theorem PruneEffect.keeps {active : List Bytes} (h : PruneEffect active now L L') (hL : L.Wf b) :
    KeepsUnresolved L L' := by
  obtain ⟨M, hp, hM⟩ := h.pruned
  have hkeep : KeepsUnresolved L M ∧ M.Wf b := by
    clear hM
    induction hp with
    | refl => exact ⟨fun s hs _ => hs, hL⟩
    | tail _ hstep ih =>
      exact ⟨fun s hs hun => hstep.keeps ih.2 s (ih.1 s hs hun) hun, hstep.wf ih.2⟩
  intro s hs hun
  rw [hM]
  exact hkeep.1 s hs hun

/-! ## Steps -/

/-- The system stores the ledger, and the memory of its attempts agrees. -/
structure Tracked (b : Binding) (sys : System) (L : Ledger) : Prop where
  rep : Represents b sys L
  mem : Remembered sys.memory L

theorem tracked_provisioned (b : Binding) : Tracked b (System.provisioned b) ⟨[], 0⟩ where
  rep := represents_provisioned b
  mem := by
    refine ⟨fun i r m h => ?_, fun i r h => ?_, fun i j r s h => ?_⟩
    all_goals simp [System.memory, System.provisioned] at h

theorem Represents.eq_of_db {sys : System} (h : Represents b sys L) (hL' : L'.Wf b)
    (hdb : sys.db = L'.encode b) : L = L' := by
  have hrec := records_encode h.wf
  rw [← h.db, hdb, records_encode hL'] at hrec
  have hfl := floor_encode h.wf
  rw [← h.db, hdb, floor_encode hL'] at hfl
  cases L
  cases L'
  simp only [Except.ok.injEq] at hrec hfl
  rw [hrec, hfl]

/-- The ledger a database stores. -/
def Database.ledger (b : Binding) (db : Database) : Ledger where
  entries := (records b db).toOption.getD []
  floor := (floor b db).toOption.getD 0

variable {sys : System}

theorem Represents.ledger_eq (h : Represents b sys L) : sys.db.ledger b = L := by
  rw [h.db, Database.ledger, records_encode h.wf, floor_encode h.wf]
  rfl

theorem Tracked.same (h : Tracked b sys L) {sys' : System} (hrep : Represents b sys' L)
    (hmem : sys'.memory = sys.memory) :
    Tracked b sys' L ∧ ∀ i, Frame i sys.memory sys'.memory L L :=
  ⟨⟨hrep, hmem ▸ h.mem⟩, fun i => by rw [hmem]; exact ⟨fun _ hx => hx, fun r _ _ hr => hr⟩⟩

theorem Tracked.acquire (h : Tracked b sys L) (c : Call) (k : Key)
    (guard : Option ExecutionCommit) :
    ∃ L', Tracked b (sys.acquire c k guard).1 L' ∧ Evolves b L L' ∧
      (∀ i, Frame i sys.memory (sys.acquire c k guard).1.memory L L') ∧ KeepsFinished L L' ∧
      ((∃ e, (sys.acquire c k guard).2 = .error e ∧
          (sys.acquire c k guard).1.memory = sys.memory) ∨
        (sys.acquire c k guard).2 = .ok sys.memory.length ∧
          ∃ r m, (sys.acquire c k guard).1.memory = sys.memory ++ [(r, m)] ∧ r.key = k ∧
            r ∈ L'.entries) := by
  obtain ⟨L', hrep, hev⟩ := h.rep.acquire c k guard
  have hres := h.rep.acquire_result c k guard
  generalize sys.acquire c k guard = result at hres hrep
  have hlen : sys.memory.length = sys.attempts.length := List.length_map _
  cases hres with
  | unchanged e =>
    obtain rfl := hrep.eq_of_db h.rep.wf h.rep.db
    obtain ⟨ht, hf⟩ := h.same hrep rfl
    exact ⟨L', ht, .refl, hf, fun _ hr _ => hr, Or.inl ⟨e, rfl, rfl⟩⟩
  | failed j e M hj hu hor =>
    have hkeeps : M.Wf b ∧ KeepsUnresolved L M ∧ KeepsFinished L M := by
      rcases hor with rfl | ⟨raw, r, m, hk, hb, hacq⟩
      · exact ⟨h.rep.wf, fun _ hr _ => hr, fun _ hr _ => hr⟩
      · exact ⟨(hacq.evolves hk hb).wf h.rep.wf, hacq.keeps h.rep.wf⟩
    obtain rfl := hrep.eq_of_db hkeeps.1 rfl
    exact ⟨L', ⟨hrep, h.mem.evolves h.rep.wf hev⟩, hev, fun i => hkeeps.2.1.frame i fun _ hx => hx,
      hkeeps.2.2, Or.inl ⟨e, rfl, rfl⟩⟩
  | handed j raw M r m hj hu hk hb hacq =>
    obtain rfl := hrep.eq_of_db ((hacq.evolves hk hb).wf h.rep.wf) rfl
    obtain ⟨hkey, hraw, hr⟩ := hacq.key_eq h.rep.wf hk
    obtain ⟨hunres, hfin⟩ := hacq.keeps h.rep.wf
    have hmem : (sys.hand j (L'.encode b) k r m guard).memory = sys.memory ++ [(r, m)] := by
      simp [System.hand, System.memory]
    -- an attempt that may dispatch is handed out only for a record without an intent
    have hnew : m = true → r.intent = 0 := by
      rintro rfl
      cases hacq with
      | permit r hr hraw hu hclear => exact (Record.undispatched_iff.1 hu).1
      | admission hid hcreated hexp hfloor hsize hclear => rfl
    refine ⟨L', ⟨hrep, ?_⟩, hev, fun i => hunres.frame i fun x hx => ?_, hfin,
      Or.inr ⟨congrArg Except.ok hlen.symm, r, m, hmem, hkey, hr⟩⟩
    · rw [hmem]
      refine (h.mem.evolves h.rep.wf hev).append ?_ hnew
      rw [hkey, hraw]; exact hk
    · rw [hmem, List.getElem?_append_left (List.getElem?_eq_some_iff.1 hx).1, hx]

/-- The record of an active attempt is stored, and the attempt can dispatch. -/
theorem Represents.active_memory (h : Represents b sys L) {j : Journal} (hj : sys.journal = some j)
    (hu : j.usable = true) {a : Attempt} (ha : sys.attempts[i]? = some a)
    (hact : (a.r.id, i) ∈ j.active) :
    sys.memory[i]? = some (a.r, true) ∧ a.r ∈ L.entries := by
  obtain ⟨a', ha', -, hmut, -, -, hmem⟩ := (h.synced j hj hu).attempt _ hact
  obtain rfl := Option.some.inj (ha.symm.trans ha')
  exact ⟨System.memory_eq_some.2 ⟨a, ha, rfl, hmut⟩, hmem⟩

/-- A transition of one attempt leaves the others alone. -/
theorem Remembered.frame_modify (h : Remembered sys.memory L) (hL : L.Wf b)
    (hi : sys.memory[i]? = some (r, true)) (hr : r ∈ L.entries) {f : Record → Record}
    {memory' : List (Record × Bool)} (hmem : ∀ j ≠ i, memory'[j]? = sys.memory[j]?) {j : ℕ}
    (hji : j ≠ i) : Frame j sys.memory memory' L (L.modify r.id f) := by
  refine ⟨fun x hx => (hmem j hji).trans hx, fun s hj hun hs => ?_⟩
  refine (hL.sorted.mem_modify hr).2 (Or.inr ⟨hs, fun hid => hji ?_⟩)
  obtain rfl := hL.sorted.eq_of_key hs hr hid
  have hint := (Record.unresolved_iff.1 hun).1
  exact h.once j i s s hj hi hint hint rfl

theorem keepsFinished_modify (hL : L.Wf b) (hr : r ∈ L.entries) (ht : r.terminal = 0)
    (f : Record → Record) : KeepsFinished L (L.modify r.id f) := by
  intro s hs hst
  refine (hL.sorted.mem_modify hr).2 (Or.inr ⟨hs, fun hid => hst ?_⟩)
  rw [hL.sorted.eq_of_key hs hr hid]
  exact ht

theorem Tracked.transition (h : Tracked b sys L) (c : Call) (i : ℕ) (t : Transition) :
    ∃ L', Tracked b (sys.transition c i t).1 L' ∧ Evolves b L L' ∧
      (∀ j ≠ i, Frame j sys.memory (sys.transition c i t).1.memory L L') ∧ KeepsFinished L L' ∧
      ((∃ e, (sys.transition c i t).2 = .error e ∧
          (sys.transition c i t).1.memory = sys.memory) ∨
        (sys.transition c i t).2 = .ok () ∧ ∃ r, sys.memory[i]? = some (r, true) ∧
          t.allowed r = true ∧
          (sys.transition c i t).1.memory = sys.memory.set i (t.apply c.now r, true) ∧
          t.apply c.now r ∈ L'.entries) := by
  obtain ⟨L', hrep, hev⟩ := h.rep.transition c i t
  have hres := h.rep.transition_result c i t
  generalize sys.transition c i t = result at hres hrep
  have hterm : ∀ {r : Record}, t.allowed r = true → r.terminal = 0 := by
    intro r hr
    cases t <;> simp only [Transition.allowed, Bool.and_eq_true, decide_eq_true_eq] at hr <;>
      exact hr.1
  cases hres with
  | unchanged e =>
    obtain rfl := hrep.eq_of_db h.rep.wf h.rep.db
    obtain ⟨ht, hf⟩ := h.same hrep rfl
    exact ⟨L', ht, .refl, fun j _ => hf j, fun _ hr _ => hr, Or.inl ⟨e, rfl, rfl⟩⟩
  | failed j a e M hj hu ha hact hallowed hor =>
    obtain ⟨hmem, hr⟩ := h.rep.active_memory hj hu ha hact
    -- the transaction may or may not have been committed when the handle failed
    have hspec : M.Wf b ∧ (∀ l ≠ i, Frame l sys.memory sys.memory L M) ∧ KeepsFinished L M := by
      rcases hor with rfl | ⟨rfl, hchange⟩
      · exact ⟨h.rep.wf, fun l _ => ⟨fun _ hx => hx, fun _ _ _ hs => hs⟩, fun _ hr _ => hr⟩
      · exact ⟨hchange.wf h.rep.wf,
          fun l hl => h.mem.frame_modify h.rep.wf hmem hr (fun _ _ => rfl) hl,
          keepsFinished_modify h.rep.wf hr (hterm hallowed) _⟩
    obtain rfl := hrep.eq_of_db hspec.1 rfl
    exact ⟨L', ⟨hrep, h.mem.evolves h.rep.wf hev⟩, hev, hspec.2.1, hspec.2.2,
      Or.inl ⟨e, rfl, rfl⟩⟩
  | done j a hj hu ha hact hallowed hchange =>
    obtain ⟨hmem, hr⟩ := h.rep.active_memory hj hu ha hact
    obtain rfl := hrep.eq_of_db (hchange.wf h.rep.wf) rfl
    have hset : ({ sys with
        db := (L.modify a.r.id (t.apply c.now)).encode b
        attempts := sys.attempts.set i { a with r := t.apply c.now a.r } } : System).memory =
        sys.memory.set i (t.apply c.now a.r, true) := by
      have hmut : a.mutable = true := by
        obtain ⟨a', ha', -, hmut⟩ := System.memory_eq_some.1 hmem
        rwa [← Option.some.inj (ha.symm.trans ha')] at hmut
      simp [System.memory, List.map_set, hmut]
    rw [hset]
    refine ⟨_, ⟨hrep, hset ▸ h.mem.set h.rep.wf hmem hr hallowed hchange⟩, hev, fun l hl => ?_,
      keepsFinished_modify h.rep.wf hr (hterm hallowed) _, Or.inr ⟨rfl, a.r, hmem, hallowed, rfl,
        (h.rep.wf.sorted.mem_modify hr).2 (Or.inl rfl)⟩⟩
    exact h.mem.frame_modify h.rep.wf hmem hr (fun _ hl => List.getElem?_set_ne (Ne.symm hl)) hl

theorem Tracked.prune (h : Tracked b sys L) (c : Call) :
    ∃ L', Tracked b (sys.prune c).1 L' ∧ Evolves b L L' ∧
      ∀ i, Frame i sys.memory (sys.prune c).1.memory L L' := by
  obtain ⟨L', hrep, hev⟩ := h.rep.prune c
  have hres := h.rep.prune_result c
  generalize sys.prune c = result at hres hrep
  have hspec : ∀ {j M}, sys.journal = some j → j.usable = true →
      PruneEffect (j.active.map Prod.fst) c.now L M → M.Wf b ∧ KeepsUnresolved L M := by
    intro j M hj hu heff
    have hf := h.rep.fenced
    rw [System.activeIds_of_usable hj hu] at hf
    exact ⟨(heff.spec h.rep.wf hf).1.wf h.rep.wf, heff.keeps h.rep.wf⟩
  cases hres with
  | unchanged e =>
    obtain ⟨ht, hf⟩ := h.same h.rep rfl
    exact ⟨L, ht, .refl, hf⟩
  | failed j e M hj hu hor =>
    have hM : M.Wf b ∧ KeepsUnresolved L M := by
      rcases hor with rfl | heff
      · exact ⟨h.rep.wf, fun _ hr _ => hr⟩
      · exact hspec hj hu heff
    obtain rfl := hrep.eq_of_db hM.1 rfl
    exact ⟨L', ⟨hrep, h.mem.evolves h.rep.wf hev⟩, hev, fun i => hM.2.frame i fun _ hx => hx⟩
  | done j M hj hu heff =>
    obtain ⟨hwf, hkeeps⟩ := hspec hj hu heff
    obtain rfl := hrep.eq_of_db hwf rfl
    exact ⟨L', ⟨hrep, h.mem.evolves h.rep.wf hev⟩, hev, fun i => hkeeps.frame i fun _ hx => hx⟩

/-- What every step leaves alone. -/
theorem Tracked.step (h : Tracked b sys L) (op : Op) :
    ∃ L', Tracked b (sys.step op) L' ∧ Evolves b L L' ∧
      (∀ i, (∀ c t, op ≠ .transition c i t) →
        Frame i sys.memory (sys.step op).memory L L') ∧
      ((∀ c, op ≠ .prune c) → KeepsFinished L L') := by
  have hsame : ∀ {sys' : System}, Represents b sys' L → sys'.memory = sys.memory →
      ∃ L', Tracked b sys' L' ∧ Evolves b L L' ∧
        (∀ i, (∀ c t, op ≠ .transition c i t) → Frame i sys.memory sys'.memory L L') ∧
        ((∀ c, op ≠ .prune c) → KeepsFinished L L') := by
    intro sys' hrep hmem
    obtain ⟨ht, hf⟩ := h.same hrep hmem
    exact ⟨L, ht, .refl, fun i _ => hf i, fun _ _ hr _ => hr⟩
  cases op with
  | acquire c k guard =>
    obtain ⟨L', ht, hev, hf, hfin, -⟩ := h.acquire c k guard
    exact ⟨L', ht, hev, fun i _ => hf i, fun _ => hfin⟩
  | transition c i t =>
    obtain ⟨L', ht, hev, hf, hfin, -⟩ := h.transition c i t
    refine ⟨L', ht, hev, fun l hl => hf l ?_, fun _ => hfin⟩
    rintro rfl
    exact hl c t rfl
  | closeAttempt i => exact hsame (h.rep.closeAttempt i) (sys.memory_closeAttempt i)
  | prune c =>
    obtain ⟨L', ht, hev, hf⟩ := h.prune c
    exact ⟨L', ht, hev, fun i _ => hf i, fun hno => absurd rfl (hno c)⟩
  | close => exact hsame h.rep.close sys.memory_close
  | openExisting b' o => exact hsame (h.rep.openExisting b' o) (sys.memory_openExisting b' o)
  | crash => exact hsame h.rep.crash rfl

/-- An attempt keeps its key and its dispatch. -/
theorem Tracked.memory_step (h : Tracked b sys L) (op : Op) (hi : sys.memory[i]? = some (r, m)) :
    ∃ r', (sys.step op).memory[i]? = some (r', m) ∧ r'.key = r.key ∧
      (r.intent ≠ 0 → r'.intent ≠ 0) := by
  by_cases hop : ∃ c t, op = .transition c i t
  · obtain ⟨c, t, rfl⟩ := hop
    obtain ⟨-, -, -, -, -, ⟨e, -, hmem⟩ | ⟨-, r', hi', hallowed, hmem, -⟩⟩ := h.transition c i t
    · exact ⟨r, by rw [System.step, hmem]; exact hi, rfl, id⟩
    · obtain ⟨rfl, rfl⟩ := Prod.mk.inj (Option.some.inj (hi.symm.trans hi'))
      refine ⟨t.apply c.now r, ?_, apply_key .., ?_⟩
      · rw [System.step, hmem, List.getElem?_set_self (List.getElem?_eq_some_iff.1 hi).1]
      · cases t with
        | intent => exact fun _ => Clock.ne_zero c.now
        | finish code => exact id
  · obtain ⟨L', -, -, hf, -⟩ := h.step op
    exact ⟨r, (hf i fun c t heq => hop ⟨c, t, heq⟩).memory _ hi, rfl, id⟩

theorem Tracked.length_step (h : Tracked b sys L) (op : Op) :
    sys.memory.length ≤ (sys.step op).memory.length := by
  by_contra hlt
  rw [not_le] at hlt
  obtain ⟨r', hr', -⟩ := h.memory_step op (List.getElem?_eq_getElem hlt)
  exact absurd (List.getElem?_eq_some_iff.1 hr').1 (lt_irrefl _)

/-- A dispatched action is fenced. -/
theorem Tracked.fence (h : Tracked b sys L) (hr : r ∈ L.entries) (hun : r.unresolved = true) :
    sys.db.hasEvent r.raw 1 = true ∧
      ∀ a ∈ sys.db.actions, sys.db.hasEvent a.metadata 1 = true →
        sys.db.hasEvent a.metadata 2 = false → a.metadata ≠ r.raw →
        a.targetId ≠ r.key.targetId ∧ (a.engineGeneration, a.containerId) ≠
          (r.key.metadata.engineGeneration, r.key.metadata.containerId) := by
  have hwf := h.rep.wf
  rw [h.rep.db]
  refine ⟨(hasIntent_encode hwf).2 ⟨r, hr, rfl, (Record.unresolved_iff.1 hun).1⟩, ?_⟩
  intro a ha hint hterm hne
  obtain ⟨s, hs, rfl⟩ := List.mem_map.1 ha
  have hsun : s.unresolved = true := by
    obtain ⟨s', hs', hraw, hint'⟩ := (hasIntent_encode hwf).1 hint
    obtain rfl := hwf.eq_of_raw hs' hs hraw
    refine Record.unresolved_iff.2 ⟨hint', ?_⟩
    by_contra ht
    have := (hasEvent_encode hwf).2 ⟨s', hs', rfl, (exists_terminal_row (hwf.valid s' hs')).2 ht⟩
    rw [hraw] at this
    exact absurd (this.symm.trans hterm) (by decide)
  have hrel : relatedKeys s.key r.key = false := by
    by_contra hrel
    rw [Bool.not_eq_false] at hrel
    have := h.rep.unfenced.fence s hs r hr (by rwa [Record.hot_nil]) (by rwa [Record.hot_nil]) hrel
    exact hne (congrArg Record.raw this)
  simp only [relatedKeys, Bool.or_eq_false_iff, decide_eq_false_iff_not, Bool.and_eq_false_iff]
    at hrel
  refine ⟨hrel.1, fun hpair => ?_⟩
  obtain ⟨h1, h2⟩ := Prod.mk.inj hpair
  rcases hrel.2 with h' | h'
  · exact h' h1
  · exact h' h2

/-! ## Replay -/

variable {k : Key} {raw : Bytes} {code : Code}

/-- **Every later `Acquire` of an action that has ended replays its code.** -/
theorem Represents.acquire_ended (h : Represents b sys L)
    (hk : canonicalJournalMetadata k = some raw) (he : L.Ended code k raw) (c : Call)
    (guard : Option ExecutionCommit) (hi : (sys.acquire c k guard).2 = .ok i) :
    (sys.acquire c k guard).1.existing i = some code := by
  have hres := h.acquire_result c k guard
  generalize sys.acquire c k guard = result at hres hi
  cases hres with
  | unchanged | failed => cases hi
  | handed j raw' M r m hj hu hk' hb hacq =>
    obtain rfl := Except.ok.inj hi
    obtain rfl := Option.some.inj (hk.symm.trans hk')
    have hmut : m = false ∧ r.terminal ≠ 0 ∧ r.code = some code := by
      cases hacq with
      | replay r hr hraw hu => exact ⟨rfl, he.marked r hr hraw⟩
      | expired r hr hraw hu hidle hexp =>
        exact absurd (Record.undispatched_iff.1 hu).2 (he.marked r hr hraw).1
      | permit r hr hraw hu hclear =>
        exact absurd (Record.undispatched_iff.1 hu).2 (he.marked r hr hraw).1
      | admission hid hcreated hexp hfloor hsize hclear =>
        refine absurd (he.forgotten fun s hs hraw => ?_) (not_le.2 hfloor)
        exact hid s hs (congrArg Key.actionId ((h.wf.valid s hs).key_eq hk hraw))
    obtain ⟨rfl, hterm, hcode⟩ := hmut
    simp [System.existing, System.hand, hu, hterm, hcode]

theorem Represents.acquire_stored (h : Represents b sys L) {j : Journal} (hj : sys.journal = some j)
    (hu : j.usable = true) (hr : r ∈ L.entries) (hk : canonicalJournalMetadata k = some r.raw)
    (ht : r.terminal ≠ 0) (now : Clock) (guard : Option ExecutionCommit) :
    (sys.acquire { now } k guard).2 = .ok sys.attempts.length := by
  have hwf := h.wf.valid r hr
  obtain rfl := h.binding j hj
  have hkey : r.key = k := hwf.key_eq hk rfl
  have hfind : Keyed.find Record.id k.actionId L.entries = some r :=
    h.wf.sorted.find_eq_some.2 ⟨hr, congrArg Key.actionId hkey⟩
  have hadmits : j.binding.admits k = true := hkey ▸ hwf.binding
  have hbody : acquireBody j.binding (sys.live j) now k r.raw sys.db = .ok (sys.db, r, false) := by
    rw [h.db, acquireBody, read_encode h.wf, hfind]
    simp [ht]
  have htx : transactionGuarded guard.isSome {} j.failed sys.db
      (acquireBody j.binding (sys.live j) now k r.raw) = (.ok (r, false), j.failed, sys.db) := by
    simp [transactionGuarded, settle, hbody]
  rw [System.acquire, hj]
  simp [hk, hadmits, hu, htx]

end

end ActionJournal

end HomeLab
