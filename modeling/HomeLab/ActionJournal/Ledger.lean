/-
  The journal as a ledger.

  The abstract journal is a list of well-formed records in the order of their
  action ids, with the floor below which expired actions may have been
  forgotten.  `Change` says once what can ever happen to it: an action is
  admitted, its intent is recorded, it is finished or expired, a finished
  action is forgotten, the floor rises.

  Every invariant is derived from that.  `Fenced` is the invariant of
  concurrent dispatch, relative to the active actions: at most two records are
  unresolved or may become so, and no two of them share a target.  `Marked` is
  the invariant of one action: that it has been dispatched (`Spent`) or has
  ended with a code (`Ended`) stays true, even after it has been forgotten.
-/
import Mathlib.Logic.Relation
import HomeLab.ActionJournal.Journal

namespace HomeLab

namespace ActionJournal

open ActionCore

/-! ## Records -/

def Record.id (r : Record) : Bytes := r.key.actionId

def Record.expiresAt (r : Record) : Instant := r.key.metadata.request.expiresAt

/-- Neither an intent nor a terminal event. -/
def Record.undispatched (r : Record) : Bool := r.intent = 0 && r.terminal = 0

/-- The record of an action that expired before its dispatch. -/
def Record.expired (now : Instant) (r : Record) : Record :=
  { r with terminal := now, code := some .denied, reason := .expiredUndispatched }

variable {r : Record} {now : Clock} {f : Record → Record}

theorem Record.undispatched_iff : r.undispatched = true ↔ r.intent = 0 ∧ r.terminal = 0 := by
  simp [Record.undispatched]

theorem Record.unresolved_iff : r.unresolved = true ↔ r.intent ≠ 0 ∧ r.terminal = 0 := by
  simp [Record.unresolved]

/-- A record whose container may be in use: its dispatch is unresolved, or it
    is held by an active attempt that may still dispatch it. -/
def Record.hot (active : List Bytes) (r : Record) : Bool :=
  r.unresolved || (r.id ∈ active && r.undispatched)

theorem Record.hot_iff {active : List Bytes} :
    r.hot active = true ↔ r.unresolved = true ∨ r.id ∈ active ∧ r.undispatched = true := by
  simp [Record.hot]

theorem Record.hot_nil : Record.hot [] = Record.unresolved := by
  funext r
  simp [Record.hot]

theorem relatedKeys_comm (k k' : Key) : relatedKeys k k' = relatedKeys k' k := by
  simp only [relatedKeys, eq_comm]

theorem Clock.ne_zero (t : Clock) : (t : Instant) ≠ 0 := t.2.1.ne'

/-- A transition does not heat a record up. -/
theorem hot_of_transition {active : List Bytes} {t : Transition} (ht : t.allowed r = true)
    (hid : r.id ∈ active) (h : (t.apply now r).hot active = true) :
    r.hot active = true := by
  cases t with
  | intent =>
    simp only [Transition.allowed, Bool.and_eq_true, decide_eq_true_eq] at ht
    exact Record.hot_iff.2 (Or.inr ⟨hid, Record.undispatched_iff.2 ⟨ht.2, ht.1⟩⟩)
  | finish code =>
    rcases Record.hot_iff.1 h with h | ⟨-, h⟩
    · exact absurd (Record.unresolved_iff.1 h).2 (Clock.ne_zero now)
    · exact absurd (Record.undispatched_iff.1 h).2 (Clock.ne_zero now)

theorem apply_key (t : Transition) (now : Instant) (r : Record) : (t.apply now r).key = r.key := by
  cases t <;> rfl

/-! ## Ledgers -/

structure Ledger where
  entries : List Record
  floor : Instant

namespace Ledger

def insert (L : Ledger) (r : Record) : Ledger :=
  { L with entries := Keyed.insert Record.id r L.entries }

def modify (L : Ledger) (id : Bytes) (f : Record → Record) : Ledger :=
  { L with entries := Keyed.modify Record.id id f L.entries }

def erase (L : Ledger) (id : Bytes) : Ledger :=
  { L with entries := Keyed.erase Record.id id L.entries }

/-! ### Concurrent dispatch -/

/-- At most two records are hot, and no two of them share a target. -/
structure Fenced (active : List Bytes) (L : Ledger) : Prop where
  count : L.entries.countP (Record.hot active) ≤ 2
  fence : ∀ r ∈ L.entries, ∀ s ∈ L.entries, r.hot active = true → s.hot active = true →
    relatedKeys r.key s.key = true → r = s

variable {L : Ledger} {active : List Bytes}

theorem Fenced.mono (h : L.Fenced active) {active' : List Bytes}
    (hsub : ∀ id ∈ active', id ∈ active) : L.Fenced active' := by
  have hot : ∀ r : Record, r.hot active' = true → r.hot active = true := by
    intro r hr
    rw [Record.hot_iff] at hr ⊢
    exact hr.imp id fun ⟨hid, hu⟩ => ⟨hsub _ hid, hu⟩
  exact ⟨(List.countP_mono_left fun r _ => hot r).trans h.count,
    fun r hr s hs hr' hs' => h.fence r hr s hs (hot r hr') (hot s hs')⟩

theorem Fenced.insert (h : L.Fenced active) (hr : r.hot active = false) :
    (L.insert r).Fenced active where
  count := by
    rw [Ledger.insert, Keyed.countP_insert, hr]
    simpa using h.count
  fence := by
    intro s hs t ht hs' ht'
    rcases Keyed.mem_insert.1 hs with rfl | hs
    · rw [hr] at hs'; cases hs'
    · rcases Keyed.mem_insert.1 ht with rfl | ht
      · rw [hr] at ht'; cases ht'
      · exact h.fence s hs t ht hs' ht'

/-- A record may change as long as it does not become hot. -/
theorem Fenced.modify (h : L.Fenced active) (hL : Keyed.Sorted Record.id L.entries)
    (hr : r ∈ L.entries) (hkey : (f r).key = r.key)
    (hhot : (f r).hot active = true → r.hot active = true) : (L.modify r.id f).Fenced active where
  count := by
    have hc := hL.countP_modify hr f (Record.hot active)
    have := h.count
    simp only [Ledger.modify]
    split_ifs at hc with h1 h2 h2
    · omega
    · omega
    · exact absurd (hhot h2) h1
    · omega
  fence := by
    intro s hs t ht hs' ht' hrel
    rcases (hL.mem_modify hr).1 hs with rfl | ⟨hs, hsne⟩ <;>
      rcases (hL.mem_modify hr).1 ht with rfl | ⟨ht, htne⟩
    · rfl
    · rw [hkey] at hrel
      have := h.fence r hr t ht (hhot hs') ht' hrel
      exact absurd (congrArg Record.id this).symm htne
    · rw [hkey] at hrel
      have := h.fence s hs r hr hs' (hhot ht') hrel
      exact absurd (congrArg Record.id this) hsne
    · exact h.fence s hs t ht hs' ht' hrel

theorem Fenced.erase (h : L.Fenced active) (id : Bytes) : (L.erase id).Fenced active where
  count := (List.Sublist.countP_le List.filter_sublist).trans h.count
  fence := fun r hr s hs =>
    h.fence r (Keyed.mem_erase.1 hr).1 s (Keyed.mem_erase.1 hs).1

/-- An action becomes active when there is room and nothing hot is related to
    it. -/
theorem Fenced.grant (h : L.Fenced active) (hL : Keyed.Sorted Record.id L.entries)
    (hr : r ∈ L.entries)
    (hclear : ∀ s ∈ L.entries, s.hot active = true → relatedKeys s.key r.key = false)
    (hroom : L.entries.countP (Record.hot active) < 2) : L.Fenced (r.id :: active) := by
  have hot : ∀ s ∈ L.entries, s.hot (r.id :: active) = true → s.hot active = true ∨ s = r := by
    intro s hs hs'
    rw [Record.hot_iff, List.mem_cons] at hs'
    rw [Record.hot_iff]
    rcases hs' with hs' | ⟨hid | hid, hu⟩
    · exact Or.inl (Or.inl hs')
    · exact Or.inr (hL.eq_of_key hs hr hid)
    · exact Or.inl (Or.inr ⟨hid, hu⟩)
  constructor
  · have := hL.countP_le_succ r.id (p := Record.hot (r.id :: active))
      (q := Record.hot active) fun s hs hs' => (hot s hs hs').imp_right (congrArg Record.id)
    omega
  · intro s hs t ht hs' ht' hrel
    rcases hot s hs hs' with hs'' | rfl <;> rcases hot t ht ht' with ht'' | rfl
    · exact h.fence s hs t ht hs'' ht'' hrel
    · rw [hclear s hs hs''] at hrel; cases hrel
    · rw [relatedKeys_comm, hclear t ht ht''] at hrel; cases hrel
    · rfl

/-! ### Stored events -/

/-- An intent is stored for the canonical text `raw`. -/
def HasIntent (raw : Bytes) (L : Ledger) : Prop := ∃ r ∈ L.entries, r.raw = raw ∧ r.intent ≠ 0

/-- An intent or a terminal event is stored for `raw`. -/
def HasEvent (raw : Bytes) (L : Ledger) : Prop :=
  ∃ r ∈ L.entries, r.raw = raw ∧ r.undispatched = false

theorem HasIntent.hasEvent {L : Ledger} {raw : Bytes} (h : L.HasIntent raw) : L.HasEvent raw := by
  obtain ⟨r, hr, hraw, hi⟩ := h
  exact ⟨r, hr, hraw, by simp [Record.undispatched, hi]⟩

/-! ### Lasting marks -/

/-- Every stored record of the action satisfies `P`; if none is stored, the
    action is forgotten and its expiry lies below the floor. -/
structure Marked (P : Record → Prop) (k : Key) (raw : Bytes) (L : Ledger) : Prop where
  marked : ∀ r ∈ L.entries, r.raw = raw → P r
  forgotten : (∀ r ∈ L.entries, r.raw ≠ raw) → k.metadata.request.expiresAt ≤ L.floor

/-- A mark that only dispatched records carry, and that `Finish` keeps. -/
structure Lasting (P : Record → Prop) : Prop where
  dispatched : ∀ r, P r → r.undispatched = false
  finish : ∀ (r : Record) (now : Clock) (code : Code), r.terminal = 0 → P r →
    P ((Transition.finish code).apply now r)

/-- The action can no longer be dispatched: it has been, or it is forgotten. -/
abbrev Spent : Key → Bytes → Ledger → Prop := Marked fun r => r.undispatched = false

/-- The action has ended with the code, and may be forgotten since. -/
abbrev Ended (code : Code) : Key → Bytes → Ledger → Prop :=
  Marked fun r => r.terminal ≠ 0 ∧ r.code = some code

theorem lasting_spent : Lasting fun r => r.undispatched = false where
  dispatched := fun _ h => h
  finish := fun r now code _ _ => by
    simp [Record.undispatched, Transition.apply, Clock.ne_zero now]

theorem lasting_ended (code : Code) : Lasting fun r => r.terminal ≠ 0 ∧ r.code = some code where
  dispatched := fun r h => by simp [Record.undispatched, h.1]
  finish := fun r _ _ ht h => absurd ht h.1

end Ledger

section
variable [Sha256]

/-! ## Well-formed records -/

/-- The records the journal stores. -/
structure Record.Wf (b : Binding) (r : Record) : Prop where
  canonical : canonicalJournalMetadata r.key = some r.raw
  binding : b.admits r.key = true
  reading : ClockReading r.admitted
  admitted : r.key.metadata.request.createdAt ≤ r.admitted ∧ r.admitted < r.expiresAt
  intent : r.intent ≠ 0 → ClockReading r.intent ∧ r.admitted ≤ r.intent ∧ r.intent < r.expiresAt
  terminal : r.terminal ≠ 0 → ClockReading r.terminal ∧ r.admitted ≤ r.terminal ∧
    (r.intent ≠ 0 → r.intent ≤ r.terminal) ∧
    ∃ c, r.code = some c ∧
      terminalAllowed r.key.metadata.request.operation (r.intent ≠ 0) c r.reason = true ∧
      (c = .denied → r.expiresAt ≤ r.terminal)
  pending : r.terminal = 0 → r.code = none ∧ r.reason = .none

theorem Record.Wf.key_eq {b : Binding} (hr : r.Wf b) {k : Key} {raw : Bytes}
    (hk : canonicalJournalMetadata k = some raw) (h : r.raw = raw) : r.key = k :=
  canonicalJournalMetadata_injective (h ▸ hr.canonical) hk

section
variable {b : Binding}

theorem Record.Wf.intended (hr : r.Wf b) (hu : r.undispatched = true) (hadm : r.admitted ≤ now)
    (hexp : now < r.expiresAt) :
    (Transition.intent.apply now r).Wf b where
  intent := fun _ => ⟨now.2, hadm, hexp⟩
  terminal := fun h => absurd (Record.undispatched_iff.1 hu).2 h
  __ := hr

theorem Record.Wf.finished (hr : r.Wf b) {code : Code} (ht : r.terminal = 0)
    (hadm : r.admitted ≤ now) (hint : r.intent ≠ 0 → r.intent ≤ now)
    (hcode : terminalAllowed r.key.metadata.request.operation (r.intent ≠ 0) code .none = true) :
    ((Transition.finish code).apply now r).Wf b where
  __ := hr
  terminal := by
    have hreason := (hr.pending ht).2
    refine fun _ => ⟨now.2, hadm, hint, code, rfl, ?_, ?_⟩
    · simp only [Transition.apply, hreason]; exact hcode
    · rintro rfl
      simp [terminalAllowed] at hcode
  pending := fun h => absurd h (Clock.ne_zero now)

theorem Record.Wf.expired (hr : r.Wf b) (hu : r.undispatched = true) (hexp : r.expiresAt ≤ now) :
    (r.expired now).Wf b where
  __ := hr
  terminal := by
    have hi : r.intent = 0 := (Record.undispatched_iff.1 hu).1
    have hadm : r.admitted ≤ now := hr.admitted.2.le.trans hexp
    refine fun _ => ⟨now.2, hadm, fun h => absurd hi h, .denied, rfl, ?_, fun _ => hexp⟩
    simp [Record.expired, hi, terminalAllowed]
  pending := fun h => absurd h (Clock.ne_zero now)

end

/-! ## Changes -/

namespace Ledger

structure Wf (b : Binding) (L : Ledger) : Prop where
  sorted : Keyed.Sorted Record.id L.entries
  valid : ∀ r ∈ L.entries, r.Wf b
  size : L.entries.length ≤ maxRecords
  floor : 0 ≤ L.floor ∧ L.floor < maxInstant

/-- What can happen to a ledger. -/
inductive Change (b : Binding) (L : Ledger) : Ledger → Prop where
  | admission (r : Record) (hr : r.Wf b) (hu : r.undispatched = true)
      (hid : ∀ s ∈ L.entries, s.id ≠ r.id) (hfloor : L.floor < r.expiresAt)
      (hsize : L.entries.length < maxRecords) : Change b L (L.insert r)
  | intend (r : Record) (now : Clock) (hr : r ∈ L.entries) (hu : r.undispatched = true)
      (hadm : r.admitted ≤ now) (hexp : now < r.expiresAt) :
      Change b L (L.modify r.id (Transition.intent.apply now))
  | finish (r : Record) (now : Clock) (code : Code) (hr : r ∈ L.entries) (ht : r.terminal = 0)
      (hadm : r.admitted ≤ now) (hint : r.intent ≠ 0 → r.intent ≤ now)
      (hcode : terminalAllowed r.key.metadata.request.operation (r.intent ≠ 0) code .none = true) :
      Change b L (L.modify r.id ((Transition.finish code).apply now))
  | expire (r : Record) (now : Clock) (hr : r ∈ L.entries) (hu : r.undispatched = true)
      (hexp : r.expiresAt ≤ now) : Change b L (L.modify r.id (Record.expired now))
  | forget (r : Record) (hr : r ∈ L.entries) (ht : r.terminal ≠ 0) (hexp : r.expiresAt ≤ L.floor) :
      Change b L (L.erase r.id)
  | raise (f : Instant) (hf : L.floor ≤ f) (hmax : f < maxInstant) :
      Change b L { L with floor := f }

/-- Any number of changes. -/
abbrev Evolves (b : Binding) : Ledger → Ledger → Prop := Relation.ReflTransGen (Change b)

/-! ### Well-formedness -/

variable {b : Binding} {L L' : Ledger}

theorem Wf.insert (hL : L.Wf b) (hr : r.Wf b) (hid : ∀ s ∈ L.entries, s.id ≠ r.id)
    (hsize : L.entries.length < maxRecords) : (L.insert r).Wf b where
  sorted := Keyed.sorted_insert hL.sorted hid
  valid := by
    intro s hs
    rcases Keyed.mem_insert.1 hs with rfl | hs
    · exact hr
    · exact hL.valid s hs
  size := by
    rw [Ledger.insert, Keyed.length_insert]
    exact hsize
  floor := hL.floor

theorem Wf.modify (hL : L.Wf b) (hr : r ∈ L.entries) (hid : ∀ s, (f s).id = s.id) (hf : (f r).Wf b) :
    (L.modify r.id f).Wf b where
  sorted := Keyed.sorted_modify hL.sorted fun s hs => (hid s).trans hs
  valid := by
    intro s hs
    rcases (hL.sorted.mem_modify hr).1 hs with rfl | ⟨hs, -⟩
    · exact hf
    · exact hL.valid s hs
  size := by
    rw [Ledger.modify, Keyed.length_modify]
    exact hL.size
  floor := hL.floor

theorem Wf.erase (hL : L.Wf b) (id : Bytes) : (L.erase id).Wf b where
  sorted := Keyed.sorted_erase hL.sorted id
  valid := fun s hs => hL.valid s (Keyed.mem_erase.1 hs).1
  size := (List.length_filter_le _ _).trans hL.size
  floor := hL.floor

/-- Every change keeps the ledger well formed. -/
theorem Change.wf (h : Change b L L') (hL : L.Wf b) : L'.Wf b := by
  cases h with
  | admission r hr hu hid hfloor hsize => exact hL.insert hr hid hsize
  | intend r now hr hu hadm hexp =>
    exact hL.modify hr (fun _ => rfl) ((hL.valid r hr).intended hu hadm hexp)
  | finish r now code hr ht hadm hint hcode =>
    exact hL.modify hr (fun _ => rfl) ((hL.valid r hr).finished ht hadm hint hcode)
  | expire r now hr hu hexp => exact hL.modify hr (fun _ => rfl) ((hL.valid r hr).expired hu hexp)
  | forget r hr ht hexp => exact hL.erase r.id
  | raise f hf hmax => exact ⟨hL.sorted, hL.valid, hL.size, hL.floor.1.trans hf, hmax⟩

theorem Evolves.wf (h : Evolves b L L') (hL : L.Wf b) : L'.Wf b := by
  induction h with
  | refl => exact hL
  | tail _ hc ih => exact hc.wf ih

/-! ### One dispatch per action -/

variable {k : Key} {raw : Bytes} {P : Record → Prop}

theorem Wf.eq_of_raw (hL : L.Wf b) {s : Record} (hr : r ∈ L.entries) (hs : s ∈ L.entries)
    (h : r.raw = s.raw) : r = s := by
  have hkey := (hL.valid r hr).key_eq (hL.valid s hs).canonical h
  exact hL.sorted.eq_of_key hr hs (congrArg Key.actionId hkey)

/-- A mark on the one stored record of the action. -/
theorem Marked.of_mem (hL : L.Wf b) (hr : r ∈ L.entries) (hraw : r.raw = raw) (hP : P r) :
    L.Marked P k raw := by
  refine ⟨fun s hs hs' => ?_, fun hno => absurd hraw (hno r hr)⟩
  rwa [hL.eq_of_raw hs hr (hs'.trans hraw.symm)]

theorem HasEvent.spent (hL : L.Wf b) (h : L.HasEvent raw) : L.Spent k raw := by
  obtain ⟨r, hr, hraw, hu⟩ := h
  exact Marked.of_mem hL hr hraw hu

/-- Replacing a record by one that keeps the mark keeps an action marked. -/
theorem Marked.modify (h : L.Marked P k raw) (hL : L.Wf b) (hr : r ∈ L.entries)
    (hraw : (f r).raw = r.raw) (hf : P r → P (f r)) :
    (L.modify r.id f).Marked P k raw := by
  refine ⟨fun s hs hs' => ?_, fun hno => h.forgotten fun s hs hs' => ?_⟩
  · rcases (hL.sorted.mem_modify hr).1 hs with rfl | ⟨hs, -⟩
    · exact hf (h.marked r hr (hraw.symm.trans hs'))
    · exact h.marked s hs hs'
  · by_cases hid : s.id = r.id
    · have hsr := hL.sorted.eq_of_key hs hr hid
      subst hsr
      exact hno (f s) ((hL.sorted.mem_modify hr).2 (Or.inl rfl)) (hraw.trans hs')
    · exact hno s ((hL.sorted.mem_modify hr).2 (Or.inr ⟨hs, hid⟩)) hs'

/-- **A marked action stays marked.** -/
theorem Change.marked (hc : Change b L L') (hP : Lasting P) (hL : L.Wf b)
    (hk : canonicalJournalMetadata k = some raw) (h : L.Marked P k raw) : L'.Marked P k raw := by
  cases hc with
  | admission r hr hu hid hfloor hsize =>
    have hne : r.raw ≠ raw := by
      intro hraw
      have hkey := hr.key_eq hk hraw
      have habs : ∀ s ∈ L.entries, s.raw ≠ raw := fun s hs hs' =>
        hid s hs (congrArg Key.actionId (((hL.valid s hs).key_eq hk hs').trans hkey.symm))
      have hexp := h.forgotten habs
      rw [Record.expiresAt, hkey] at hfloor
      exact absurd hfloor (not_lt.2 hexp)
    refine ⟨fun s hs hs' => ?_, fun hno => h.forgotten fun s hs => ?_⟩
    · rcases Keyed.mem_insert.1 hs with rfl | hs
      · exact absurd hs' hne
      · exact h.marked s hs hs'
    · exact hno s (Keyed.mem_insert.2 (Or.inr hs))
  | intend r now hr hu hadm hexp =>
    exact h.modify hL hr rfl fun h' => absurd ((hP.dispatched r h').symm.trans hu) (by decide)
  | finish r now code hr ht hadm hint hcode =>
    exact h.modify hL hr rfl (hP.finish r now code ht)
  | expire r now hr hu hexp =>
    exact h.modify hL hr rfl fun h' => absurd ((hP.dispatched r h').symm.trans hu) (by decide)
  | forget r hr ht hexp =>
    refine ⟨fun s hs hs' => h.marked s (Keyed.mem_erase.1 hs).1 hs', fun hno => ?_⟩
    by_cases hraw : r.raw = raw
    · rw [Record.expiresAt, (hL.valid r hr).key_eq hk hraw] at hexp
      exact hexp
    · refine h.forgotten fun s hs hs' => ?_
      by_cases hid : s.id = r.id
      · exact hraw (hL.sorted.eq_of_key hs hr hid ▸ hs')
      · exact hno s (Keyed.mem_erase.2 ⟨hs, hid⟩) hs'
  | raise f hf hmax =>
    exact ⟨h.marked, fun hno => (h.forgotten hno).trans hf⟩

theorem Evolves.marked (hc : Evolves b L L') (hP : Lasting P) (hL : L.Wf b)
    (hk : canonicalJournalMetadata k = some raw) (h : L.Marked P k raw) : L'.Marked P k raw := by
  induction hc with
  | refl => exact h
  | tail hs hc ih => exact hc.marked hP (Evolves.wf hs hL) hk ih

/-- No intent is stored for a spent action. -/
theorem Change.hasIntent_of_spent (hc : Change b L L') (hL : L.Wf b) (h : L.Spent k raw)
    (hi : L'.HasIntent raw) : L.HasIntent raw := by
  obtain ⟨s, hs, hraw, hsi⟩ := hi
  cases hc with
  | admission r hr hu hid hfloor hsize =>
    rcases Keyed.mem_insert.1 hs with rfl | hs
    · exact absurd (Record.undispatched_iff.1 hu).1 hsi
    · exact ⟨s, hs, hraw, hsi⟩
  | intend r now hr hu hadm hexp =>
    rcases (hL.sorted.mem_modify hr).1 hs with rfl | ⟨hs, -⟩
    · have := h.marked r hr hraw
      rw [hu] at this; cases this
    · exact ⟨s, hs, hraw, hsi⟩
  | finish r now code hr ht hadm hint hcode =>
    rcases (hL.sorted.mem_modify hr).1 hs with rfl | ⟨hs, -⟩
    · exact ⟨r, hr, hraw, hsi⟩
    · exact ⟨s, hs, hraw, hsi⟩
  | expire r now hr hu hexp =>
    rcases (hL.sorted.mem_modify hr).1 hs with rfl | ⟨hs, -⟩
    · exact ⟨r, hr, hraw, hsi⟩
    · exact ⟨s, hs, hraw, hsi⟩
  | forget r hr ht hexp => exact ⟨s, (Keyed.mem_erase.1 hs).1, hraw, hsi⟩
  | raise f hf hmax => exact ⟨s, hs, hraw, hsi⟩

theorem Evolves.spent (hc : Evolves b L L') (hL : L.Wf b)
    (hk : canonicalJournalMetadata k = some raw) (h : L.Spent k raw) :
    L'.Spent k raw ∧ (L'.HasIntent raw → L.HasIntent raw) := by
  induction hc with
  | refl => exact ⟨h, id⟩
  | tail hs hc ih =>
    have hwf := Evolves.wf hs hL
    exact ⟨hc.marked lasting_spent hwf hk ih.1, fun hi => ih.2 (hc.hasIntent_of_spent hwf ih.1 hi)⟩

end Ledger

end

end ActionJournal

end HomeLab
