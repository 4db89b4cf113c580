/-
  The ledger in the database.

  `Ledger.encode` is the database that stores a ledger.  The readers recover
  the ledger from it (`load_encode`, `read_encode`, `floor_encode`), and each
  statement that writes changes the stored ledger as its name says.
-/
import HomeLab.ActionJournal.Ledger

namespace HomeLab

namespace ActionJournal

open ActionCore

/-! ## Rows -/

def Record.actionRow (r : Record) : ActionRow :=
  HomeLab.ActionJournal.actionRow r.key r.raw r.admitted

def Record.intentRows (r : Record) : List EventRow :=
  if r.intent ≠ 0 then [Transition.intent.event r.id r.intent] else []

def Record.terminalEvent (r : Record) (c : Code) : EventRow where
  actionId := r.id
  ordinal := 2
  stampedAt := stamp r.terminal
  code := .code c
  reason := r.reason

def Record.terminalRows (r : Record) : List EventRow :=
  match r.code with
  | some c => if r.terminal ≠ 0 then [r.terminalEvent c] else []
  | none => []

def Record.eventRows (r : Record) : List EventRow := r.intentRows ++ r.terminalRows

def Ledger.encode (b : Binding) (L : Ledger) : Database where
  applicationId := applicationID
  userVersion := 1
  schema := definitions
  metadata := [⟨b.serverId, b.installationId, b.ownerId, stamp L.floor⟩]
  actions := L.entries.map Record.actionRow
  events := L.entries.flatMap Record.eventRows

/-- The record before its events are applied. -/
def Record.base (r : Record) : Record := { key := r.key, raw := r.raw, admitted := r.admitted }

/-- The record with its intent alone. -/
def Record.prior (r : Record) : Record :=
  { key := r.key, raw := r.raw, admitted := r.admitted, intent := r.intent }

variable {t : Instant} {e : EventRow} {r : Record}

theorem parseTime_stamp (h0 : 0 ≤ t) (h1 : t < maxInstant) :
    parseTime (stamp t) = .ok t := by
  have hy0 : 0 ≤ year t := by
    have := (le_year_iff 1 t).2 (by rw [yearStart_one]; exact h0)
    omega
  have hy1 : year t ≤ 9999 := by
    have := (year_lt_iff 10000 t).2 h1
    omega
  have hlen := (length_formatRFC3339Nano hy0 hy1).2
  rw [parseTime, stamp, parse_formatRFC3339Nano hy0 hy1]
  simp only [stamp, ne_eq, not_true_eq_false, or_false]
  rw [if_neg (by omega)]

theorem length_stamp (h0 : 0 ≤ t) (h1 : t < maxInstant) :
    20 ≤ (stamp t).length ∧ (stamp t).length ≤ 30 := by
  have hy0 := (le_year_iff 1 t).2 (by rw [yearStart_one]; exact h0)
  have hy1 := (year_lt_iff 10000 t).2 h1
  exact length_formatRFC3339Nano (by omega) (by omega)

theorem parseTime_clock (h : ClockReading t) : parseTime (stamp t) = .ok t :=
  parseTime_stamp h.1.le h.2

theorem mem_eventRows (h : e ∈ r.eventRows) : e.actionId = r.id := by
  rcases List.mem_append.1 h with h | h
  · unfold Record.intentRows at h
    split_ifs at h
    · rw [List.mem_singleton.1 h]; rfl
    · cases h
  · unfold Record.terminalRows at h
    split at h
    · split_ifs at h
      · rw [List.mem_singleton.1 h]; rfl
      · cases h
    · cases h

theorem delete_encode (b : Binding) (L : Ledger) (id : Bytes) :
    ((L.encode b).deleteEvents id).deleteAction id = .ok ((L.erase id).encode b) := by
  have hgone : ∀ e ∈ ((L.encode b).deleteEvents id).events, e.actionId ≠ id :=
    fun e he => (Keyed.mem_erase.1 he).2
  have hact : (L.erase id).entries.map Record.actionRow =
      Keyed.erase ActionRow.actionId id (L.entries.map Record.actionRow) :=
    Keyed.map_erase (c := ActionRow.actionId) Record.actionRow
      (fun _ => rfl) id L.entries
  have hev : (L.erase id).entries.flatMap Record.eventRows =
      Keyed.erase EventRow.actionId id (L.entries.flatMap Record.eventRows) :=
    Keyed.flatMap_erase (fun _ _ he => mem_eventRows he) id L.entries
  rw [Database.deleteAction, if_pos hgone]
  simp only [Ledger.encode, hact, hev]
  rfl

theorem setFloor_encode (b : Binding) (L : Ledger) {f : Instant} (h0 : 0 ≤ f) (h1 : f < maxInstant) :
    (L.encode b).setFloor (stamp f) = .ok (({ L with floor := f } : Ledger).encode b) := by
  rw [Database.setFloor, if_pos (length_stamp h0 h1)]
  rfl

theorem applyEvent_at {pre rest : List Record} {r' : Record}
    (hpre : ∀ s ∈ pre, s.key.actionId ≠ e.actionId) (hr : r.key.actionId = e.actionId)
    (h : validateEvent r e = .ok r') :
    applyEvent e (pre ++ r :: rest) = .ok (pre ++ r' :: rest) := by
  induction pre with
  | nil => simp [applyEvent, hr, h]
  | cons s pre ih =>
    have hs := hpre s (List.mem_cons_self ..)
    have := ih fun t ht => hpre t (List.mem_cons_of_mem _ ht)
    simp [applyEvent, hs, this]

theorem scanEvents_cons {count : ℕ} {es : List EventRow} {rs rs' : List Record}
    (hcount : count < 2 * maxRecords) (he : e.bounded = true) (h : applyEvent e rs = .ok rs') :
    scanEvents count rs (e :: es) = scanEvents (count + 1) rs' es := by
  rw [scanEvents, if_neg, h]
  simp only [he, Bool.not_true, Bool.false_eq_true, or_false]
  omega

section
variable [Sha256] {b : Binding} {L : Ledger}

/-! ## Reading back one record -/

theorem Record.Wf.bounded (hr : r.Wf b) : r.actionRow.bounded = true := by
  obtain ⟨hk, hraw⟩ := canonicalJournalMetadata_eq_some.1 hr.canonical
  have h1 : _ = 36 := length_of_identifier hk.actionId
  have h2 : _ = 36 := length_of_identifier hk.targetId
  have h3 := length_of_hex hk.generation
  have h4 := length_of_hex hk.container
  have h5 : 1 ≤ _ := List.length_pos_iff.2 (JournalRecord.marshal_ne_nil r.key.record)
  have h6 := hk.length
  have h7 := length_stamp hr.reading.1.le hr.reading.2
  rw [← hk.action] at h1
  rw [← hk.target] at h2
  rw [← hraw] at h5 h6
  simp only [actionRow, ActionJournal.actionRow, ActionRow.bounded, h1, h2, h3, h4, h5, h6, h7,
    Vector.length_toList, decide_true, Bool.and_true]

theorem Record.Wf.validateAction (hr : r.Wf b) :
    validateAction b r.actionRow = .ok r.base := by
  have hb := hr.binding
  simp only [Binding.admits, Bool.and_eq_true, decide_eq_true_eq] at hb
  have hadm := hr.admitted
  rw [Record.expiresAt] at hadm
  simp only [ActionJournal.validateAction, actionRow, ActionJournal.actionRow,
    parse_canonicalJournalMetadata hr.canonical, parseTime_clock hr.reading, ok_bind, ne_eq,
    not_true_eq_false, or_false, if_false, hb.1.1, hb.1.2, hb.2]
  rw [if_neg (not_or.2 ⟨not_lt.2 hadm.1, not_le.2 hadm.2⟩)]
  rfl

theorem Record.Wf.validateIntent (hr : r.Wf b) (hi : r.intent ≠ 0) :
    validateEvent r.base (Transition.intent.event r.id r.intent) =
      .ok r.prior := by
  obtain ⟨hc, hadm, hexp⟩ := hr.intent hi
  have h1 : ¬ r.intent < r.base.admitted := not_lt.2 hadm
  have h2 : ¬ r.base.key.metadata.request.expiresAt ≤ r.intent := not_le.2 hexp
  simp only [validateEvent, Transition.event, parseTime_clock hc, ok_bind, if_neg h1, if_true]
  simp only [Record.base] at h2 ⊢
  simp [h2, Record.prior]

/-- The terminal event applies to the record with its intent, if it has one. -/
theorem Record.Wf.validateTerminal (hr : r.Wf b) {c : Code} (ht : r.terminal ≠ 0)
    (hc : r.code = some c) :
    validateEvent r.prior (r.terminalEvent c) = .ok r := by
  obtain ⟨hclock, hadm, hint, c', hc', hallowed, hdenied⟩ := hr.terminal ht
  obtain rfl : c = c' := Option.some.inj (hc.symm.trans hc')
  have h1 : ¬ r.terminal < r.admitted := not_lt.2 hadm
  have h2 : ¬ (r.intent ≠ 0 ∧ r.terminal < r.intent) := fun h => not_lt.2 (hint h.1) h.2
  have h3 : ¬ (c = .denied ∧ r.terminal < r.key.metadata.request.expiresAt) :=
    fun h => not_lt.2 (hdenied h.1) h.2
  simp only [validateEvent, Record.terminalEvent, Record.prior, parseTime_clock hclock, ok_bind,
    if_neg h1, h2]
  simp [h3, ← hc]
  exact hallowed

theorem Record.Wf.event_bounded (hr : r.Wf b) (he : e ∈ r.eventRows) :
    e.bounded = true := by
  obtain ⟨hk, -⟩ := canonicalJournalMetadata_eq_some.1 hr.canonical
  have hid : r.id.length = 36 := by
    have h : _ = 36 := length_of_identifier hk.actionId
    rw [Record.id, hk.action, h]
  have hlen : 20 ≤ e.stampedAt.length ∧ e.stampedAt.length ≤ 30 := by
    rcases List.mem_append.1 he with he | he
    · unfold Record.intentRows at he
      split_ifs at he with hi
      · have hc := (hr.intent hi).1
        rw [List.mem_singleton.1 he]
        exact length_stamp hc.1.le hc.2
      · cases he
    · unfold Record.terminalRows at he
      split at he
      · split_ifs at he with ht
        · have hc := (hr.terminal ht).1
          rw [List.mem_singleton.1 he]
          exact length_stamp hc.1.le hc.2
        · cases he
      · cases he
  simp only [EventRow.bounded, mem_eventRows he, hid, Bool.and_eq_true, decide_eq_true_eq]
  exact ⟨⟨trivial, hlen.1⟩, hlen.2⟩

/-! ## Reading back the tables -/

theorem scanActions_encode {M : List Record} (pre : List Record) (hM : ∀ r ∈ M, r.Wf b)
    (hs : Keyed.Sorted Record.id (pre ++ M)) (hlen : pre.length + M.length ≤ maxRecords) :
    scanActions b (pre.map Record.base) (M.map Record.actionRow) =
      .ok ((pre ++ M).map Record.base) := by
  induction M generalizing pre with
  | nil => simp [scanActions]
  | cons r M ih =>
    have hr := hM r (List.mem_cons_self ..)
    have hno : (pre.map Record.base).any (·.key.actionId = r.actionRow.actionId) = false := by
      rw [List.any_eq_false]
      intro s hs' heq
      obtain ⟨t, ht, rfl⟩ := List.mem_map.1 hs'
      have hlt := (List.pairwise_append.1 hs).2.2 t ht r (List.mem_cons_self ..)
      exact hlt.ne (of_decide_eq_true heq)
    have hlt : ¬ (maxRecords ≤ (pre.map Record.base).length ∨ (!r.actionRow.bounded) = true) := by
      rw [List.length_cons] at hlen
      simp only [hr.bounded, List.length_map, Bool.not_true, Bool.false_eq_true, or_false]
      omega
    have hstep := ih (pre ++ [r]) (fun s hs => hM s (List.mem_cons_of_mem _ hs))
      (by simpa using hs) (by simp at hlen ⊢; omega)
    rw [List.map_cons, scanActions, if_neg hlt, hr.validateAction]
    simp only [hno, Bool.false_eq_true, if_false]
    simpa using hstep

/-- The events of one record complete it. -/
theorem scanEvents_record (count : ℕ) (hr : r.Wf b) {pre : List Record} (rest : List Record)
    (hpre : ∀ s ∈ pre, s.key.actionId ≠ r.id) (hcount : count + 2 ≤ 2 * maxRecords)
    (es : List EventRow) :
    ∃ n ≤ 2, scanEvents count (pre ++ r.base :: rest) (r.eventRows ++ es) =
      scanEvents (count + n) (pre ++ r :: rest) es := by
  have hb := fun e he => hr.event_bounded (e := e) he
  -- the intent, if any
  have hintent : ∃ n ≤ 1, ∀ es, scanEvents count (pre ++ r.base :: rest) (r.intentRows ++ es) =
      scanEvents (count + n) (pre ++ r.prior :: rest) es := by
    by_cases hi : r.intent = 0
    · refine ⟨0, by decide, fun es => ?_⟩
      simp [Record.intentRows, Record.prior, hi, Record.base]
    · refine ⟨1, le_refl _, fun es => ?_⟩
      have hmem : Transition.intent.event r.id r.intent ∈ r.eventRows := by
        simp [Record.eventRows, Record.intentRows, hi]
      rw [Record.intentRows, if_pos hi, List.cons_append, List.nil_append]
      exact scanEvents_cons (by omega) (hb _ hmem)
        (applyEvent_at hpre rfl (hr.validateIntent hi))
  -- the terminal event, if any
  obtain ⟨n, hn, hintent⟩ := hintent
  rw [Record.eventRows, List.append_assoc, hintent]
  by_cases ht : r.terminal = 0
  · refine ⟨n, by omega, ?_⟩
    obtain ⟨hc, hreason⟩ := hr.pending ht
    have hr' : r.prior = r := by
      cases r
      simp only at ht hc hreason
      subst ht hc hreason
      rfl
    simp [Record.terminalRows, hc, hr']
  · refine ⟨n + 1, by omega, ?_⟩
    obtain ⟨-, -, -, c, hc, -⟩ := hr.terminal ht
    have hrows : r.terminalRows = [r.terminalEvent c] := by
      simp [Record.terminalRows, hc, ht]
    have hmem : ∀ e ∈ r.terminalRows, e ∈ r.eventRows := fun e he => by
      simp [Record.eventRows, he]
    rw [hrows, List.cons_append, List.nil_append]
    refine scanEvents_cons (by omega) (hb _ (hmem _ (by rw [hrows]; exact List.mem_cons_self ..))) ?_
    exact applyEvent_at hpre rfl (hr.validateTerminal ht hc)

theorem scanEvents_encode {M : List Record} (pre : List Record) (count : ℕ) (hM : ∀ r ∈ M, r.Wf b)
    (hs : Keyed.Sorted Record.id (pre ++ M)) (hcount : count + 2 * M.length ≤ 2 * maxRecords) :
    scanEvents count (pre ++ M.map Record.base) (M.flatMap Record.eventRows) = .ok (pre ++ M) := by
  induction M generalizing pre count with
  | nil => simp [scanEvents]
  | cons r M ih =>
    have hr := hM r (List.mem_cons_self ..)
    have hpre : ∀ s ∈ pre, s.key.actionId ≠ r.id := fun s hs' =>
      ((List.pairwise_append.1 hs).2.2 s hs' r (List.mem_cons_self ..)).ne
    rw [List.length_cons] at hcount
    obtain ⟨n, hn, hstep⟩ := scanEvents_record count hr (M.map Record.base) hpre
      (by omega) (M.flatMap Record.eventRows)
    rw [List.map_cons, List.flatMap_cons, hstep]
    have := ih (pre ++ [r]) (count + n)
      (fun s hs => hM s (List.mem_cons_of_mem _ hs)) (by simpa using hs) (by omega)
    simpa using this

theorem event_scope (hL : L.Wf b) (scope : RecordScope) (hr : r ∈ L.entries) (he : e ∈ r.eventRows) :
    scope.event (L.entries.map Record.actionRow) e = scope.action r.actionRow := by
  have hid := mem_eventRows he
  cases scope with
  | allRecords => rfl
  | oneRecord id =>
    simp only [RecordScope.event, RecordScope.action, hid]
    rfl
  | relatedRecords k =>
    rw [RecordScope.event, RecordScope.action, Bool.eq_iff_iff, List.any_eq_true]
    constructor
    · rintro ⟨a, ha, hrel⟩
      obtain ⟨s, hs, rfl⟩ := List.mem_map.1 ha
      rw [Bool.and_eq_true, decide_eq_true_eq] at hrel
      rw [← hL.sorted.eq_of_key hs hr (hrel.1.trans hid)]
      exact hrel.2
    · intro hrel
      refine ⟨r.actionRow, List.mem_map_of_mem hr, ?_⟩
      rw [Bool.and_eq_true, decide_eq_true_eq]
      exact ⟨hid.symm, hrel⟩

/-- **The readers recover the ledger.** -/
theorem load_encode (hL : L.Wf b) (scope : RecordScope) :
    load b (L.encode b) scope = .ok (L.entries.filter fun r => scope.action r.actionRow) := by
  have hact : (L.entries.map Record.actionRow).filter scope.action =
      (L.entries.filter fun r => scope.action r.actionRow).map Record.actionRow := by
    rw [List.filter_map]; rfl
  have hev : (L.entries.flatMap Record.eventRows).filter
      (scope.event (L.entries.map Record.actionRow)) =
      (L.entries.filter fun r => scope.action r.actionRow).flatMap Record.eventRows :=
    Keyed.filter_flatMap fun r hr e he => event_scope hL scope hr he
  have hwf : ∀ r ∈ L.entries.filter fun r => scope.action r.actionRow, r.Wf b :=
    fun r hr => hL.valid r (List.mem_of_mem_filter hr)
  have hsorted : Keyed.Sorted Record.id (L.entries.filter fun r => scope.action r.actionRow) :=
    List.Pairwise.filter _ hL.sorted
  have hlen : (L.entries.filter fun r => scope.action r.actionRow).length ≤ maxRecords :=
    (List.length_filter_le _ _).trans hL.size
  have h1 := scanActions_encode [] hwf (by simpa using hsorted) (by simpa using hlen)
  have h2 := scanEvents_encode [] 0 hwf (by simpa using hsorted) (by omega)
  simp only [List.map_nil, List.nil_append] at h1 h2
  simp only [load, Ledger.encode, hact, hev, h1, h2, ok_bind]

theorem records_encode (hL : L.Wf b) : records b (L.encode b) = .ok L.entries := by
  rw [records, load_encode hL]
  simp [RecordScope.action]

theorem related_encode (hL : L.Wf b) (k : Key) :
    related b (L.encode b) k = .ok (L.entries.filter fun r => relatedKeys r.key k) :=
  load_encode hL _

theorem read_encode (hL : L.Wf b) (id : Bytes) :
    read b (L.encode b) id = .ok (Keyed.find Record.id id L.entries) := by
  have hfilter : (L.entries.filter fun r => (RecordScope.oneRecord id).action r.actionRow) =
      (Keyed.find Record.id id L.entries).toList := by
    rw [← hL.sorted.filter_key id]
    refine List.filter_congr fun r _ => ?_
    simp only [RecordScope.action, decide_eq_decide]
    rfl
  rw [read, load_encode hL, hfilter]
  cases Keyed.find Record.id id L.entries <;> rfl

theorem floor_encode (hL : L.Wf b) : floor b (L.encode b) = .ok L.floor := by
  simp [floor, Ledger.encode, parseTime_stamp hL.floor.1 hL.floor.2]

/-- The query for unresolved intents counts the unresolved records. -/
theorem unknown_encode (hL : L.Wf b) :
    (L.encode b).unknown = L.entries.countP Record.unresolved := by
  have hterm : ∀ r ∈ L.entries,
      ((L.entries.flatMap Record.eventRows).any fun t => t.actionId = r.id && t.ordinal = 2) =
        decide (r.terminal ≠ 0) := by
    intro r hr
    rw [Bool.eq_iff_iff, List.any_eq_true, decide_eq_true_eq]
    constructor
    · rintro ⟨t, ht, h⟩
      rw [Bool.and_eq_true, decide_eq_true_eq, decide_eq_true_eq] at h
      obtain ⟨s, hs, ht⟩ := List.mem_flatMap.1 ht
      obtain rfl := hL.sorted.eq_of_key hs hr ((mem_eventRows ht).symm.trans h.1)
      rcases List.mem_append.1 ht with ht | ht
      · unfold Record.intentRows at ht
        split_ifs at ht
        · rw [List.mem_singleton.1 ht] at h
          exact absurd h.2 (by simp [Transition.event])
        · cases ht
      · unfold Record.terminalRows at ht
        split at ht
        · split_ifs at ht with h0
          · exact h0
          · cases ht
        · cases ht
    · intro h0
      obtain ⟨-, -, -, c, hc, -⟩ := (hL.valid r hr).terminal h0
      have hrows : r.terminalEvent c ∈ r.eventRows := by
        simp [Record.eventRows, Record.terminalRows, hc, h0]
      exact ⟨r.terminalEvent c, List.mem_flatMap.2 ⟨r, hr, hrows⟩, by simp [Record.terminalEvent]⟩
  -- the induction is over a part of the records, while the query sees the events of all
  have hcount : ∀ M : List Record, (∀ r ∈ M, r ∈ L.entries) →
      ((M.flatMap Record.eventRows).countP fun i => i.ordinal = 1 &&
        !(L.entries.flatMap Record.eventRows).any fun t =>
          t.actionId = i.actionId && t.ordinal = 2) = M.countP Record.unresolved := by
    intro M hM
    induction M with
    | nil => rfl
    | cons r M ih =>
      have hr := hterm r (hM r (List.mem_cons_self ..))
      have hone : (r.eventRows.countP fun i => i.ordinal = 1 &&
          !(L.entries.flatMap Record.eventRows).any fun t =>
            t.actionId = i.actionId && t.ordinal = 2) = if r.unresolved then 1 else 0 := by
        have hcongr : (r.eventRows.countP fun i => i.ordinal = 1 &&
            !(L.entries.flatMap Record.eventRows).any fun t =>
              t.actionId = i.actionId && t.ordinal = 2) =
            r.eventRows.countP fun i => i.ordinal = 1 && decide (r.terminal = 0) := by
          refine List.countP_congr fun i hi => ?_
          rw [mem_eventRows hi, hr]
          simp
        rw [hcongr, Record.eventRows, List.countP_append, Record.intentRows, Record.terminalRows,
          Record.unresolved]
        by_cases hi : r.intent = 0 <;> by_cases ht : r.terminal = 0 <;> cases r.code <;>
          simp [hi, ht, Transition.event, Record.terminalEvent]
      rw [List.flatMap_cons, List.countP_append, hone, List.countP_cons,
        ih fun s hs => hM s (List.mem_cons_of_mem _ hs)]
      omega
  exact hcount L.entries fun _ h => h

/-! ## Writing -/

theorem insertAction_encode (hr : r.Wf b) (hu : r.undispatched = true)
    (hid : ∀ s ∈ L.entries, s.id ≠ r.id) :
    (L.encode b).insertAction r.actionRow = .ok ((L.insert r).encode b) := by
  have hnew : ∀ a ∈ L.entries.map Record.actionRow, a.actionId ≠ r.actionRow.actionId := by
    intro a ha
    obtain ⟨s, hs, rfl⟩ := List.mem_map.1 ha
    exact hid s hs
  obtain ⟨hi, ht⟩ := Record.undispatched_iff.1 hu
  have hrows : r.eventRows = [] := by
    simp [Record.eventRows, Record.intentRows, Record.terminalRows, hi, (hr.pending ht).1]
  have hact : (L.insert r).entries.map Record.actionRow =
      Keyed.insert ActionRow.actionId r.actionRow (L.entries.map Record.actionRow) :=
    Keyed.map_insert (c := ActionRow.actionId) Record.actionRow
      (fun _ => rfl) r L.entries
  have hev : (L.insert r).entries.flatMap Record.eventRows =
      L.entries.flatMap Record.eventRows := Keyed.flatMap_insert_nil hrows L.entries
  rw [Database.insertAction, if_pos ⟨hr.bounded, hnew⟩]
  simp only [Ledger.encode, hact, hev]
  rfl

/-- An event is stored after the events its record has already. -/
theorem insertEvent_encode (hL : L.Wf b) (hr : r ∈ L.entries) (row : EventRow) (f : Record → Record)
    (hid : row.actionId = r.id) (hlast : ∀ e ∈ r.eventRows, e.ordinal < row.ordinal)
    (hf : (f r).eventRows = r.eventRows ++ [row])
    (hrow : ∀ s : Record, (f s).actionRow = s.actionRow) (hcheck : row.check = true) :
    (L.encode b).insertEvent row = .ok ((L.modify r.id f).encode b) := by
  have hown : ∃ a ∈ L.entries.map Record.actionRow, a.actionId = row.actionId :=
    ⟨r.actionRow, List.mem_map_of_mem hr, hid.symm⟩
  have hnew : ∀ e ∈ L.entries.flatMap Record.eventRows,
      ¬ (e.actionId = row.actionId ∧ e.ordinal = row.ordinal) := by
    rintro e he ⟨h1, h2⟩
    obtain ⟨s, hs, he⟩ := List.mem_flatMap.1 he
    obtain rfl := hL.sorted.eq_of_key hs hr ((mem_eventRows he).symm.trans (h1.trans hid))
    exact (hlast e he).ne h2
  have hev : (L.entries.flatMap Record.eventRows).orderedInsert Database.eventLe row =
      (Keyed.modify Record.id r.id f L.entries).flatMap Record.eventRows := by
    refine hL.sorted.orderedInsert_flatMap hr (fun s _ hlt y hy hle => ?_)
      (fun s _ hlt y hy => ?_) fun rest hrest => ?_
    · rw [Database.eventLe, mem_eventRows hy, hid] at hle
      rcases hle with hle | hle
      · exact absurd hlt hle.asymm
      · exact absurd hle.1 hlt.ne'
    · left
      rw [mem_eventRows hy, hid]; exact hlt
    · have hpre : ∀ e ∈ r.eventRows, ¬ Database.eventLe row e := by
        intro e he hle
        rw [Database.eventLe, mem_eventRows he, hid] at hle
        rcases hle with hle | hle
        · exact lt_irrefl _ hle
        · exact absurd (hlast e he) (not_lt.2 hle.2)
      have hins : rest.orderedInsert Database.eventLe row = row :: rest := by
        cases rest with
        | nil => rfl
        | cons y rest => rw [List.orderedInsert_cons, if_pos (hrest y (List.mem_cons_self ..))]
      rw [hf, List.append_assoc, List.singleton_append, ← hins]
      clear hf hlast
      generalize r.eventRows = rows at hpre
      induction rows with
      | nil => rfl
      | cons e es ih =>
        rw [List.cons_append, List.orderedInsert_cons, if_neg (hpre e (List.mem_cons_self ..)),
          ih fun e he => hpre e (List.mem_cons_of_mem _ he), List.cons_append]
  have hact : (L.modify r.id f).entries.map Record.actionRow = L.entries.map Record.actionRow :=
    Keyed.map_modify Record.actionRow (fun s _ => hrow s) L.entries
  rw [Database.insertEvent, if_pos ⟨hcheck, hown, hnew⟩]
  simp only [Ledger.encode, hact, hev]
  rfl

end

end ActionJournal

end HomeLab
