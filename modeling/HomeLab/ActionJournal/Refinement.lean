/-
  The journal refines the ledger.

  `Represents b sys L` says that the system stores the ledger `L` and that the
  attempts in memory agree with it as long as the handle is usable.  Every call
  keeps that for a ledger that has evolved from `L` by changes alone
  (`Represents.step`), and so does every run.
-/
import HomeLab.ActionJournal.Encoding

namespace HomeLab

namespace ActionJournal

open ActionCore Ledger

/-! ## Transactions -/

/-- The outcomes of a transaction. -/
inductive TransactionResult {α : Type} (failed : Bool) (db : Database)
    (body : Database → Except Error (Database × α)) : Except Error α × Bool × Database → Prop where
  | committed {db' : Database} {x : α} (h : body db = .ok (db', x)) :
      TransactionResult failed db body (.ok x, failed, db')
  | refused (e : Error) : TransactionResult failed db body (.error e, failed, db)
  | aborted : TransactionResult failed db body (.error .recovery, true, db)
  | uncertain {db' : Database} {x : α} (h : body db = .ok (db', x)) :
      TransactionResult failed db body (.error .recovery, true, db')

theorem transactionGuarded_result {α : Type} (guarded : Bool) (t : Transaction) (failed : Bool)
    (db : Database) (body : Database → Except Error (Database × α)) :
    TransactionResult failed db body (transactionGuarded guarded t failed db body) := by
  have hfail : ∀ e : Error, TransactionResult failed db body (rollback t failed db e) := by
    intro e
    rw [rollback]
    split_ifs
    · exact .aborted
    · exact .refused e
  rw [transactionGuarded]
  split_ifs with h1 h2 h3
  · exact .refused _
  · exact .aborted
  · cases hb : body db with
    | error e => exact hfail e
    | ok r =>
      obtain ⟨db', x⟩ := r
      rw [settle]
      by_cases h4 : guarded = true ∧ (!t.guardCommit) = true
      · rw [if_pos h4]; exact hfail .recovery
      · rw [if_neg h4]
        cases t.commit with
        | done =>
          by_cases h5 : guarded = true ∧ (!t.guardAfter) = true
          · simp only [if_pos h5]; exact .uncertain hb
          · simp only [if_neg h5]; exact .committed hb
        | lost => exact .aborted
        | uncertain => exact .uncertain hb
  · exact hfail .recovery

/-! ## Representation -/

/-- The actions that may still change through an attempt. -/
def System.activeIds (sys : System) : List Bytes :=
  match sys.journal with
  | some j => if j.usable then j.active.map Prod.fst else []
  | none => []

theorem System.activeIds_of_usable {sys : System} {j : Journal} (hj : sys.journal = some j) (hu : j.usable = true) :
    sys.activeIds = j.active.map Prod.fst := by
  simp [System.activeIds, hj, hu]

variable {m : Bool} {db : Database} {k : Key} {r : Record} {id : Bytes}

theorem System.hand_usable {sys : System} {j : Journal} {guard : Option ExecutionCommit}
    (hu : j.usable = true) :
    (sys.hand j db k r m guard).activeIds =
      if m then k.actionId :: j.active.map Prod.fst else j.active.map Prod.fst := by
  cases m
  · simp [System.activeIds, System.hand, hu]
  · have : ({ j with active := (k.actionId, sys.attempts.length) :: j.active } : Journal).usable =
        true := hu
    simp [System.activeIds, System.hand, this]

theorem System.mem_live {sys : System} {j : Journal} {p : Bytes × Attempt} :
    p ∈ sys.live j ↔ ∃ i, (p.1, i) ∈ j.active ∧ sys.attempts[i]? = some p.2 := by
  rw [System.live, List.mem_filterMap]
  constructor
  · rintro ⟨q, hq, h⟩
    cases ha : sys.attempts[q.2]? with
    | none => rw [ha] at h; cases h
    | some a =>
      rw [ha] at h
      obtain rfl := Option.some.inj h
      exact ⟨q.2, hq, ha⟩
  · rintro ⟨i, hi, ha⟩
    exact ⟨(p.1, i), hi, by rw [ha]; rfl⟩

/-- The active attempts agree with the ledger. -/
structure Synced (sys : System) (j : Journal) (L : Ledger) : Prop where
  keys : (j.active.map Prod.fst).Nodup
  attempt : ∀ p ∈ j.active, ∃ a, sys.attempts[p.2]? = some a ∧ a.generation = sys.generation ∧
    a.mutable = true ∧ a.closed = false ∧ a.r.id = p.1 ∧ a.r ∈ L.entries

theorem Synced.mem_entries {sys : System} {j : Journal} {L : Ledger} (hs : Synced sys j L) {p : Bytes × Attempt} (hp : p ∈ sys.live j) :
    p.2.r.id = p.1 ∧ p.2.r ∈ L.entries := by
  obtain ⟨i, hi, ha⟩ := System.mem_live.1 hp
  obtain ⟨a, ha', -, -, -, hid, hmem⟩ := hs.attempt (p.1, i) hi
  obtain rfl := Option.some.inj (ha.symm.trans ha')
  exact ⟨hid, hmem⟩

theorem Synced.exists_live {sys : System} {j : Journal} {L : Ledger} (hs : Synced sys j L)
    (hid : id ∈ j.active.map Prod.fst) :
    ∃ p ∈ sys.live j, p.1 = id := by
  obtain ⟨q, hq, rfl⟩ := List.mem_map.1 hid
  obtain ⟨a, ha, -⟩ := hs.attempt q hq
  exact ⟨(q.1, a), System.mem_live.2 ⟨q.2, hq, ha⟩, rfl⟩

theorem fenced_none {now : Instant} {rs : List Record} (h : ActionJournal.fenced now rs = none) :
    ∀ s ∈ rs, s.unresolved = false := by
  induction rs with
  | nil => exact fun s hs => absurd hs List.not_mem_nil
  | cons r rs ih =>
    rw [ActionJournal.fenced] at h
    split_ifs at h with h1 h2
    intro s hs
    rcases List.mem_cons.1 hs with rfl | hs
    · simpa using h1
    · exact ih h s hs

theorem expiredEvent_check (id : Bytes) (now : Clock) : (expiredEvent id now).check = true := by
  have := length_stamp now.2.1.le now.2.2
  simp [expiredEvent, EventRow.check, eventCodes, this]

theorem lookup_of_mem {l : List (Bytes × ℕ)} (hl : (l.map Prod.fst).Nodup) {i : ℕ} (h : (id, i) ∈ l) :
    l.lookup id = some i := by
  induction l with
  | nil => cases h
  | cons p l ih =>
    obtain ⟨hp, hl⟩ := List.nodup_cons.1 hl
    rw [List.lookup_cons]
    rcases List.mem_cons.1 h with rfl | h
    · simp
    · have hne : (id == p.1) = false := by
        rw [beq_eq_false_iff_ne]
        rintro rfl
        exact hp (List.mem_map.2 ⟨_, h, rfl⟩)
      rw [hne]
      exact ih hl h

theorem mem_of_lookup {l : List (Bytes × ℕ)} {i : ℕ} (h : l.lookup id = some i) :
    (id, i) ∈ l := by
  induction l with
  | nil => cases h
  | cons p l ih =>
    rw [List.lookup_cons] at h
    split at h
    · rename_i heq
      obtain rfl := Option.some.inj h
      rw [beq_iff_eq.1 heq]; exact List.mem_cons_self ..
    · exact List.mem_cons_of_mem _ (ih h)

section
variable [Sha256]

structure Represents (b : Binding) (sys : System) (L : Ledger) : Prop where
  db : sys.db = L.encode b
  wf : L.Wf b
  fenced : L.Fenced sys.activeIds
  binding : ∀ j, sys.journal = some j → j.binding = b
  synced : ∀ j, sys.journal = some j → j.usable = true → Synced sys j L

variable {b : Binding} {sys : System} {L L' : Ledger} {j : Journal}

theorem Represents.failed (h : Represents b sys L) (hj : sys.journal = some j)
    (hL' : L'.Wf b) (hf : L'.Fenced []) {attempts : List Attempt} {g : ℕ} :
    Represents b { db := L'.encode b, journal := some { j with failed := true },
                   generation := g, attempts } L' where
  db := rfl
  wf := hL'
  fenced := by simpa [System.activeIds, Journal.usable] using hf
  binding := by
    rintro j' hj'
    obtain rfl := Option.some.inj hj'
    exact h.binding j hj
  synced := by
    rintro j' hj' hu
    obtain rfl := Option.some.inj hj'
    simp [Journal.usable] at hu

theorem Represents.unfenced (h : Represents b sys L) : L.Fenced [] :=
  h.fenced.mono fun _ hid => absurd hid List.not_mem_nil

/-! ## Acquire -/

/-- The active attempts leave room for another, and nothing is related to it. -/
structure Clear (L : Ledger) (live : List (Bytes × Attempt)) (k : Key) : Prop where
  idle : ∀ p ∈ live, p.1 ≠ k.actionId
  resolved : ∀ s ∈ L.entries, s.unresolved = true → relatedKeys s.key k = false
  unrelated : ∀ p ∈ live, relatedKeys p.2.r.key k = false
  room : (live.countP fun p => p.2.r.undispatched) + L.entries.countP Record.unresolved < 2

/-- What a successful `Acquire` does to the ledger, and the attempt it makes. -/
inductive Acquired (L : Ledger) (live : List (Bytes × Attempt)) (now : Clock) (k : Key)
    (raw : Bytes) : Ledger → Record → Bool → Prop where
  | replay (r : Record) (hr : r ∈ L.entries) (hraw : r.raw = raw) (hu : r.undispatched = false) :
      Acquired L live now k raw L r false
  | expired (r : Record) (hr : r ∈ L.entries) (hraw : r.raw = raw) (hu : r.undispatched = true)
      (hidle : ∀ p ∈ live, p.1 ≠ r.id) (hexp : r.expiresAt ≤ now) :
      Acquired L live now k raw (L.modify r.id (Record.expired now)) (r.expired now) false
  | permit (r : Record) (hr : r ∈ L.entries) (hraw : r.raw = raw) (hu : r.undispatched = true)
      (hclear : Clear L live k) : Acquired L live now k raw L r true
  | admission (hid : ∀ s ∈ L.entries, s.id ≠ k.actionId)
      (hcreated : k.metadata.request.createdAt ≤ now) (hexp : now < k.metadata.request.expiresAt)
      (hfloor : L.floor < k.metadata.request.expiresAt) (hsize : L.entries.length < maxRecords)
      (hclear : Clear L live k) :
      Acquired L live now k raw (L.insert { key := k, raw, admitted := now })
        { key := k, raw, admitted := now } true

theorem insert_expired (hL : L.Wf b) (hr : r ∈ L.entries) (hu : r.undispatched = true) (now : Clock) :
    (L.encode b).insertEvent (expiredEvent r.id now) =
      .ok ((L.modify r.id (Record.expired now)).encode b) := by
  obtain ⟨hi, ht⟩ := Record.undispatched_iff.1 hu
  have hrows : r.eventRows = [] := by
    simp [Record.eventRows, Record.intentRows, Record.terminalRows, hi,
      ((hL.valid r hr).pending ht).1]
  refine insertEvent_encode hL hr _ _ rfl (by simp [hrows]) ?_ (fun _ => rfl) (expiredEvent_check _ _)
  rw [hrows]
  simp [Record.eventRows, Record.intentRows, Record.terminalRows, Record.expired, hi,
    Clock.ne_zero now, Record.terminalEvent, expiredEvent, Record.id]

variable {raw : Bytes} {now : Clock} {live : List (Bytes × Attempt)}

theorem permit_spec (hL : L.Wf b) (hk : canonicalJournalMetadata k = some raw)
    (hb : b.admits k = true) (hidle : ∀ p ∈ live, p.1 ≠ k.actionId)
    (hcreated : k.metadata.request.createdAt ≤ now) (hexp : now < k.metadata.request.expiresAt)
    {found : Option Record} (hfound : found = Keyed.find Record.id k.actionId L.entries)
    (hr : ∀ r ∈ found, r.raw = raw ∧ r.undispatched = true)
    (h : permit b live now k raw found (L.encode b) = .ok (db, r, m)) :
    ∃ L', db = L'.encode b ∧ Acquired L live now k raw L' r m := by
  simp only [permit, floor_encode hL, related_encode hL, ok_bind] at h
  cases hfen : ActionJournal.fenced now (L.entries.filter fun r => relatedKeys r.key k) with
  | some e =>
    rw [hfen] at h
    split_ifs at h
  | none =>
    rw [hfen] at h
    split_ifs at h with hfloor hrel hunk hroom
    have hclear : Clear L live k := by
      refine ⟨hidle, fun s hs hun => ?_, fun p hp => ?_, ?_⟩
      · by_contra hne
        have := fenced_none hfen s (List.mem_filter.2 ⟨hs, by simpa using hne⟩)
        rw [hun] at this; cases this
      · simpa using fun h' => hrel (List.any_eq_true.2 ⟨p, hp, h'⟩)
      · rw [unknown_encode hL] at hroom
        have hcount : (live.countP fun p => p.2.r.undispatched) =
            live.countP fun p => p.2.r.terminal = 0 && p.2.r.intent = 0 :=
          List.countP_congr fun p _ => by simp [Record.undispatched, and_comm]
        omega
    cases found with
    | some s =>
      obtain ⟨hraw, hu⟩ := hr s rfl
      have hs := Keyed.mem_of_find hfound.symm
      simp only [Except.ok.injEq, Prod.mk.injEq] at h
      obtain ⟨rfl, rfl, rfl⟩ := h
      exact ⟨L, rfl, .permit s hs hraw hu hclear⟩
    | none =>
      have hid : ∀ s ∈ L.entries, s.id ≠ k.actionId := Keyed.find_eq_none.1 hfound.symm
      have hwf : Record.Wf b { key := k, raw, admitted := now } :=
        ⟨hk, hb, now.2, ⟨hcreated, hexp⟩, fun h => absurd rfl h, fun h => absurd rfl h,
          fun _ => ⟨rfl, rfl⟩⟩
      have hins := insertAction_encode (L := L) hwf (by simp [Record.undispatched]) hid
      have hlen : (L.encode b).actions.length = L.entries.length := List.length_map _
      simp only [admitAction, hlen] at h
      split_ifs at h with h1 h2
      have hrow : ({ key := k, raw, admitted := now } : Record).actionRow = actionRow k raw now := rfl
      rw [hrow] at hins
      rw [hins] at h
      simp only [ok_bind, Except.ok.injEq, Prod.mk.injEq] at h
      obtain ⟨rfl, rfl, rfl⟩ := h
      refine ⟨_, rfl, .admission hid hcreated hexp ?_ (by omega) hclear⟩
      simpa using hfloor

theorem acquireBody_spec (hL : L.Wf b) (hk : canonicalJournalMetadata k = some raw)
    (hb : b.admits k = true) (h : acquireBody b live now k raw (L.encode b) = .ok (db, r, m)) :
    ∃ L', db = L'.encode b ∧ Acquired L live now k raw L' r m := by
  have hundispatched : ∀ found, found = Keyed.find Record.id k.actionId L.entries →
      (∀ s ∈ found, s.raw = raw ∧ s.undispatched = true) →
      acquireUndispatched b live now k raw found (L.encode b) = .ok (db, r, m) →
      ∃ L', db = L'.encode b ∧ Acquired L live now k raw L' r m := by
    intro found hfound hr h
    unfold acquireUndispatched at h
    split_ifs at h with hlive hcreated hexp
    · cases found with
      | none => cases h
      | some s =>
        obtain ⟨hraw, hu⟩ := hr s rfl
        have hs := Keyed.mem_of_find hfound.symm
        have hid : s.id = k.actionId := Keyed.key_of_find hfound.symm
        have hkey := (hL.valid s hs).key_eq hk hraw
        simp only [← hid, insert_expired hL hs hu now, ok_bind, Except.ok.injEq, Prod.mk.injEq] at h
        obtain ⟨rfl, rfl, rfl⟩ := h
        refine ⟨_, rfl, .expired s hs hraw hu (fun p hp hne => hlive ?_) ?_⟩
        · exact List.any_eq_true.2 ⟨p, hp, by simpa [hid] using hne⟩
        · rw [Record.expiresAt, hkey]; exact hexp
    · refine permit_spec hL hk hb (fun p hp hne => hlive ?_) (not_lt.1 hcreated) (not_le.1 hexp)
        hfound hr h
      exact List.any_eq_true.2 ⟨p, hp, by simpa using hne⟩
  rw [acquireBody, read_encode hL, ok_bind] at h
  cases hfound : Keyed.find Record.id k.actionId L.entries with
  | none =>
    rw [hfound] at h
    exact hundispatched none hfound.symm (fun s hs => by cases hs) h
  | some s =>
    rw [hfound] at h
    simp only at h
    split_ifs at h with hraw hu
    · simp only [Except.ok.injEq, Prod.mk.injEq] at h
      obtain ⟨rfl, rfl, rfl⟩ := h
      refine ⟨L, rfl, .replay s (Keyed.mem_of_find hfound) (not_not.1 hraw).symm ?_⟩
      have : ¬ (s.intent = 0 ∧ s.terminal = 0) := by tauto
      simpa [Record.undispatched] using this
    · refine hundispatched (some s) hfound.symm (fun t ht => ?_) h
      obtain rfl := Option.some.inj ht
      refine ⟨(not_not.1 hraw).symm, Record.undispatched_iff.2 ?_⟩
      tauto

theorem Acquired.key_eq (hL : L.Wf b) (hk : canonicalJournalMetadata k = some raw)
    (h : Acquired L live now k raw L' r m) : r.key = k ∧ r.raw = raw ∧ r ∈ L'.entries := by
  cases h with
  | replay r hr hraw hu => exact ⟨(hL.valid r hr).key_eq hk hraw, hraw, hr⟩
  | expired r hr hraw hu hidle hexp =>
    exact ⟨(hL.valid r hr).key_eq hk hraw, hraw, (hL.sorted.mem_modify hr).2 (Or.inl rfl)⟩
  | permit r hr hraw hu hclear => exact ⟨(hL.valid r hr).key_eq hk hraw, hraw, hr⟩
  | admission hid hcreated hexp hfloor hsize hclear =>
    exact ⟨rfl, rfl, Keyed.mem_insert.2 (Or.inl rfl)⟩

theorem Acquired.evolves (hk : canonicalJournalMetadata k = some raw) (hb : b.admits k = true)
    (h : Acquired L live now k raw L' r m) : Evolves b L L' := by
  cases h with
  | replay r hr hraw hu => exact .refl
  | expired r hr hraw hu hidle hexp => exact .single (.expire r now hr hu hexp)
  | permit r hr hraw hu hclear => exact .refl
  | admission hid hcreated hexp hfloor hsize hclear =>
    refine .single (.admission _ ?_ rfl hid hfloor hsize)
    exact ⟨hk, hb, now.2, ⟨hcreated, hexp⟩, fun h => absurd rfl h, fun h => absurd rfl h,
      fun _ => ⟨rfl, rfl⟩⟩

/-- The record of an active action is that of its attempt. -/
theorem Synced.exists_live_of_mem (hL : L.Wf b) (hs : Synced sys j L) (hr : r ∈ L.entries)
    (hid : r.id ∈ j.active.map Prod.fst) :
    ∃ p ∈ sys.live j, p.2.r = r := by
  obtain ⟨p, hp, hpid⟩ := hs.exists_live hid
  obtain ⟨h1, h2⟩ := hs.mem_entries hp
  exact ⟨p, hp, hL.sorted.eq_of_key h2 hr (h1.trans hpid)⟩

/-- The journal's two counters bound the hot records. -/
theorem Synced.countP_hot_le (hL : L.Wf b) (hs : Synced sys j L) :
    L.entries.countP (Record.hot (j.active.map Prod.fst)) ≤
      ((sys.live j).countP fun p => p.2.r.undispatched) + L.entries.countP Record.unresolved := by
  have hpermits : (L.entries.countP fun r => r.id ∈ j.active.map Prod.fst && r.undispatched) ≤
      (sys.live j).countP fun p => p.2.r.undispatched := by
    have hnodup : L.entries.Nodup := hL.sorted.imp fun hlt heq => hlt.ne (congrArg Record.id heq)
    have hsub : (L.entries.filter fun r => r.id ∈ j.active.map Prod.fst && r.undispatched) ⊆
        ((sys.live j).filter fun p => p.2.r.undispatched).map fun p => p.2.r := by
      intro r hr
      obtain ⟨hr, hact⟩ := List.mem_filter.1 hr
      rw [Bool.and_eq_true, decide_eq_true_eq] at hact
      obtain ⟨p, hp, hpr⟩ := hs.exists_live_of_mem hL hr hact.1
      exact List.mem_map.2 ⟨p, List.mem_filter.2 ⟨hp, by rw [hpr]; exact hact.2⟩, hpr⟩
    have := (List.subperm_of_subset (hnodup.filter _) hsub).length_le
    rwa [List.length_map, ← List.countP_eq_length_filter, ← List.countP_eq_length_filter] at this
  have hsplit : L.entries.countP (Record.hot (j.active.map Prod.fst)) ≤
      (L.entries.countP fun r => r.id ∈ j.active.map Prod.fst && r.undispatched) +
        L.entries.countP Record.unresolved := by
    refine Keyed.countP_le_add fun r _ hr => ?_
    rw [Bool.and_eq_true, decide_eq_true_eq, or_comm]
    exact Record.hot_iff.1 hr
  exact hsplit.trans (Nat.add_le_add_right hpermits _)

theorem Acquired.fenced (hL : L.Wf b) (hs : Synced sys j L) {active : List Bytes}
    (hactive : active = j.active.map Prod.fst) (hf : L.Fenced active)
    (hk : canonicalJournalMetadata k = some raw) (h : Acquired L (sys.live j) now k raw L' r m) :
    L'.Fenced active ∧ (m = true → k.actionId ∉ active ∧ L'.Fenced (k.actionId :: active)) := by
  subst hactive
  have hidle : (∀ p ∈ sys.live j, p.1 ≠ k.actionId) → k.actionId ∉ j.active.map Prod.fst := by
    intro hno hmem
    obtain ⟨p, hp, hpid⟩ := hs.exists_live hmem
    exact hno p hp hpid
  -- a hot record is unresolved or of a live attempt, and a clear key is related to neither
  have hclear : Clear L (sys.live j) k → ∀ s ∈ L.entries,
      s.hot (j.active.map Prod.fst) = true → relatedKeys s.key k = false := by
    intro hc s hs' hhot
    rcases Record.hot_iff.1 hhot with hun | ⟨hid, -⟩
    · exact hc.resolved s hs' hun
    · obtain ⟨p, hp, hpr⟩ := hs.exists_live_of_mem hL hs' hid
      rw [← hpr]; exact hc.unrelated p hp
  cases h with
  | replay r hr hraw hu => exact ⟨hf, fun h => by cases h⟩
  | expired r hr hraw hu hno hexp =>
    refine ⟨hf.modify hL.sorted hr rfl fun hhot => ?_, fun h => by cases h⟩
    rcases Record.hot_iff.1 hhot with hun | ⟨hid, -⟩
    · exact absurd (Record.unresolved_iff.1 hun).2 (Clock.ne_zero now)
    · obtain ⟨p, hp, hpid⟩ := hs.exists_live hid
      exact absurd hpid (hno p hp)
  | permit r hr hraw hu hc =>
    have hkey := (hL.valid r hr).key_eq hk hraw
    refine ⟨hf, fun _ => ⟨hidle hc.idle, ?_⟩⟩
    have hroom := (hs.countP_hot_le hL).trans_lt hc.room
    have := hf.grant hL.sorted hr (by rw [hkey]; exact hclear hc) hroom
    rwa [Record.id, hkey] at this
  | admission hid hcreated hexp hfloor hsize hc =>
    have hno := hidle hc.idle
    have hcold : ({ key := k, raw, admitted := now } : Record).hot (j.active.map Prod.fst) =
        false := by
      rw [Bool.eq_false_iff, Ne, Record.hot_iff]
      rintro (hun | ⟨hid, -⟩)
      · exact absurd rfl (Record.unresolved_iff.1 hun).1
      · exact hno hid
    have hf' := hf.insert (r := { key := k, raw, admitted := now }) hcold
    refine ⟨hf', fun _ => ⟨hno, ?_⟩⟩
    refine hf'.grant (Keyed.sorted_insert hL.sorted hid) (Keyed.mem_insert.2 (Or.inl rfl))
      (fun s hs' hhot => ?_) ?_
    · rcases Keyed.mem_insert.1 hs' with rfl | hs'
      · rw [hcold] at hhot; cases hhot
      · exact hclear hc s hs' hhot
    · rw [Ledger.insert, Keyed.countP_insert, hcold]
      simpa using (hs.countP_hot_le hL).trans_lt hc.room

/-- The records of the active actions stay as they are. -/
theorem Acquired.mem_of_active (hL : L.Wf b) (hs : Synced sys j L)
    (h : Acquired L (sys.live j) now k raw L' r m) {s : Record} (hmem : s ∈ L.entries)
    (hid : s.id ∈ j.active.map Prod.fst) : s ∈ L'.entries := by
  cases h with
  | replay r hr hraw hu => exact hmem
  | expired r hr hraw hu hidle hexp =>
    refine (hL.sorted.mem_modify hr).2 (Or.inr ⟨hmem, fun heq => ?_⟩)
    obtain ⟨p, hp, hpid⟩ := hs.exists_live hid
    exact hidle p hp (hpid.trans heq)
  | permit r hr hraw hu hclear => exact hmem
  | admission hid hcreated hexp hfloor hsize hclear => exact Keyed.mem_insert.2 (Or.inr hmem)

/-- The outcomes of `Acquire` on a system that stores `L`. -/
inductive AcquireResult (b : Binding) (sys : System) (L : Ledger) (c : Call) (k : Key)
    (guard : Option ExecutionCommit) : System × Except Error ℕ → Prop where
  | unchanged (e : Error) : AcquireResult b sys L c k guard (sys, .error e)
  | failed (j : Journal) (e : Error) (L' : Ledger) (hj : sys.journal = some j)
      (hu : j.usable = true)
      (h : L' = L ∨ ∃ raw r m, canonicalJournalMetadata k = some raw ∧ b.admits k = true ∧
        Acquired L (sys.live j) c.now k raw L' r m) :
      AcquireResult b sys L c k guard
        ({ sys with db := L'.encode b, journal := some { j with failed := true } }, .error e)
  | handed (j : Journal) (raw : Bytes) (L' : Ledger) (r : Record) (m : Bool)
      (hj : sys.journal = some j) (hu : j.usable = true)
      (hk : canonicalJournalMetadata k = some raw) (hb : b.admits k = true)
      (h : Acquired L (sys.live j) c.now k raw L' r m) :
      AcquireResult b sys L c k guard
        (sys.hand j (L'.encode b) k r m guard, .ok sys.attempts.length)

theorem Represents.acquire_result (h : Represents b sys L) (c : Call) (k : Key)
    (guard : Option ExecutionCommit) :
    AcquireResult b sys L c k guard (sys.acquire c k guard) := by
  rw [System.acquire]
  cases hj : sys.journal with
  | none => exact .unchanged _
  | some j =>
    obtain rfl := h.binding j hj
    cases hk : canonicalJournalMetadata k with
    | none =>
      simp only
      split_ifs
      · exact .unchanged _
      · exact .unchanged _
    | some raw =>
      simp only
      split_ifs with hguard hb hlock hu
      · exact .unchanged _
      · exact .unchanged _
      · exact .unchanged _
      · exact .unchanged _
      · have hspec : ∀ {db' : Database} {x : Record × Bool},
            acquireBody j.binding (sys.live j) c.now k raw sys.db = .ok (db', x) →
            ∃ L', db' = L'.encode j.binding ∧ Acquired L (sys.live j) c.now k raw L' x.1 x.2 := by
          intro db' x hbody
          rw [h.db] at hbody
          exact acquireBody_spec h.wf hk (by simpa using hb) hbody
        have hb : j.binding.admits k = true := by simpa using hb
        have hu : j.usable = true := by simpa using hu
        have hres := transactionGuarded_result guard.isSome c.tx j.failed sys.db
          (acquireBody j.binding (sys.live j) c.now k raw)
        generalize transactionGuarded guard.isSome c.tx j.failed sys.db
          (acquireBody j.binding (sys.live j) c.now k raw) = result at hres
        cases hres with
        | committed hbody =>
          obtain ⟨L', rfl, hacq⟩ := hspec hbody
          exact .handed j raw L' _ _ hj hu hk hb hacq
        | refused e =>
          have hsame : ({ sys with journal := some j } : System) = sys := by rw [← hj]
          simp only [hsame]
          exact .unchanged e
        | aborted =>
          rw [h.db]
          exact .failed j _ L hj hu (Or.inl rfl)
        | uncertain hbody =>
          obtain ⟨L', rfl, hacq⟩ := hspec hbody
          exact .failed j _ L' hj hu (Or.inr ⟨raw, _, _, hk, hb, hacq⟩)

theorem Represents.acquire (h : Represents b sys L) (c : Call) (k : Key)
    (guard : Option ExecutionCommit) :
    ∃ L', Represents b (sys.acquire c k guard).1 L' ∧ Evolves b L L' := by
  have hres := h.acquire_result c k guard
  generalize sys.acquire c k guard = result at hres
  cases hres with
  | unchanged e => exact ⟨L, h, .refl⟩
  | failed j e L' hj hu hor =>
    rcases hor with rfl | ⟨raw, r, m, hk, hb, hacq⟩
    · exact ⟨L', h.failed hj h.wf h.unfenced, .refl⟩
    · have hev := hacq.evolves hk hb
      have hf := (hacq.fenced h.wf (h.synced j hj hu) (System.activeIds_of_usable hj hu) h.fenced
        hk).1
      exact ⟨L', h.failed hj (hev.wf h.wf) (hf.mono fun _ hid => absurd hid List.not_mem_nil), hev⟩
  | handed j raw L' r m hj hu hk hb hacq =>
    have hsync := h.synced j hj hu
    have hev := hacq.evolves hk hb
    obtain ⟨hf, hgrant⟩ := hacq.fenced h.wf hsync (System.activeIds_of_usable hj hu) h.fenced hk
    obtain ⟨hkey, hraw, hr⟩ := hacq.key_eq h.wf hk
    refine ⟨L', ⟨rfl, hev.wf h.wf, ?_, ?_, ?_⟩, hev⟩
    · rw [System.hand_usable hu, ← System.activeIds_of_usable hj hu]
      cases m with
      | false => exact hf
      | true => exact (hgrant rfl).2
    · intro j' hj'
      rw [← h.binding j hj]
      cases m <;> (obtain rfl := Option.some.inj hj'; rfl)
    · intro j' hj' _
      have hnew : (sys.attempts ++ [⟨sys.generation, r, false, m, guard⟩])[sys.attempts.length]? =
          some ⟨sys.generation, r, false, m, guard⟩ := by simp
      have hold : ∀ p ∈ j.active, ∃ a,
          (sys.attempts ++ [⟨sys.generation, r, false, m, guard⟩])[p.2]? = some a ∧
            a.generation = sys.generation ∧ a.mutable = true ∧ a.closed = false ∧ a.r.id = p.1 ∧
            a.r ∈ L'.entries := by
        intro p hp
        obtain ⟨a, ha, hgen, hmut, hclosed, hid, hmem⟩ := hsync.attempt p hp
        refine ⟨a, ?_, hgen, hmut, hclosed, hid, hacq.mem_of_active h.wf hsync hmem ?_⟩
        · rw [List.getElem?_append_left (List.getElem?_eq_some_iff.1 ha).1]; exact ha
        · rw [hid]; exact List.mem_map_of_mem hp
      cases m with
      | false =>
        obtain rfl := Option.some.inj hj'
        exact ⟨hsync.keys, hold⟩
      | true =>
        obtain rfl := Option.some.inj hj'
        have hno := (hgrant rfl).1
        rw [System.activeIds_of_usable hj hu] at hno
        refine ⟨List.nodup_cons.2 ⟨hno, hsync.keys⟩, fun p hp => ?_⟩
        rcases List.mem_cons.1 hp with rfl | hp
        · exact ⟨_, hnew, rfl, rfl, rfl, congrArg Key.actionId hkey, hr⟩
        · exact hold p hp

/-! ## Intent and finish -/

theorem intent_rows (hr : r.Wf b) (hu : r.undispatched = true) (now : Clock) :
    r.eventRows = [] ∧
      (Transition.intent.apply now r).eventRows = [Transition.intent.event r.id now] := by
  obtain ⟨hi, ht⟩ := Record.undispatched_iff.1 hu
  have hc := (hr.pending ht).1
  constructor
  · simp [Record.eventRows, Record.intentRows, Record.terminalRows, hi, hc]
  · simp [Record.eventRows, Record.intentRows, Record.terminalRows, Transition.apply, hc,
      Clock.ne_zero now, Record.id]

theorem finish_rows (hr : r.Wf b) (ht : r.terminal = 0) (code : Code) (now : Clock) :
    r.eventRows = r.intentRows ∧ ((Transition.finish code).apply now r).eventRows =
      r.eventRows ++ [(Transition.finish code).event r.id now] := by
  obtain ⟨hc, hreason⟩ := hr.pending ht
  have hrows : r.eventRows = r.intentRows := by
    simp [Record.eventRows, Record.terminalRows, hc]
  refine ⟨hrows, ?_⟩
  rw [hrows]
  simp [Record.eventRows, Record.intentRows, Record.terminalRows, Transition.apply,
    Clock.ne_zero now, Record.id, Record.terminalEvent, Transition.event, hreason]

theorem transitionBody_spec (hL : L.Wf b) (hr : r ∈ L.entries) {t : Transition}
    (ht : t.allowed r = true) {u : Unit} (h : transitionBody b now r t (L.encode b) = .ok (db, u)) :
    db = (L.modify r.id (t.apply now)).encode b ∧ Change b L (L.modify r.id (t.apply now)) := by
  have hwf := hL.valid r hr
  have hfind : Keyed.find Record.id r.key.actionId L.entries = some r :=
    hL.sorted.find_eq_some.2 ⟨hr, rfl⟩
  simp only [transitionBody, read_encode hL, hfind] at h
  split_ifs at h with hsame hexp
  simp only [ne_eq, not_true_eq_false, false_or, not_or, not_and, not_lt] at hsame
  obtain ⟨-, hadm, hint⟩ := hsame
  have hstamp := length_stamp now.2.1.le now.2.2
  cases t with
  | intent =>
    have hu : r.undispatched = true := by
      simp only [Transition.allowed, Bool.and_eq_true, decide_eq_true_eq] at ht
      exact Record.undispatched_iff.2 ⟨ht.2, ht.1⟩
    obtain ⟨hrows, hrows'⟩ := intent_rows hwf hu now
    have hcheck : (Transition.intent.event r.id now).check = true := by
      simp [Transition.event, EventRow.check, eventCodes, hstamp]
    have hins := insertEvent_encode hL hr (Transition.intent.event r.id now)
      (Transition.intent.apply now) rfl (by simp [hrows]) (by rw [hrows, hrows']; rfl)
      (fun _ => rfl) hcheck
    rw [show r.key.actionId = r.id from rfl, hins] at h
    simp only [ok_bind, Except.ok.injEq, Prod.mk.injEq] at h
    exact ⟨h.1.symm, .intend r now hr hu hadm (not_le.1 fun hle => hexp ⟨rfl, hle⟩)⟩
  | finish code =>
    simp only [Transition.allowed, Bool.and_eq_true, decide_eq_true_eq] at ht
    obtain ⟨ht, hcode⟩ := ht
    obtain ⟨hrows, hrows'⟩ := finish_rows hwf ht code now
    have hlast : ∀ e ∈ r.eventRows, e.ordinal < 2 := by
      intro e he
      rw [hrows, Record.intentRows] at he
      split_ifs at he
      · rw [List.mem_singleton.1 he]; simp [Transition.event]
      · cases he
    have hcheck : ((Transition.finish code).event r.id now).check = true := by
      cases code <;> simp [terminalAllowed] at hcode <;>
        simp [Transition.event, EventRow.check, eventCodes, hstamp]
    have hins := insertEvent_encode hL hr ((Transition.finish code).event r.id now)
      ((Transition.finish code).apply now) rfl hlast hrows' (fun _ => rfl) hcheck
    rw [show r.key.actionId = r.id from rfl, hins] at h
    simp only [ok_bind, Except.ok.injEq, Prod.mk.injEq] at h
    exact ⟨h.1.symm, .finish r now code hr ht hadm hint hcode⟩

/-- The outcomes of `Intent` and `Finish` on a system that stores `L`. -/
inductive TransitionResult (b : Binding) (sys : System) (L : Ledger) (c : Call) (i : ℕ)
    (t : Transition) : System × Except Error Unit → Prop where
  | unchanged (e : Error) : TransitionResult b sys L c i t (sys, .error e)
  | failed (j : Journal) (a : Attempt) (e : Error) (L' : Ledger) (hj : sys.journal = some j)
      (hu : j.usable = true) (ha : sys.attempts[i]? = some a) (hact : (a.r.id, i) ∈ j.active)
      (hallowed : t.allowed a.r = true)
      (h : L' = L ∨ L' = L.modify a.r.id (t.apply c.now) ∧ Change b L L') :
      TransitionResult b sys L c i t
        ({ sys with db := L'.encode b, journal := some { j with failed := true } }, .error e)
  | done (j : Journal) (a : Attempt) (hj : sys.journal = some j) (hu : j.usable = true)
      (ha : sys.attempts[i]? = some a) (hact : (a.r.id, i) ∈ j.active)
      (hallowed : t.allowed a.r = true)
      (h : Change b L (L.modify a.r.id (t.apply c.now))) :
      TransitionResult b sys L c i t
        ({ sys with
           db := (L.modify a.r.id (t.apply c.now)).encode b
           attempts := sys.attempts.set i { a with r := t.apply c.now a.r } }, .ok ())

theorem Represents.transition_result (h : Represents b sys L) (c : Call) (i : ℕ) (t : Transition) :
    TransitionResult b sys L c i t (sys.transition c i t) := by
  rw [System.transition]
  cases ha : sys.attempts[i]? with
  | none => exact .unchanged _
  | some a =>
    cases hj : sys.journal with
    | none => exact .unchanged _
    | some j =>
      obtain rfl := h.binding j hj
      simp only
      split_ifs with hguard hlock hno
      · exact .unchanged _
      · exact .unchanged _
      · exact .unchanged _
      · simp only [ne_eq, not_or, not_not, Bool.not_eq_true', Bool.not_eq_false,
          Bool.not_eq_true] at hno
        obtain ⟨hgen, hu, hmut, hclosed, hlook, hallowed⟩ := hno
        have hact : (a.r.id, i) ∈ j.active := mem_of_lookup hlook
        have hr : a.r ∈ L.entries := by
          obtain ⟨a', ha', -, -, -, -, hmem⟩ := (h.synced j hj hu).attempt _ hact
          obtain rfl := Option.some.inj (ha.symm.trans ha')
          exact hmem
        have hspec : ∀ {db' : Database} {u : Unit},
            transitionBody j.binding c.now a.r t sys.db = .ok (db', u) →
            db' = (L.modify a.r.id (t.apply c.now)).encode j.binding ∧
              Change j.binding L (L.modify a.r.id (t.apply c.now)) := by
          intro db' u hbody
          rw [h.db] at hbody
          exact transitionBody_spec h.wf hr hallowed hbody
        have hres := transactionGuarded_result a.execution.isSome c.tx j.failed sys.db
          (transitionBody j.binding c.now a.r t)
        generalize transactionGuarded a.execution.isSome c.tx j.failed sys.db
          (transitionBody j.binding c.now a.r t) = result at hres
        have hsame : ({ sys with journal := some j } : System) = sys := by rw [← hj]
        cases hres with
        | committed hbody =>
          obtain ⟨rfl, hchange⟩ := hspec hbody
          have := TransitionResult.done (c := c) j a hj hu ha hact hallowed hchange
          simpa only [← hj] using this
        | refused e =>
          simp only [hsame]
          exact .unchanged e
        | aborted =>
          rw [h.db]
          exact .failed j a _ L hj hu ha hact hallowed (Or.inl rfl)
        | uncertain hbody =>
          obtain ⟨rfl, hchange⟩ := hspec hbody
          exact .failed j a _ _ hj hu ha hact hallowed (Or.inr ⟨rfl, hchange⟩)

theorem Represents.transition (h : Represents b sys L) (c : Call) (i : ℕ) (t : Transition) :
    ∃ L', Represents b (sys.transition c i t).1 L' ∧ Evolves b L L' := by
  have hres := h.transition_result c i t
  generalize sys.transition c i t = result at hres
  have hfenced : ∀ {j a}, sys.journal = some j → j.usable = true → sys.attempts[i]? = some a →
      (a.r.id, i) ∈ j.active → t.allowed a.r = true → a.r ∈ L.entries ∧
        (L.modify a.r.id (t.apply c.now)).Fenced sys.activeIds := by
    intro j a hj hu ha hact hallowed
    obtain ⟨a', ha', -, -, -, -, hmem⟩ := (h.synced j hj hu).attempt _ hact
    obtain rfl := Option.some.inj (ha.symm.trans ha')
    refine ⟨hmem, h.fenced.modify h.wf.sorted hmem (apply_key ..) (hot_of_transition hallowed ?_)⟩
    rw [System.activeIds_of_usable hj hu]
    exact List.mem_map_of_mem hact
  cases hres with
  | unchanged e => exact ⟨L, h, .refl⟩
  | failed j a e L' hj hu ha hact hallowed hor =>
    rcases hor with rfl | ⟨rfl, hchange⟩
    · exact ⟨L', h.failed hj h.wf h.unfenced, .refl⟩
    · have hf := (hfenced hj hu ha hact hallowed).2
      exact ⟨_, h.failed hj (hchange.wf h.wf) (hf.mono fun _ hid => absurd hid List.not_mem_nil),
        .single hchange⟩
  | done j a hj hu ha hact hallowed hchange =>
    obtain ⟨hmem, hf⟩ := hfenced hj hu ha hact hallowed
    have hsync := h.synced j hj hu
    refine ⟨_, ⟨rfl, hchange.wf h.wf, hf, h.binding, fun j' hj' hu' => ?_⟩, .single hchange⟩
    obtain rfl := Option.some.inj (hj.symm.trans hj')
    refine ⟨hsync.keys, fun p hp => ?_⟩
    obtain ⟨a', ha', hgen, hmut, hclosed, hid, hmem'⟩ := hsync.attempt p hp
    by_cases hpi : p.2 = i
    · rw [hpi, ha] at ha'
      obtain rfl := Option.some.inj ha'
      refine ⟨{ a with r := t.apply c.now a.r }, ?_, hgen, hmut, hclosed, ?_, ?_⟩
      · rw [hpi, List.getElem?_set_self (List.getElem?_eq_some_iff.1 ha).1]
      · rw [← hid, Record.id, apply_key]; rfl
      · exact (h.wf.sorted.mem_modify hmem).2 (Or.inl rfl)
    · refine ⟨a', ?_, hgen, hmut, hclosed, hid, (h.wf.sorted.mem_modify hmem).2 (Or.inr ⟨hmem', ?_⟩)⟩
      · rw [List.getElem?_set_ne (Ne.symm hpi)]; exact ha'
      · intro heq
        have hpair : p = (a.r.id, i) :=
          List.inj_on_of_nodup_map hsync.keys hp hact (hid.symm.trans heq)
        exact hpi (congrArg Prod.snd hpair)

end

end ActionJournal

end HomeLab
