/-
  A directory enrolls at most once.

  Only the process that created the lock file changes the directory, and the
  lock file is created once.  What the owner knows describes the directory
  exactly; what any other process has read stays true, because records are only
  added.  So one exchange is made at most, after its `ATTEMPTED` record is
  durable; a directory that opens was enrolled by that exchange; and if its owner
  dies before `READY` is in place, nobody opens or enrolls it any more.
-/
import HomeLab.Enrollment.Protocol

namespace HomeLab

namespace Enrollment

open Prog UploadState

/-! ## What a phase says about the world -/

/-- The file holds the record. -/
def Holding (f : Option File) (r : EnrollmentRecord) : Prop :=
  ∃ g, f = some g ∧ g.content = some r

/-- The file holds the record, and both survive. -/
def Durable (f : Option File) (r : EnrollmentRecord) : Prop :=
  ∃ g, f = some g ∧ g.content = some r ∧ g.synced = true ∧ g.named = true

/-- The only exchange was accepted for the binding and gave the secret. -/
def Accepted (w : World) (b : Binding) (secret : Bytes) : Prop :=
  ∃ grant, w.exchanges = [(⟨b, grant⟩, some ⟨.accepted, b.serverId, secret⟩)]

def Stage.Describes : Stage → Option File → Prop
  | none, f => f = Option.none
  | empty, f => f.isSome = true
  | written r, f => Holding f r
  | synced r, f => ∃ g, f = some g ∧ g.content = some r ∧ g.synced = true

def LedgerStage.Describes (w : World) (b : Binding) : LedgerStage → Prop
  | absent => w.provisions = [] ∧ w.ledger = none
  | made locked => w.provisions = [] ∧
    ∃ l, w.ledger = some l ∧ l.record = none ∧ l.journal = none ∧ (locked = true → l.lock = true)
  | provisioned profile => w.provisions = [(b, profile)] ∧
    (validBinding b = true ∧ validProfile profile = true) ∧ ∃ l, w.ledger = some l ∧ l.lock = true ∧ l.journal = none ∧
      ∃ pages, l.database = some ⟨pages, some (freshRecord b profile)⟩ ∧
        pages ≤ (limits profile.kind).pages

/-- The directory before the exchange has been accepted. -/
structure Unpaid (w : World) : Prop where
  credential : w.file .credential = none
  ready : w.file .ready = none
  exchanges : w.exchanges = []
  ledger : LedgerStage.absent.Describes w ⟨[], []⟩

/-- The directory once the exchange has been accepted. -/
structure Paid (w : World) (b : Binding) (secret : Bytes) : Prop where
  attempt : Durable (w.file .attempt) ⟨.attempted, b, []⟩
  accepted : Accepted w b secret
  secret : secretPattern secret = true

def Progress.Describes (w : World) : Progress → Prop
  | locked => w.file .attempt = none ∧ Unpaid w
  | begun b named => Unpaid w ∧ ∃ f, w.file .attempt = some f ∧
    f.content = some ⟨.attempted, b, []⟩ ∧ f.synced = true ∧ (named = true → f.named = true)
  | exchanged b secret => Paid w b secret ∧ w.file .credential = none ∧ w.file .ready = none ∧
    LedgerStage.absent.Describes w b
  | stored b secret l => Paid w b secret ∧
    Holding (w.file .credential) ⟨.credential, b, secret⟩ ∧ w.file .ready = none ∧ l.Describes w b
  | done b secret profile => Paid w b secret ∧
    Holding (w.file .credential) ⟨.credential, b, secret⟩ ∧
    Holding (w.file .ready) ⟨.ready, b, []⟩ ∧ (LedgerStage.provisioned profile).Describes w b

def Phase.Describes (w : World) (me : ℕ) : Phase → Prop
  | outside => True
  | own p stage => w.creator = some me ∧ stage.Describes (w.file .stage) ∧ p.Describes w
  | spent => w.creator = some me
  | found => (w.file .ready).isSome = true
  | saw r => (w.file .ready).isSome = true ∧ Holding (w.file .credential) r
  | loaded r l => (w.file .ready).isSome = true ∧ Holding (w.file .credential) r ∧
    (l.binding, l.profile) ∈ w.provisions

/-- What is known of a process. -/
def Tracks (w : World) (me : ℕ) (q : Phase) : Prop := me < w.processes ∧ q.Describes w me

/-- What holds of the directory whoever runs. -/
structure Sound (w : World) : Prop where
  fresh : w.creator = none →
    (∀ n, w.file n = none) ∧ w.ledger = none ∧ w.exchanges = [] ∧ w.provisions = []
  lock : w.creator ≠ none → (w.file .lock).isSome = true
  creator : ∀ i, w.creator = some i → i < w.processes
  once : w.exchanges.length ≤ 1
  durable : ∀ x ∈ w.exchanges, Durable (w.file .attempt) ⟨.attempted, x.1.binding, []⟩
  credential : ∀ r, Holding (w.file .credential) r → r.state = .credential ∧
    Accepted w r.binding r.secret
  provisioned : w.provisions.length ≤ 1
  ledger : ∀ l r, w.ledger = some l → l.record = some r → (r.binding, r.profile) ∈ w.provisions

/-! ## Calls that keep the records -/

def FileKept : Option File → Option File → Prop
  | none, none => True
  | some f, some g => g.content = f.content ∧ (f.synced = true → g.synced = true) ∧
    (f.named = true → g.named = true)
  | _, _ => False

/-- Nothing but locks, what has been synced and the stage file changes. -/
structure Staged (w w' : World) : Prop where
  file : ∀ n, n ≠ .stage → FileKept (w.file n) (w'.file n)
  ledger : w'.ledger.map (·.unlocked) = w.ledger.map (·.unlocked)
  creator : w'.creator = w.creator
  exchanges : w'.exchanges = w.exchanges
  provisions : w'.provisions = w.provisions
  processes : w.processes ≤ w'.processes

/-- The stage file does not change either. -/
structure Kept (w w' : World) : Prop extends Staged w w' where
  stage : FileKept (w.file .stage) (w'.file .stage)

theorem FileKept.refl (f : Option File) : FileKept f f := by
  cases f with
  | none => trivial
  | some f => exact ⟨rfl, id, id⟩

theorem Kept.refl (w : World) : Kept w w :=
  ⟨⟨fun _ _ => .refl _, rfl, rfl, rfl, rfl, le_rfl⟩, .refl _⟩

variable {f f' : Option File} {r : EnrollmentRecord} {b : Binding} {secret : Bytes} {n : Name}
  {p p' : Progress} {c : Call} {e : Environment} {s : System} {t : Thread calls ℕ Finish} {i : ℕ}

theorem FileKept.trans {g h : Option File} (hfg : FileKept f g) (hgh : FileKept g h) :
    FileKept f h := by
  cases f <;> cases g <;> cases h <;> first | trivial | exact hfg.elim | exact hgh.elim | skip
  exact ⟨hgh.1.trans hfg.1, fun hs => hgh.2.1 (hfg.2.1 hs), fun hn => hgh.2.2 (hfg.2.2 hn)⟩

theorem Kept.trans {u v w : World} (h : Kept u v) (h' : Kept v w) : Kept u w :=
  ⟨⟨fun n hn => (h.file n hn).trans (h'.file n hn), h'.ledger.trans h.ledger,
    h'.creator.trans h.creator, h'.exchanges.trans h.exchanges, h'.provisions.trans h.provisions,
    h.processes.trans h'.processes⟩, h.stage.trans h'.stage⟩

theorem FileKept.none (h : FileKept none f) : f = none := by
  cases f with
  | none => rfl
  | some f => exact h.elim

theorem FileKept.some {f : File} (h : FileKept (some f) f') :
    ∃ g, f' = some g ∧ g.content = f.content ∧ (f.synced = true → g.synced = true) ∧
      (f.named = true → g.named = true) := by
  cases f' with
  | none => exact h.elim
  | some g => exact ⟨g, rfl, h⟩

variable {w w' : World} {me : ℕ} {q q' : Phase}

theorem Kept.every (h : Kept w w') (n : Name) : FileKept (w.file n) (w'.file n) := by
  by_cases hn : n = .stage
  · exact hn ▸ h.stage
  · exact h.file n hn

theorem FileKept.holding (h : FileKept f f') (hr : Holding f r) : Holding f' r := by
  obtain ⟨g, rfl, hg⟩ := hr
  obtain ⟨g', rfl, hcontent, -⟩ := h.some
  exact ⟨g', rfl, hcontent.trans hg⟩

theorem FileKept.holding_iff (h : FileKept f f') :
    Holding f' r ↔ Holding f r := by
  refine ⟨?_, h.holding⟩
  rintro ⟨g', rfl, hg'⟩
  cases f with
  | none => exact h.elim
  | some f => exact ⟨f, rfl, h.1.symm.trans hg'⟩

theorem FileKept.durable (h : FileKept f f') (hr : Durable f r) : Durable f' r := by
  obtain ⟨g, rfl, hg, hsynced, hnamed⟩ := hr
  obtain ⟨g', rfl, hcontent, hs, hn⟩ := h.some
  exact ⟨g', rfl, hcontent.trans hg, hs hsynced, hn hnamed⟩

theorem FileKept.isSome (h : FileKept f f') : f'.isSome = f.isSome := by
  cases f <;> cases f' <;> first | rfl | exact h.elim

theorem Staged.accepted (h : Staged w w') (ha : Accepted w b secret) :
    Accepted w' b secret := by
  obtain ⟨grant, hg⟩ := ha
  exact ⟨grant, h.exchanges.trans hg⟩

/-- The ledger directory is the same but for its lock. -/
theorem Staged.ledger_some (h : Staged w w') {l : LedgerDirectory} (hl : w.ledger = some l) :
    ∃ l', w'.ledger = some l' ∧ l'.lock = l.lock ∧ l'.database = l.database ∧
      l'.journal = l.journal := by
  have hledger := h.ledger
  rw [hl, Option.map_some, Option.map_eq_some_iff] at hledger
  obtain ⟨l', hl', hu⟩ := hledger
  rw [LedgerDirectory.unlocked, LedgerDirectory.unlocked, LedgerDirectory.mk.injEq] at hu
  exact ⟨l', hl', hu.1, hu.2.2⟩

theorem Staged.ledger_none (h : Staged w w') (hl : w.ledger = none) : w'.ledger = none := by
  have hledger := h.ledger
  rw [hl] at hledger
  exact Option.map_eq_none_iff.1 hledger

theorem Kept.describes (h : Kept w w') {stage : Stage} (hs : stage.Describes (w.file .stage)) :
    stage.Describes (w'.file .stage) := by
  have hfile := h.stage
  cases stage with
  | none =>
    rw [Stage.Describes] at hs ⊢
    rw [hs] at hfile
    exact hfile.none
  | empty => exact hfile.isSome.trans hs
  | written r => exact hfile.holding hs
  | synced r =>
    obtain ⟨g, hg, hcontent, hsynced⟩ := hs
    rw [hg] at hfile
    obtain ⟨g', hg', hc, hsync, -⟩ := hfile.some
    exact ⟨g', hg', hc.trans hcontent, hsync hsynced⟩

theorem Staged.ledgerStage (h : Staged w w') {l : LedgerStage} (hl : l.Describes w b) :
    l.Describes w' b := by
  cases l with
  | absent => exact ⟨h.provisions.trans hl.1, h.ledger_none hl.2⟩
  | made locked =>
    obtain ⟨hprov, l, hl, hrecord, hjournal, hlock⟩ := hl
    obtain ⟨l', hl', hlock', hdatabase', hjournal'⟩ := h.ledger_some hl
    refine ⟨h.provisions.trans hprov, l', hl', ?_, hjournal'.trans hjournal,
      fun ht => hlock'.trans (hlock ht)⟩
    rw [LedgerDirectory.record, hdatabase']
    exact hrecord
  | provisioned profile =>
    obtain ⟨hprov, hvalid, l, hl, hlock, hjournal, pages, hdatabase, hpages⟩ := hl
    obtain ⟨l', hl', hlock', hdatabase', hjournal'⟩ := h.ledger_some hl
    exact ⟨h.provisions.trans hprov, hvalid, l', hl', hlock'.trans hlock, hjournal'.trans hjournal, pages,
      hdatabase'.trans hdatabase, hpages⟩

theorem Staged.file_none (h : Staged w w') (hne : n ≠ .stage) (hn : w.file n = none) :
    w'.file n = none := by
  have hfile := h.file n hne
  rw [hn] at hfile
  exact hfile.none

theorem Staged.unpaid (h : Staged w w') (hu : Unpaid w) : Unpaid w' :=
  ⟨h.file_none nofun hu.credential, h.file_none nofun hu.ready, h.exchanges.trans hu.exchanges,
    h.ledgerStage hu.ledger⟩

theorem Staged.paid (h : Staged w w') (hp : Paid w b secret) :
    Paid w' b secret :=
  ⟨(h.file .attempt nofun).durable hp.attempt, h.accepted hp.accepted, hp.secret⟩

theorem Staged.progress (h : Staged w w') (hp : p.Describes w) : p.Describes w' := by
  cases p with
  | locked => exact ⟨h.file_none nofun hp.1, h.unpaid hp.2⟩
  | begun b named =>
    obtain ⟨hu, f, hf, hcontent, hsynced, hnamed⟩ := hp
    have hfile := h.file .attempt nofun
    rw [hf] at hfile
    obtain ⟨g, hg, hc, hs, hn⟩ := hfile.some
    exact ⟨h.unpaid hu, g, hg, hc.trans hcontent, hs hsynced, fun ht => hn (hnamed ht)⟩
  | exchanged b secret =>
    exact ⟨h.paid hp.1, h.file_none nofun hp.2.1, h.file_none nofun hp.2.2.1, h.ledgerStage hp.2.2.2⟩
  | stored b secret l =>
    exact ⟨h.paid hp.1, (h.file .credential nofun).holding hp.2.1, h.file_none nofun hp.2.2.1,
      h.ledgerStage hp.2.2.2⟩
  | done b secret profile =>
    exact ⟨h.paid hp.1, (h.file .credential nofun).holding hp.2.1, (h.file .ready nofun).holding hp.2.2.1,
      h.ledgerStage hp.2.2.2⟩

theorem Kept.tracks (h : Kept w w') (ht : Tracks w me q) : Tracks w' me q := by
  obtain ⟨hme, hq⟩ := ht
  refine ⟨hme.trans_le h.processes, ?_⟩
  cases q with
  | outside => trivial
  | own p stage => exact ⟨h.creator.trans hq.1, h.describes hq.2.1, h.progress hq.2.2⟩
  | spent => exact h.creator.trans hq
  | found => exact (h.file .ready nofun).isSome.trans hq
  | saw r => exact ⟨(h.file .ready nofun).isSome.trans hq.1, (h.file .credential nofun).holding hq.2⟩
  | loaded r l =>
    refine ⟨(h.file .ready nofun).isSome.trans hq.1, (h.file .credential nofun).holding hq.2.1, ?_⟩
    rw [h.provisions]
    exact hq.2.2

/-- A sound directory stays sound; while nobody owns it, there is no stage file. -/
theorem Staged.sound (h : Staged w w') (hs : Sound w)
    (hstage : w.creator = none → FileKept (w.file .stage) (w'.file .stage)) : Sound w' where
  fresh := by
    intro hc
    have hfree := h.creator.symm.trans hc
    obtain ⟨hfile, hledger, hexchanges, hprov⟩ := hs.fresh hfree
    refine ⟨fun n => ?_, h.ledger_none hledger, h.exchanges.trans hexchanges, h.provisions.trans hprov⟩
    by_cases hn : n = .stage
    · subst hn
      exact (hfile .stage ▸ hstage hfree).none
    · exact h.file_none hn (hfile n)
  lock := fun hc => (h.file .lock nofun).isSome.trans (hs.lock (by rwa [← h.creator]))
  creator := fun i hi => (hs.creator i (h.creator.symm.trans hi)).trans_le h.processes
  once := by rw [h.exchanges]; exact hs.once
  durable := by
    intro x hx
    rw [h.exchanges] at hx
    exact (h.file .attempt nofun).durable (hs.durable x hx)
  credential := by
    intro r hr
    obtain ⟨hstate, ha⟩ := hs.credential r ((h.file .credential nofun).holding_iff.1 hr)
    exact ⟨hstate, h.accepted ha⟩
  provisioned := by rw [h.provisions]; exact hs.provisioned
  ledger := by
    intro l r hl hr
    rw [h.provisions]
    cases hw : w.ledger with
    | none =>
      rw [h.ledger_none hw] at hl
      cases hl
    | some l' =>
      obtain ⟨l'', hl'', -, hdatabase, -⟩ := h.ledger_some hw
      obtain rfl := Option.some.inj (hl''.symm.trans hl)
      rw [LedgerDirectory.record, hdatabase] at hr
      exact hs.ledger l' r hw hr

theorem Kept.sound (h : Kept w w') (hs : Sound w) : Sound w' := h.toStaged.sound hs fun _ => h.stage

/-! ## Harmless calls -/

theorem handler_loc (c : Call) (e : Environment) (w : World) (me : ℕ) :
    (handler c e w me).2.1 = me := by
  cases c <;> rfl

theorem Kept.of_file {files : Name → Option File} (h : ∀ n, FileKept (w.file n) (files n)) :
    Kept w { w with file := files } :=
  ⟨⟨fun n _ => h n, rfl, rfl, rfl, rfl, le_rfl⟩, h .stage⟩

theorem kept_syncFile (w : World) (n : Name) (e : Environment) : Kept w (w.syncFile n e).1 := by
  rw [World.syncFile]
  split
  · exact .refl w
  refine .of_file fun m => ?_
  by_cases hm : m = n
  · subst hm
    simp only [Function.update_self]
    cases w.file m with
    | none => trivial
    | some f => exact ⟨rfl, fun _ => rfl, id⟩
  · simp only [Function.update_of_ne hm]
    exact .refl _

theorem kept_syncDirectory (w : World) (e : Environment) : Kept w (w.syncDirectory e).1 := by
  rw [World.syncDirectory]
  split
  · exact .refl w
  refine .of_file fun m => ?_
  show FileKept (w.file m) ((w.file m).map _)
  cases w.file m with
  | none => trivial
  | some f => exact ⟨rfl, id, fun _ => rfl⟩

theorem kept_flock (w : World) (me : ℕ) (e : Environment) : Kept w (w.flock me e).1 := by
  rw [World.flock]
  split
  · exact .refl w
  · exact ⟨⟨fun _ _ => .refl _, rfl, rfl, rfl, rfl, le_rfl⟩, .refl _⟩

theorem kept_close (w : World) (me : ℕ) : Kept w (w.close me) := by
  rw [World.close]
  split
  · exact ⟨⟨fun _ _ => .refl _, rfl, rfl, rfl, rfl, le_rfl⟩, .refl _⟩
  · exact .refl w

theorem release_unlocked (l : LedgerDirectory) (me : ℕ) : (l.release me).unlocked = l.unlocked := by
  rw [LedgerDirectory.release]
  split <;> rfl

theorem kept_closeLedger (w : World) (me : ℕ) : Kept w (w.closeLedger me) := by
  refine ⟨⟨fun _ _ => .refl _, ?_, rfl, rfl, rfl, le_rfl⟩, .refl _⟩
  simp only [World.closeLedger, Option.map_map]
  congr 1
  funext l
  exact release_unlocked l me

theorem kept_openLedgerLock (w : World) (me : ℕ) (e : Environment) :
    Kept w (w.ledgerLock false me e).1 := by
  rw [World.ledgerLock]
  cases hl : w.ledger with
  | none => exact .refl w
  | some l =>
    simp only [Bool.false_eq_true, if_false]
    split
    · exact .refl w
    · refine ⟨⟨fun _ _ => .refl _, ?_, rfl, rfl, rfl, le_rfl⟩, .refl _⟩
      rw [hl]
      rfl

theorem harmless_kept (h : harmless c = true) (e : Environment) (w : World) (me : ℕ) :
    Kept w (handler c e w me).1 := by
  cases c with
  | create | write | rename | exchange | mkdirLedger | createDatabase | insert => cases h
  | syncFile n => exact kept_syncFile w n e
  | syncDirectory => exact kept_syncDirectory w e
  | flock => exact kept_flock w me e
  | close => exact kept_close w me
  | closeLedger => exact kept_closeLedger w me
  | ledgerLock create =>
    cases create with
    | true => cases h
    | false => exact kept_openLedgerLock w me e
  | _ => exact .refl w

theorem names_ready {w : World} (h : w.names = complete) : (w.file .ready).isSome = true := by
  have hmem : Name.ready ∈ w.names := by rw [h]; decide
  rw [World.names, List.mem_filter] at hmem
  simpa using hmem.2

/-- The directory is synced, so the names in it are durable. -/
theorem sync_progress (hok : (w.syncDirectory e).2 = true) (hp : p.Describes w) :
    p.sync.Describes (w.syncDirectory e).1 := by
  have hkept := kept_syncDirectory w e
  cases p with
  | begun b named =>
    obtain ⟨hu, f, hf, hcontent, hsynced, -⟩ := hp
    refine ⟨hkept.unpaid hu, { f with named := true }, ?_, hcontent, hsynced, fun _ => rfl⟩
    rw [World.syncDirectory] at hok ⊢
    split at hok
    · cases hok
    · rename_i h
      simp only [if_neg h, hf, Option.map_some]
  | _ => exact hkept.progress hp

/-- What a harmless call teaches is so. -/
theorem observe_tracks (hc : harmless c = true) (hs : Sound w) (ht : Tracks w me q) :
    Tracks (handler c e w me).1 me (observe q c (handler c e w me).2.2) := by
  have hkept := harmless_kept hc e w me
  have hsame := hkept.tracks ht
  obtain ⟨hme, hq⟩ := ht
  cases c with
  | entries =>
    cases q with
    | outside =>
      cases hok : e.ok with
      | false =>
        simp only [handler, hok]
        exact hsame
      | true =>
        simp only [handler, hok, if_true, observe]
        split
        · rename_i hnames
          exact ⟨hme, names_ready hnames⟩
        · exact ⟨hme, trivial⟩
    | _ => exact hsame
  | read n =>
    cases q with
    | found =>
      cases n with
      | credential =>
        simp only [handler]
        cases hr : (if e.ok = true then (w.file .credential).bind (·.content) else none) with
        | none => exact hsame
        | some r =>
          refine ⟨hme, hq, ?_⟩
          obtain ⟨-, hr⟩ := Option.ite_none_right_eq_some.1 hr
          obtain ⟨f, hf, hcontent⟩ := Option.bind_eq_some_iff.1 hr
          exact ⟨f, hf, hcontent⟩
      | _ => exact hsame
    | _ => exact hsame
  | readRecord =>
    have hloaded : ∀ {l}, (if e.ok = true then w.ledger.bind (·.record) else none) = some l →
        (l.binding, l.profile) ∈ w.provisions := by
      intro l hl
      obtain ⟨-, hl⟩ := Option.ite_none_right_eq_some.1 hl
      obtain ⟨d, hd, hrecord⟩ := Option.bind_eq_some_iff.1 hl
      exact hs.ledger d l hd hrecord
    cases q with
    | saw r =>
      simp only [handler]
      cases hl : (if e.ok = true then w.ledger.bind (·.record) else none) with
      | none => exact hsame
      | some l => exact ⟨hme, hq.1, hq.2, hloaded hl⟩
    | loaded r l' =>
      simp only [handler]
      cases hl : (if e.ok = true then w.ledger.bind (·.record) else none) with
      | none => exact hsame
      | some l => exact ⟨hme, hq.1, hq.2.1, hloaded hl⟩
    | _ => exact hsame
  | syncDirectory =>
    cases q with
    | own p stage =>
      simp only [handler]
      cases hok : (w.syncDirectory e).2 with
      | false => exact hsame
      | true =>
        exact ⟨hsame.1, hsame.2.1, hsame.2.2.1, sync_progress hok hq.2.2⟩
    | _ => exact hsame
  | _ => cases q <;> exact hsame

/-! ## Calls of the owner -/

@[simp] theorem setFile_self (w : World) (n : Name) (f : Option File) :
    (w.setFile n f).file n = f := Function.update_self ..

theorem setFile_ne (w : World) {m : Name} (f : Option File) (h : m ≠ n) :
    (w.setFile n f).file m = w.file m := Function.update_of_ne h ..

/-- Files are only added, and so are provisions. -/
structure Grows (w w' : World) : Prop where
  file : ∀ n, n ≠ .stage → ∀ f, w.file n = some f → w'.file n = some f
  provisions : ∀ x ∈ w.provisions, x ∈ w'.provisions
  processes : w'.processes = w.processes

theorem Grows.refl (w : World) : Grows w w := ⟨fun _ _ _ h => h, fun _ h => h, rfl⟩

theorem Grows.isSome (h : Grows w w') (hn : n ≠ .stage) (hf : (w.file n).isSome = true) :
    (w'.file n).isSome = true := by
  obtain ⟨f, hf⟩ := Option.isSome_iff_exists.1 hf
  rw [h.file n hn f hf]
  rfl

theorem Grows.holding (h : Grows w w') (hn : n ≠ .stage) (hr : Holding (w.file n) r) :
    Holding (w'.file n) r := by
  obtain ⟨f, hf, hcontent⟩ := hr
  exact ⟨f, h.file n hn f hf, hcontent⟩

/-- What the other processes know stays true; they do not own the directory. -/
theorem Grows.others (h : Grows w w') (hc : ∀ i, w.creator = some i → i = me) {other : ℕ}
    (hne : me ≠ other) (ht : Tracks w other q) : Tracks w' other q := by
  obtain ⟨hlt, hq⟩ := ht
  refine ⟨hlt.trans_eq h.processes.symm, ?_⟩
  cases q with
  | outside => trivial
  | own p stage => exact absurd (hc other hq.1).symm hne
  | spent => exact absurd (hc other hq).symm hne
  | found => exact h.isSome nofun hq
  | saw r => exact ⟨h.isSome nofun hq.1, h.holding (n := .credential) nofun hq.2⟩
  | loaded r l =>
    exact ⟨h.isSome nofun hq.1, h.holding (n := .credential) nofun hq.2.1, h.provisions _ hq.2.2⟩

/-- One call of one process keeps what is known of all. -/
abbrev Moves (w : World) (me : ℕ) (w' : World) (q' : Phase) : Prop :=
  Pool.Moves Sound Tracks Tracks (· ≠ ·) w me w' me q'

theorem Grows.moves (h : Grows w w') (hc : ∀ i, w.creator = some i → i = me) (hs : Sound w')
    (ht : Tracks w' me q') : Moves w me w' q' where
  shared := hs
  caller := ht
  others := fun _ _ hne hne' hother => ⟨h.others hc hne hother, hne, hne'⟩

/-- The owner: nobody else created the lock file. -/
theorem only_creator (h : w.creator = some me) : ∀ i, w.creator = some i → i = me :=
  fun _ hi => Option.some.inj (hi.symm.trans h)

theorem moves_failed (hs : Sound w) {stage : Stage} (ht : Tracks w me (.own p stage)) :
    Moves w me w .spent :=
  (Grows.refl w).moves (only_creator ht.2.1) hs ⟨ht.1, ht.2.1⟩

theorem createLock_moves (hs : Sound w) (ht : Tracks w me .outside) (e : Environment) :
    Moves w me (w.create .lock me e).1
      (if (w.create .lock me e).2 then .own .locked .none else .outside) := by
  rw [World.create]
  split
  · exact ⟨hs, ht, fun _ _ hne hne' hother => ⟨hother, hne, hne'⟩⟩
  rename_i hcond
  simp only [Bool.or_eq_true, not_or] at hcond
  -- The lock file was not there, so the directory is as nobody has used it.
  have hcreator : w.creator = none := by
    by_contra h
    exact hcond.1 (hs.lock h)
  obtain ⟨hfile, hledger, hexchanges, hprovisions⟩ := hs.fresh hcreator
  have hother (n : Name) (hn : n ≠ .lock) : (w.setFile .lock (some {})).file n = none := by
    rw [setFile_ne _ _ hn]
    exact hfile n
  refine Grows.moves ⟨fun n _ f hf => ?_, fun _ h => h, rfl⟩ (fun i hi => ?_) ?_ ?_
  · rw [hfile n] at hf
    cases hf
  · rw [hcreator] at hi
    cases hi
  · exact
      { fresh := nofun
        lock := fun _ => by simp
        creator := fun i hi => by
          obtain rfl := Option.some.inj hi
          exact ht.1
        once := by simp [World.setFile, hexchanges]
        durable := fun x hx => by simp [World.setFile, hexchanges] at hx
        credential := by
          rintro r ⟨f, hf, -⟩
          cases (hother .credential nofun).symm.trans hf
        provisioned := by simp [World.setFile, hprovisions]
        ledger := fun l r hl => by simp [World.setFile, hledger] at hl }
  · refine ⟨ht.1, ?_⟩
    cases e.ok with
    | false => trivial
    | true =>
      exact ⟨rfl, hother .stage nofun, hother .attempt nofun, hother .credential nofun,
        hother .ready nofun, hexchanges, hprovisions, hledger⟩

/-! ### The stage file -/

theorem staged_setStage (w : World) (f : Option File) : Staged w (w.setFile .stage f) := by
  refine ⟨fun n hn => ?_, rfl, rfl, rfl, rfl, le_rfl⟩
  rw [setFile_ne _ _ hn]
  exact .refl _

theorem Sound.setStage (hs : Sound w) (hc : w.creator = some me) (f : Option File) :
    Sound (w.setFile .stage f) :=
  (staged_setStage w f).sound hs fun h => by cases hc.symm.trans h

/-- The owner changes its stage file. -/
theorem stage_moves {stage stage' : Stage} (hs : Sound w) (ht : Tracks w me (.own p stage))
    (hf : stage'.Describes f) :
    Moves w me (w.setFile .stage f) (.own p stage') := by
  refine Grows.moves ⟨fun n hn g hg => ?_, fun _ h => h, rfl⟩ (only_creator ht.2.1)
    (hs.setStage ht.2.1 f) ⟨ht.1, ht.2.1, ?_, (staged_setStage w f).progress ht.2.2.2⟩
  · rw [setFile_ne _ _ hn]
    exact hg
  · rw [setFile_self]
    exact hf

/-- After a failure the owner only remembers that it is the owner. -/
theorem moves_spent (h : Moves w me w' q') (hq : q'.Describes w' me → w'.creator = some me) :
    Moves w me w' .spent :=
  ⟨h.shared, ⟨h.caller.1, hq h.caller.2⟩, h.others⟩

theorem createStage_moves (hs : Sound w) (ht : Tracks w me (.own p .none)) (e : Environment) :
    Moves w me (w.create .stage me e).1 ((Phase.own p .empty).onward (w.create .stage me e).2) := by
  rw [World.create]
  split
  · exact moves_failed hs ht
  · have hmoves : Moves w me (w.setFile .stage (some {})) (.own p .empty) := stage_moves hs ht rfl
    cases e.ok with
    | true => exact hmoves
    | false => exact moves_spent hmoves fun h => h.1

theorem write_moves (hs : Sound w) (ht : Tracks w me (.own p .empty)) (e : Environment) :
    Moves w me (w.write r e).1 ((Phase.own p (.written r)).onward (w.write r e).2) := by
  rw [World.write]
  split
  · exact moves_failed hs ht
  cases w.file .stage with
  | none => exact moves_failed hs ht
  | some f => exact stage_moves hs ht ⟨_, rfl, rfl⟩

theorem syncStage_moves (hs : Sound w) (ht : Tracks w me (.own p (.written r))) (e : Environment) :
    Moves w me (w.syncFile .stage e).1
      ((Phase.own p (.synced r)).onward (w.syncFile .stage e).2) := by
  rw [World.syncFile]
  split
  · exact moves_failed hs ht
  obtain ⟨f, hf, hcontent⟩ := ht.2.2.1
  simp only [hf, Option.map_some, Option.isSome_some]
  exact stage_moves hs ht ⟨_, rfl, hcontent, rfl⟩

/-! ### The records -/

/-- What may be published when. -/
theorem publish_cases (h : p.publish n r = some p') :
    (∃ b, p = .locked ∧ n = .attempt ∧ r = ⟨.attempted, b, []⟩ ∧ p' = .begun b false) ∨
    (∃ b secret, p = .exchanged b secret ∧ n = .credential ∧ r = ⟨.credential, b, secret⟩ ∧
      p' = .stored b secret .absent) ∨
    ∃ b secret profile, p = .stored b secret (.provisioned profile) ∧ n = .ready ∧
      r = ⟨.ready, b, []⟩ ∧ p' = .done b secret profile := by
  unfold Progress.publish at h
  split at h
  · exact Or.inl ⟨_, rfl, rfl, rfl, (Option.some.inj h).symm⟩
  · obtain ⟨⟨rfl, rfl⟩, h⟩ := Option.ite_none_right_eq_some.1 h
    exact Or.inr (Or.inl ⟨_, _, rfl, rfl, rfl, (Option.some.inj h).symm⟩)
  · obtain ⟨rfl, h⟩ := Option.ite_none_right_eq_some.1 h
    exact Or.inr (Or.inr ⟨_, _, _, rfl, rfl, rfl, (Option.some.inj h).symm⟩)
  · cases h

/-- A record is added: the attempt before any exchange, the credential only if it is the one
    that the exchange gave. -/
theorem Sound.addRecord (hs : Sound w) (hc : w.creator = some me) {f : File} (hlock : n ≠ .lock)
    (hattempt : n = .attempt → w.exchanges = []) (hcredential : n = .credential → ∀ r, f.content =
      some r → r.state = .credential ∧ Accepted w r.binding r.secret) :
    Sound (w.setFile n (some f)) where
  fresh := fun h => by cases hc.symm.trans h
  lock := fun h => by
    rw [setFile_ne _ _ hlock.symm]
    exact hs.lock h
  durable := fun x hx => by
    by_cases hn : n = .attempt
    · have hx' : x ∈ w.exchanges := hx
      rw [hattempt hn] at hx'
      cases hx'
    · rw [setFile_ne _ _ (Ne.symm hn)]
      exact hs.durable x hx
  credential := fun r hr => by
    by_cases hn : n = .credential
    · subst hn
      rw [setFile_self] at hr
      obtain ⟨g, hg, hcontent⟩ := hr
      obtain rfl := Option.some.inj hg
      exact hcredential rfl r hcontent
    · rw [setFile_ne _ _ (Ne.symm hn)] at hr
      exact hs.credential r hr
  __ := hs

/-- The stage file becomes a record under a name that was free. -/
theorem publish_moves {f : File} (hs : Sound w) (ht : Tracks w me (.own p (.synced r)))
    (hf : f.content = some r) (hsynced : f.synced = true) (hfree : w.file n = none)
    (hp : p.publish n r = some p') :
    Moves w me ((w.setFile .stage none).setFile n (some { f with named := false }))
      (.own p' .none) := by
  obtain ⟨hme, hcreator, -, hprogress⟩ := ht
  have hold := hs.setStage hcreator none
  have hprogress := (staged_setStage w none).progress hprogress
  set w' := (w.setFile .stage none).setFile n (some { f with named := false })
  have hkept {m : Name} (hm : m ≠ n) : w'.file m = (w.setFile .stage none).file m := setFile_ne _ _ hm
  have hpaid {b secret} (hn : n ≠ .attempt) (h : Paid (w.setFile .stage none) b secret) :
      Paid w' b secret := by
    refine ⟨?_, h.accepted, h.secret⟩
    rw [hkept hn.symm]
    exact h.attempt
  have hmoves (hn : n ≠ .stage) (hsound : Sound w') (hp' : p'.Describes w') :
      Moves w me w' (.own p' .none) := by
    refine Grows.moves ⟨fun m hm g hg => ?_, fun _ h => h, rfl⟩ (only_creator hcreator) hsound
      ⟨hme, hcreator, (hkept hn.symm).trans (setFile_self ..), hp'⟩
    by_cases hmn : m = n
    · subst hmn
      rw [hfree] at hg
      cases hg
    · rw [hkept hmn, setFile_ne _ _ hm]
      exact hg
  -- the attempt, the credential after the exchange, and `READY` after the ledger
  rcases publish_cases hp with ⟨b, rfl, rfl, rfl, rfl⟩ | ⟨b, secret, rfl, rfl, rfl, rfl⟩ |
    ⟨b, secret, profile, rfl, rfl, rfl, rfl⟩
  · obtain ⟨-, hunpaid⟩ := hprogress
    refine hmoves nofun (hold.addRecord hcreator nofun (fun _ => hunpaid.exchanges) nofun)
      ⟨⟨?_, ?_, hunpaid.exchanges, hunpaid.ledger⟩, _, setFile_self .., hf, hsynced, nofun⟩
    · exact (hkept (m := .credential) nofun).trans hunpaid.credential
    · exact (hkept (m := .ready) nofun).trans hunpaid.ready
  · obtain ⟨hp, -, hready, hledger⟩ := hprogress
    refine hmoves nofun (hold.addRecord hcreator nofun nofun fun _ r hr => ?_)
      ⟨hpaid nofun hp, ⟨_, setFile_self .., hf⟩, (hkept (m := .ready) nofun).trans hready, hledger⟩
    obtain rfl := Option.some.inj (hr.symm.trans hf)
    exact ⟨rfl, hp.accepted⟩
  · obtain ⟨hp, hcredential, -, hledger⟩ := hprogress
    refine hmoves nofun (hold.addRecord hcreator nofun nofun nofun)
      ⟨hpaid nofun hp, ?_, ⟨_, setFile_self .., hf⟩, hledger⟩
    rw [hkept (m := .credential) nofun]
    exact hcredential

theorem rename_moves (hs : Sound w) (ht : Tracks w me (.own p (.synced r)))
    (hp : p.publish n r = some p') (e : Environment) :
    Moves w me (w.rename n e).1 ((Phase.own p' .none).onward (w.rename n e).2) := by
  rw [World.rename]
  split
  · exact moves_failed hs ht
  rename_i hfree
  simp only [Bool.or_eq_true, not_or, Bool.not_eq_true, Option.isSome_eq_false_iff,
    Option.isNone_iff_eq_none] at hfree
  obtain ⟨f, hf, hcontent, hsynced⟩ := ht.2.2.1
  simp only [hf]
  exact publish_moves hs ht hcontent hsynced hfree.2 hp

/-! ### The exchange -/

theorem accepted_ok {x : Option ExchangeResponse} (h : accepted b x = .ok secret) :
    x = some ⟨.accepted, b.serverId, secret⟩ ∧ secretPattern secret = true := by
  unfold accepted at h
  split at h
  · cases h
  · rename_i r
    obtain ⟨outcome, serverId, connectorSecret⟩ := r
    cases outcome with
    | accepted =>
      dsimp only at h
      split at h
      · cases h
      · rename_i hvalid
        simp only [Bool.or_eq_true, not_or, decide_eq_true_eq, not_not, Bool.not_eq_true',
          Bool.not_eq_false] at hvalid
        obtain rfl := Except.ok.inj h
        exact ⟨by rw [hvalid.1], hvalid.2⟩
    | rateLimited | rejected => dsimp only at h; split at h <;> cases h
    | ambiguous => cases h

theorem exchange_moves (hs : Sound w) (ht : Tracks w me (.own (.begun b true) .none))
    (grant : Bytes) (x : Option ExchangeResponse) :
    Moves w me { w with exchanges := w.exchanges ++ [(⟨b, grant⟩, x)] } .spent ∧
    ∀ secret, accepted b x = .ok secret →
      Moves w me { w with exchanges := w.exchanges ++ [(⟨b, grant⟩, x)] }
        (.own (.exchanged b secret) .none) := by
  obtain ⟨hme, hcreator, hstage, hunpaid, f, hf, hcontent, hsynced, hnamed⟩ := ht
  have hdurable : Durable (w.file .attempt) ⟨.attempted, b, []⟩ :=
    ⟨f, hf, hcontent, hsynced, hnamed rfl⟩
  have hsound : Sound { w with exchanges := w.exchanges ++ [(⟨b, grant⟩, x)] } :=
    { hs with
      fresh := fun h => by cases hcreator.symm.trans h
      once := by simp [hunpaid.exchanges]
      durable := fun y hy => by
        simp only [hunpaid.exchanges, List.nil_append, List.mem_singleton] at hy
        subst hy
        exact hdurable
      credential := by
        rintro r ⟨g, hg, -⟩
        cases hunpaid.credential.symm.trans hg }
  have hgrows : Grows w { w with exchanges := w.exchanges ++ [(⟨b, grant⟩, x)] } :=
    ⟨fun _ _ _ h => h, fun _ h => h, rfl⟩
  refine ⟨hgrows.moves (only_creator hcreator) hsound ⟨hme, hcreator⟩, fun secret hsecret => ?_⟩
  refine hgrows.moves (only_creator hcreator) hsound ⟨hme, hcreator, hstage,
    ⟨hdurable, ⟨grant, ?_⟩, (accepted_ok hsecret).2⟩, hunpaid.credential, hunpaid.ready,
    hunpaid.ledger⟩
  rw [(accepted_ok hsecret).1]
  simp [hunpaid.exchanges]

/-! ### The ledger -/

/-- The ledger directory changes, and perhaps the provisions grow. -/
theorem ledger_moves {l : LedgerStage} (hs : Sound w)
    (ht : Tracks w me (.own (.stored b secret l) .none)) (l' : LedgerStage)
    (directory : Option LedgerDirectory) (provisions : List (Binding × ProfileBinding))
    (hgrow : ∀ x ∈ w.provisions, x ∈ provisions) (hone : provisions.length ≤ 1)
    (hrecord : ∀ d r, directory = some d → d.record = some r → (r.binding, r.profile) ∈ provisions) :
    Moves w me { w with ledger := directory, provisions := provisions } .spent ∧
    (l'.Describes { w with ledger := directory, provisions := provisions } b →
      Moves w me { w with ledger := directory, provisions := provisions }
        (.own (.stored b secret l') .none)) := by
  obtain ⟨hme, hcreator, hstage, hpaid, hcredential, hready, -⟩ := ht
  have hsound : Sound { w with ledger := directory, provisions := provisions } :=
    { hs with
      fresh := fun h => by cases hcreator.symm.trans h
      provisioned := hone
      ledger := hrecord }
  have hgrows : Grows w { w with ledger := directory, provisions := provisions } :=
    ⟨fun _ _ _ h => h, hgrow, rfl⟩
  exact ⟨hgrows.moves (only_creator hcreator) hsound ⟨hme, hcreator⟩, fun hl' =>
    hgrows.moves (only_creator hcreator) hsound ⟨hme, hcreator, hstage,
      ⟨hpaid.attempt, hpaid.accepted, hpaid.secret⟩, hcredential, hready, hl'⟩⟩

theorem mkdirLedger_moves (hs : Sound w) (ht : Tracks w me (.own (.stored b secret .absent) .none))
    (e : Environment) :
    Moves w me (w.mkdirLedger e).1
      ((Phase.own (.stored b secret (.made false)) .none).onward (w.mkdirLedger e).2) := by
  rw [World.mkdirLedger]
  split
  · exact moves_failed hs ht
  have hprov : w.provisions = [] := ht.2.2.2.2.2.2.1
  exact (ledger_moves hs ht _ _ _ (fun _ h => h) hs.provisioned
    (fun d r hd hr => by obtain rfl := Option.some.inj hd; cases hr)).2
    ⟨hprov, {}, rfl, rfl, rfl, nofun⟩

theorem ledgerLock_moves (hs : Sound w)
    (ht : Tracks w me (.own (.stored b secret (.made false)) .none)) (e : Environment) :
    Moves w me (w.ledgerLock true me e).1
      ((Phase.own (.stored b secret (.made true)) .none).onward (w.ledgerLock true me e).2) := by
  obtain ⟨hprov, l, hl, hrecord, hjournal, -⟩ := ht.2.2.2.2.2.2
  rw [World.ledgerLock]
  simp only [hl, if_true]
  split
  · exact moves_failed hs ht
  have hmoves := ledger_moves hs ht (.made true)
    (some { l with lock := true, holder := if e.ok then some me else l.holder }) w.provisions
    (fun _ h => h) hs.provisioned fun d r hd hr => by
      obtain rfl := Option.some.inj hd
      cases hrecord.symm.trans hr
  cases hok : e.ok with
  | false =>
    rw [hok] at hmoves
    exact hmoves.1
  | true =>
    rw [hok] at hmoves
    exact hmoves.2 ⟨hprov, _, rfl, hrecord, hjournal, fun _ => rfl⟩

theorem createDatabase_moves (hs : Sound w)
    (ht : Tracks w me (.own (.stored b secret (.made true)) .none)) (e : Environment) :
    Moves w me (w.createDatabase e).1
      ((Phase.own (.stored b secret (.made true)) .none).onward (w.createDatabase e).2) := by
  obtain ⟨hprov, l, hl, hrecord, hjournal, hlock⟩ := ht.2.2.2.2.2.2
  rw [World.createDatabase]
  simp only [hl]
  split
  · exact moves_failed hs ht
  exact (ledger_moves hs ht _ _ _ (fun _ h => h) hs.provisioned
    (fun d r hd hr => by obtain rfl := Option.some.inj hd; cases hr)).2
    ⟨hprov, _, rfl, rfl, hjournal, hlock⟩

theorem insert_moves {profile : ProfileBinding} (hs : Sound w)
    (ht : Tracks w me (.own (.stored b secret (.made true)) .none))
    (hvalid : validBinding b = true ∧ validProfile profile = true) (e : Environment) :
    Moves w me (w.insert (freshRecord b profile) e).1
      ((Phase.own (.stored b secret (.provisioned profile)) .none).onward
        (w.insert (freshRecord b profile) e).2) := by
  obtain ⟨hprov, l, hl, hrecord, hjournal, hlock⟩ := ht.2.2.2.2.2.2
  rw [World.insert]
  simp only [hl]
  split
  · exact moves_failed hs ht
  rename_i hcond
  simp only [Bool.or_eq_true, decide_eq_true_eq, not_or, Nat.not_lt] at hcond
  have hmoves := ledger_moves hs ht (.provisioned profile)
    (some { l with database := some ⟨e.pages, some (freshRecord b profile)⟩ })
    (w.provisions ++ [(b, profile)]) (fun x hx => List.mem_append_left _ hx) (by simp [hprov]) fun d r hd hr => by
      obtain rfl := Option.some.inj hd
      obtain rfl := Option.some.inj hr
      simp [freshRecord]
  cases hcommit : decide (e.commit = .done) with
  | false => exact hmoves.1
  | true =>
    exact hmoves.2 ⟨by simp [hprov], hvalid, _, rfl, hlock rfl, hjournal, e.pages, rfl, hcond.2⟩

/-! ## Runs -/

/-- Every call of every process keeps what is known. -/
theorem next_moves (hs : Sound w) (ht : Tracks w me q)
    (hnext : next q c (handler c e w me).2.2 = some q') :
    Moves w me (handler c e w me).1 q' := by
  by_cases hc : harmless c = true
  · rw [next_harmless hc] at hnext
    obtain rfl := Option.some.inj hnext
    have hkept := harmless_kept hc e w me
    exact ⟨hkept.sound hs, observe_tracks hc hs ht,
      fun _ _ hne hne' hother => ⟨hkept.tracks hother, hne, hne'⟩⟩
  rw [next, if_neg hc] at hnext
  have hacts := acts_of_act hnext
  generalize hx : (handler c e w me).2.2 = x at hacts
  cases hacts with
  | lock ok =>
    subst hx
    exact createLock_moves hs ht e
  | create p ok =>
    subst hx
    exact createStage_moves hs ht e
  | write p r ok =>
    subst hx
    exact write_moves hs ht e
  | sync p r ok =>
    subst hx
    exact syncStage_moves hs ht e
  | rename p p' n r ok hp =>
    subst hx
    exact rename_moves hs ht hp e
  | accept b grant secret x haccepted =>
    subst hx
    exact (exchange_moves hs ht grant _).2 secret haccepted
  | reject b grant x => exact (exchange_moves hs ht grant _).1
  | mkdir b secret ok =>
    subst hx
    exact mkdirLedger_moves hs ht e
  | ledgerLock b secret ok =>
    subst hx
    exact ledgerLock_moves hs ht e
  | database b secret ok =>
    subst hx
    exact createDatabase_moves hs ht e
  | insert b secret profile ok hvalid =>
    subst hx
    exact insert_moves hs ht hvalid e

/-- The directory is sound, and every process follows the order of an enrollment. -/
abbrev System.Inv [Sha256] (s : System) : Prop := Pool.Inv next Returns Sound Tracks (· ≠ ·) s

theorem kept_exit (w : World) (me : ℕ) : Kept w (w.exit me) := by
  have h := (kept_close w me).trans (kept_closeLedger (w.close me) me)
  exact { h with }

theorem sound_initial : Sound {} where
  fresh := fun _ => ⟨fun _ => rfl, rfl, rfl, rfl⟩
  lock := fun h => absurd rfl h
  creator := fun i h => by cases h
  once := by decide
  durable := fun x hx => by cases hx
  credential := by
    rintro r ⟨f, hf, -⟩
    cases hf
  provisioned := by decide
  ledger := fun l r hl => by cases hl

theorem empty_inv [Sha256] : System.empty.Inv := Pool.Inv.empty sound_initial

theorem System.Inv.start [Sha256] (h : s.Inv) {p : Prog calls Finish}
    (hp : Follows next Returns .outside p) : (s.start p).Inv := by
  have hkept : Kept s.shared { s.shared with processes := s.shared.processes + 1 } :=
    ⟨⟨fun _ _ => .refl _, rfl, rfl, rfl, rfl, Nat.le_succ _⟩, .refl _⟩
  have hinv := h.outside (f := fun w => { w with processes := w.processes + 1 })
    (hkept.sound h.shared) fun loc q ht => hkept.tracks ht
  refine Pool.Inv.spawn hinv (t := ⟨s.shared.processes, p⟩) (q := .outside)
    ⟨Nat.lt_succ_self _, trivial⟩ hp fun u hu => ?_
  obtain ⟨i, hi⟩ := List.getElem?_of_mem hu
  obtain ⟨q, ht, -⟩ := h.thread i u hi
  have hlt : u.loc < s.shared.processes := ht.1
  exact ⟨hlt.ne', hlt.ne⟩

/-- What a process has returned is so. -/
theorem System.Inv.returned [Sha256] (h : s.Inv) (ht : t ∈ s.threads) {f : Finish}
    (hf : t.prog.result = some f) :
    ∃ q, Tracks s.shared t.loc q ∧ Returns q f := by
  obtain ⟨i, hi⟩ := List.getElem?_of_mem ht
  obtain ⟨q, hq, hfollows⟩ := h.thread i t hi
  rw [eq_ret_of_result hf] at hfollows
  exact ⟨q, hq, hfollows⟩

/-- A directory that opens was enrolled by its exchange, and its ledger provisioned for it. -/
theorem System.Inv.opened [Sha256] (h : s.Inv) (ht : t ∈ s.threads) {profile : ProfileBinding}
    {r : Record} (hf : t.prog.result = some (.opened b profile secret r)) :
    Accepted s.shared b secret ∧ s.shared.provisions = [(b, profile)] := by
  obtain ⟨q, hq, rfl, rfl, rfl⟩ := h.returned ht hf
  obtain ⟨-, -, hcredential, hprovisions⟩ := hq
  refine ⟨(h.shared.credential _ hcredential).2, ?_⟩
  obtain ⟨x, hx⟩ := List.length_eq_one_iff.1
    (le_antisymm h.shared.provisioned (List.length_pos_of_mem hprovisions))
  rw [hx, List.mem_singleton] at hprovisions
  rw [hx, hprovisions]

/-! ## After the death of the owner -/

/-- No call brings a process back, and only an exchange adds to the exchanges. -/
theorem handler_frame (c : Call) (e : Environment) (w : World) (me : ℕ) :
    (handler c e w me).1.dead = w.dead ∧
      ((∀ q, c ≠ .exchange q) → (handler c e w me).1.exchanges = w.exchanges) := by
  cases c with
  | exchange q => exact ⟨rfl, fun h => absurd rfl (h q)⟩
  | create | flock | syncFile | syncDirectory | close | mkdirLedger =>
    simp only [handler, World.create, World.flock, World.syncFile, World.syncDirectory, World.close,
      World.mkdirLedger]
    split <;> exact ⟨rfl, fun _ => rfl⟩
  | write | rename | createDatabase | insert =>
    simp only [handler, World.write, World.rename, World.createDatabase, World.insert]
    split
    · exact ⟨rfl, fun _ => rfl⟩
    · split <;> exact ⟨rfl, fun _ => rfl⟩
  | ledgerLock create =>
    simp only [handler, World.ledgerLock]
    split
    · exact ⟨rfl, fun _ => rfl⟩
    · split <;> split <;> exact ⟨rfl, fun _ => rfl⟩
  | _ => exact ⟨rfl, fun _ => rfl⟩

/-- The owner died before `READY` was in place. -/
structure Lost (i : ℕ) (w : World) : Prop where
  creator : w.creator = some i
  dead : i ∈ w.dead
  ready : w.file .ready = none

theorem Lost.kept (h : Lost i w) (hk : Kept w w') (hd : ∀ j ∈ w.dead, j ∈ w'.dead) :
    Lost i w' :=
  ⟨hk.creator.trans h.creator, hd i h.dead, hk.file_none nofun h.ready⟩

/-- No living process changes the directory any more. -/
theorem Lost.call (h : Lost i w) (hs : Sound w) (ht : Tracks w me q) (hme : me ∉ w.dead)
    (hnext : next q c (handler c e w me).2.2 = some q') :
    Lost i (handler c e w me).1 := by
  have hnot : w.creator ≠ some me := fun hc =>
    hme (Option.some.inj (h.creator.symm.trans hc) ▸ h.dead)
  by_cases hc : harmless c = true
  · refine h.kept (harmless_kept hc e w me) fun j hj => ?_
    rw [(handler_frame c e w me).1]
    exact hj
  rw [next, if_neg hc] at hnext
  have hacts := acts_of_act hnext
  generalize (handler c e w me).2.2 = x at hacts
  cases hacts with
  | lock ok =>
    have hlock : (w.file .lock).isSome = true := hs.lock (by simp [h.creator])
    have hsame : (handler (.create .lock) e w me).1 = w := by
      simp [handler, World.create, hlock]
    rw [hsame]
    exact h
  | _ => exact absurd ht.2.1 hnot

/-- Whoever comes after the death of the owner is refused. -/
theorem Lost.refuses [Sha256] (h : Lost i s.shared) (hs : s.Inv) (ht : t ∈ s.threads)
    (hne : t.loc ≠ i) {f : Finish} (hf : t.prog.result = some f) : f = .refused := by
  obtain ⟨q, hq, hreturns⟩ := hs.returned ht hf
  have hmine : ¬q.Mine := by
    intro hq'
    have hcreator : s.shared.creator = some t.loc := by
      cases q with
      | own p stage => exact hq.2.1
      | spent => exact hq.2
      | _ => exact hq'.elim
    exact hne (Option.some.inj (hcreator.symm.trans h.creator))
  cases f with
  | refused => rfl
  | failed | ended => exact absurd hreturns hmine
  | enrolled s' =>
    obtain ⟨-, secret, rfl⟩ := hreturns
    exact absurd trivial hmine
  | opened b profile secret r =>
    obtain ⟨rfl, -⟩ := hreturns
    have hready := hq.2.1
    rw [h.ready] at hready
    cases hready

/-- An exchange is made once its attempt is durable. -/
theorem exchange_durable {x : ExchangeRequest × Option ExchangeResponse} (ht : Tracks w me q)
    (hnext : next q c (handler c e w me).2.2 = some q')
    (h : (handler c e w me).1.exchanges = w.exchanges ++ [x]) :
    Durable (w.file .attempt) ⟨.attempted, x.1.binding, []⟩ := by
  by_cases hc : ∃ request, c = .exchange request
  · obtain ⟨request, rfl⟩ := hc
    have hx : (request, e.response) = x := (List.cons.inj (List.append_cancel_left h)).1
    subst hx
    have hacts := acts_of_act hnext
    generalize (handler (.exchange request) e w me).2.2 = answer at hacts
    obtain ⟨b, grant⟩ := request
    have hq : q = .own (.begun b true) .none := by cases hacts <;> rfl
    subst hq
    obtain ⟨-, -, -, -, f, hf, hcontent, hsynced, hnamed⟩ := ht
    exact ⟨f, hf, hcontent, hsynced, hnamed rfl⟩
  · rw [(handler_frame c e w me).2 fun request hr => hc ⟨request, hr⟩] at h
    simp at h

/-- Either nothing happens or a living process makes a call that its phase allows. -/
theorem System.Inv.proceeds [Sha256] (h : s.Inv) (i : ℕ) (e : Environment) :
    (s.proceed i e).shared = s.shared ∨
    ∃ me c q q', me ∉ s.shared.dead ∧ Tracks s.shared me q ∧
      next q c (handler c e s.shared me).2.2 = some q' ∧
      (s.proceed i e).shared = (handler c e s.shared me).1 := by
  rw [System.proceed]
  split
  · exact Or.inl rfl
  rename_i t ht
  split
  · exact Or.inl rfl
  rename_i halive
  rcases s.advance_cases handler i e with heq | ⟨loc, c, k, hi, heq⟩
  · exact Or.inl (by rw [heq])
  · obtain rfl := Option.some.inj (ht.symm.trans hi)
    obtain ⟨q, hq, hf⟩ := h.thread i _ hi
    obtain ⟨q', hnext, -⟩ := hf (handler c e s.shared loc).2.2
    exact Or.inr ⟨loc, c, q, q', halive, hq, hnext, by rw [heq]⟩

section
variable [Sha256] [Projection]

theorem System.Inv.step (h : s.Inv) (m : Move) : (s.step m).Inv := by
  cases m with
  | enroll principals => exact h.start (enroll_follows principals)
  | openReady principals b => exact h.start (openReady_follows principals b)
  | exit me =>
    have hkept := kept_exit s.shared me
    exact Pool.Inv.outside h (f := (·.exit me)) (hkept.sound h.shared) fun loc q ht => hkept.tracks ht
  | advance i e =>
    rw [System.step, System.proceed]
    split
    · exact h
    split
    · exact h
    · refine Pool.Inv.advance h handler i e (fun _ _ _ ht => ht) fun loc c k q q' _ ht hnext => ?_
      rw [handler_loc]
      exact next_moves h.shared ht hnext

theorem System.Inv.after (h : s.Inv) (ms : List Move) : (s.after ms).Inv := by
  induction ms generalizing s with
  | nil => exact h
  | cons m ms ih => exact ih (h.step m)

theorem Lost.step (h : Lost i s.shared) (hs : s.Inv) (m : Move) :
    Lost i (s.step m).shared := by
  cases m with
  | enroll | openReady => exact ⟨h.creator, h.dead, h.ready⟩
  | exit me =>
    exact h.kept (kept_exit s.shared me) fun j hj => List.mem_cons_of_mem _ hj
  | advance j e =>
    rcases hs.proceeds j e with hsame | ⟨loc, c, q, q', halive, hq, hnext, hshared⟩
    · rw [System.step, hsame]
      exact h
    · rw [System.step, hshared]
      exact h.call hs.shared hq halive hnext

theorem Lost.after (h : Lost i s.shared) (hs : s.Inv) (ms : List Move) :
    Lost i (s.after ms).shared := by
  induction ms generalizing s with
  | nil => exact h
  | cons m ms ih => exact ih (h.step hs m) (hs.step m)

/-! ## The guarantee -/

/-- **One directory enrolls at most once.**  In every run of enrollments and
    openings by any number of processes, interleaved and killed at any call, on
    a directory that nobody has used, with any grants, answers and failures:
    there is at most one exchange, and before it is made the `ATTEMPTED` record
    of its binding is durable; a directory that opens was enrolled by that
    exchange, its credential is the secret that the exchange gave, and its ledger
    was provisioned for the same binding and profile; and once the process that
    created the lock file is killed before `READY` is in place, every process
    that is started later is refused. -/
theorem enrolls_at_most_once (ms : List Move) :
    (System.empty.after ms).shared.exchanges.length ≤ 1 ∧
    (∀ m x, ((System.empty.after ms).step m).shared.exchanges =
        (System.empty.after ms).shared.exchanges ++ [x] →
      Durable ((System.empty.after ms).shared.file .attempt) ⟨.attempted, x.1.binding, []⟩) ∧
    (∀ t ∈ (System.empty.after ms).threads, ∀ b profile secret r,
      t.prog.result = some (.opened b profile secret r) →
      Accepted (System.empty.after ms).shared b secret ∧
        (System.empty.after ms).shared.provisions = [(b, profile)]) ∧
    ∀ i, (System.empty.after ms).shared.creator = some i →
      (System.empty.after ms).shared.file .ready = none →
      ∀ later, ∀ t ∈ ((System.empty.after ms).after (.exit i :: later)).threads,
        (System.empty.after ms).shared.processes ≤ t.loc →
        ∀ f, t.prog.result = some f → f = .refused := by
  have hinv := empty_inv.after ms
  refine ⟨hinv.shared.once, ?_, fun t ht b profile secret r hf => hinv.opened ht hf, ?_⟩
  · intro m x hx
    cases m with
    | advance j e =>
      rcases hinv.proceeds j e with hsame | ⟨me, c, q, q', -, hq, hnext, hshared⟩
      · rw [System.step, hsame] at hx
        simp at hx
      · rw [System.step, hshared] at hx
        exact exchange_durable hq hnext hx
    | exit me =>
      have hsame := (kept_exit (System.empty.after ms).shared me).exchanges.symm.trans hx
      simp at hsame
    | enroll | openReady =>
      have hsame : (System.empty.after ms).shared.exchanges = _ := hx
      simp at hsame
  · intro i hcreator hready later t ht hloc f hf
    have hkept := kept_exit (System.empty.after ms).shared i
    have hlost : Lost i ((System.empty.after ms).step (.exit i)).shared :=
      ⟨hkept.creator.trans hcreator, List.mem_cons_self .., hkept.file_none nofun hready⟩
    have hstep := hinv.step (.exit i)
    have hi : i < (System.empty.after ms).shared.processes := hinv.shared.creator i hcreator
    exact (hlost.after hstep later).refuses (hstep.after later) ht (hi.trans_le hloc).ne' hf

end

end Enrollment

end HomeLab
