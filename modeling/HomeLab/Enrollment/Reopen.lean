/-
  Opening an enrolled directory again.

  Two packages bound the files of a ledger.  The ledger itself admits 128 pages
  for both rich profiles; the enrollment store, which checks the files before it
  opens the ledger, admits them for one of the two.  With the other profile an
  installation whose database has grown beyond 64 pages cannot be opened any
  more.  Below that, and for the other profiles, an installation stays openable.
-/
import HomeLab.Enrollment.Once

namespace HomeLab

namespace Enrollment

open Prog UploadState

variable {n : Name} {l : LedgerDirectory}

theorem isSome_of_names {w : World} (h : w.names = complete)
    (hn : n ∈ [Name.lock, .attempt, .credential, .ready]) : (w.file n).isSome = true := by
  have hne : n ≠ .ledger := by
    revert n
    decide
  have hmem : n ∈ w.names := by
    rw [h]
    revert n
    decide
  rw [World.names, List.mem_filter, if_neg hne] at hmem
  exact hmem.2

/-! ## Commits -/

/-- A commit to the ledger, and the number of pages it leaves the database with. -/
structure Committed where
  storage : UploadLedger.Storage := {}
  expected : Record
  next : Record
  pages : ℕ

/-! ## Undisturbed processes -/

/-- A process runs undisturbed, and nothing fails. -/
def alone (me : ℕ) {α : Type} (w : World) (p : Prog calls α) : World × α :=
  finish (I := calls) (fun c w => ((handler c {} w me).1, (handler c {} w me).2.2)) w p

theorem alone_bind {α β : Type} {me : ℕ} {w w' : World} {p : Prog calls α} {a : α}
    (hp : alone me w p = (w', a)) (f : α → Prog calls β) :
    alone me w (p >>= f) = alone me w' (f a) := by
  have h := finish_bind (I := calls)
    (fun c w => ((handler c {} w me).1, (handler c {} w me).2.2)) w p f
  rw [alone] at hp
  rw [hp] at h
  exact h

theorem alone_steps_cons {me : ℕ} {w w' : World} {p : Prog calls Bool}
    {ps : List (Prog calls Bool)} (hp : alone me w p = (w', true)) :
    alone me w (steps (p :: ps)) = alone me w' (steps ps) := alone_bind hp _

theorem readAs_alone (me : ℕ) {w : World} {b : Binding} {e : EnrollmentRecord}
    (he : Holding (w.file n) e) {state : RecordState} (hd : decode e b state = true) :
    alone me w (readAs b n state) = (w, some e) := by
  obtain ⟨f, hf, hcontent⟩ := he
  have hread : alone me w (query (.read n)) = (w, some e) := by
    show (w, (w.file n).bind (·.content)) = _
    rw [hf]
    exact congrArg (w, ·) hcontent
  rw [readAs, alone_bind hread]
  show (w, if decode e b state then some e else none) = _
  rw [if_pos hd]

theorem readable_alone (me : ℕ) {w : World} {b : Binding} {e : EnrollmentRecord}
    (he : Holding (w.file n) e) {state : RecordState} (hd : decode e b state = true) :
    alone me w (readable b n state) = (w, true) := by
  rw [readable, alone_bind (readAs_alone me he hd)]
  rfl

theorem listed_alone (me : ℕ) {w : World} (hnames : w.names = complete) :
    alone me w (listed [.lock, .attempt, .credential, .ready, .ledger]) = (w, true) := by
  rw [listed, alone_bind (show alone me w (query .entries) = (w, some complete) from by
    show (w, some w.names) = _
    rw [hnames])]
  rfl

theorem syncFile_alone (me : ℕ) {w : World} (hn : (w.file n).isSome = true) :
    ∃ w', alone me w (query (.syncFile n)) = (w', true) ∧ w'.ledger = w.ledger ∧
      ∀ m, (w'.file m).isSome = (w.file m).isSome := by
  refine ⟨(w.syncFile n {}).1, ?_, rfl, fun m => ((kept_syncFile w n {}).every m).isSome⟩
  show ((w.syncFile n {}).1, (w.syncFile n {}).2) = _
  simp [World.syncFile, hn]

/-! ## The sizes of the files -/

theorem checkFiles_of {pages : ℕ} {r : Record} {kind : ProfileKind} (hlock : l.lock = true)
    (hjournal : l.journal = none) (hdatabase : l.database = some ⟨pages, some r⟩)
    (hpages : pages ≤ (limits kind).pages) : l.checkFiles kind = true := by
  have hbytes : l.databaseBytes = 4096 * pages := by
    rw [LedgerDirectory.databaseBytes, hdatabase]
    rfl
  have hlimits : 4096 * pages ≤ (limits kind).databaseBytes ∧
      4096 * pages ≤ (limits kind).totalBytes := by
    cases kind <;> simp only [limits] at hpages ⊢ <;> omega
  simp [LedgerDirectory.checkFiles, LedgerDirectory.journalBytes, hlock, hjournal, hdatabase,
    hbytes, hlimits.1, hlimits.2]

/-- For the enrollment store they are, with the exception of a large database of the Docker
    profile. -/
theorem ledgerPrivacy_eq {pages : ℕ} {r : Record} {kind : ProfileKind} (hjournal : l.journal = none)
    (hdatabase : l.database = some ⟨pages, some r⟩) (hpages : pages ≤ (limits kind).pages) :
    l.ledgerPrivacy kind = decide (kind = .richProcessesDocker → pages ≤ 64) := by
  have hbytes : l.databaseBytes = 4096 * pages := by
    rw [LedgerDirectory.databaseBytes, hdatabase]
    rfl
  simp only [LedgerDirectory.ledgerPrivacy, LedgerDirectory.journalBytes, hjournal,
    Option.getD_none, zero_le, decide_true, Bool.and_true, hbytes, decide_eq_decide]
  cases kind <;> simp only [limits, privacyLimits, reduceCtorEq, if_false, if_true, false_imp_iff,
    true_imp_iff, iff_true] at hpages ⊢ <;> omega

/-- Whatever sizes the ledger admits, the enrollment store admits for the other profiles. -/
theorem ledgerPrivacy_of_checkFiles {kind : ProfileKind} (hkind : kind ≠ .richProcessesDocker)
    (h : l.checkFiles kind = true) : l.ledgerPrivacy kind = true := by
  simp only [LedgerDirectory.checkFiles, LedgerDirectory.ledgerPrivacy, Bool.and_eq_true,
    decide_eq_true_eq] at h ⊢
  cases kind with
  | richProcessesDocker => exact absurd rfl hkind
  | numeric => exact ⟨h.1.1.2, h.1.2⟩
  | richProcesses => exact ⟨h.1.1.2, h.1.2⟩

section
variable [Sha256] [Projection]

/-- A commit that the ledger accepts. -/
def World.commit (b : Binding) (profile : ProfileBinding) (w : World) (c : Committed) :
    Option World :=
  w.ledger.bind fun l => l.record.bind fun r =>
    let ledger : UploadLedger.Ledger := { binding := b, profile := profile, stored := r }
    if (ledger.commit c.storage c.expected c.next).2 && c.pages ≤ (limits profile.kind).pages then
      some { w with
        ledger := some { l with
          database := some ⟨c.pages, some (ledger.commit c.storage c.expected c.next).1.stored⟩ } }
    else none

/-- Commits that the ledger accepts, one after the other. -/
def World.commitAll (b : Binding) (profile : ProfileBinding) : World → List Committed → Option World
  | w, [] => some w
  | w, c :: cs => (w.commit b profile c).bind fun w => w.commitAll b profile cs

/-- The record of the last commit. -/
def lastCommitted (r : Record) (cs : List Committed) : Record :=
  ((cs.map (·.next)).getLast?).getD r

theorem transaction_accepted {l : UploadLedger.Ledger} {s : UploadLedger.Storage}
    {expected next : Record} (h : (UploadLedger.transaction l s expected next).2 = true) :
    (UploadLedger.transaction l s expected next).1 = next := by
  rw [UploadLedger.transaction] at h ⊢
  split_ifs at h ⊢
  cases hr : UploadLedger.readRecord l s with
  | none =>
    rw [hr] at h
    cases h
  | some actual =>
    rw [hr] at h
    dsimp only at h ⊢
    split_ifs at h ⊢
    cases hc : s.commit with
    | lost =>
      rw [hc] at h
      cases h
    | done | uncertain => rfl

theorem commit_accepted {l : UploadLedger.Ledger} {s : UploadLedger.Storage} {expected next : Record}
    (h : (l.commit s expected next).2 = true) :
    (l.commit s expected next).1.stored = next ∧
      validateRecordForProfile next l.binding l.profile = true := by
  rw [UploadLedger.Ledger.commit] at h ⊢
  split_ifs at h ⊢ with hc hv
  simp only [UploadLedger.validChangeForProfile, Bool.not_eq_true', Bool.not_eq_false,
    Bool.and_eq_true] at hv
  exact ⟨transaction_accepted h, hv.1.1.2⟩

/-! ## An enrolled directory -/

/-- The directory of a completed enrollment, and what its ledger holds. -/
structure Enrolled (w : World) (b : Binding) (secret : Bytes) (profile : ProfileBinding)
    (pages : ℕ) (r : Record) : Prop where
  names : w.names = complete
  attempt : Holding (w.file .attempt) ⟨.attempted, b, []⟩
  credential : Holding (w.file .credential) ⟨.credential, b, secret⟩
  ready : Holding (w.file .ready) ⟨.ready, b, []⟩
  secret : secretPattern secret = true
  ledger : ∃ l, w.ledger = some l ∧ l.lock = true ∧ l.journal = none ∧
    l.database = some ⟨pages, some r⟩
  pages : pages ≤ (limits profile.kind).pages
  valid : r.Valid b profile

theorem freshRecord_valid {b : Binding} {profile : ProfileBinding}
    (h : validBinding b = true ∧ validProfile profile = true) :
    (freshRecord b profile).Valid b profile where
  expected := h
  bound := ⟨rfl, rfl⟩
  watermark := show (0 : Int64) ≤ 0 by decide
  unacked := fun _ => rfl
  acked := nofun
  final := nofun
  exhausted := nofun
  pending := nofun

theorem System.Inv.enrolled {s : System} (h : s.Inv) {t : Thread calls ℕ Finish}
    (ht : t ∈ s.threads) {setup : Setup} (hf : t.prog.result = some (.enrolled setup)) :
    setup.principals.profile setup.binding = some setup.profile ∧
    ∃ secret pages, Enrolled s.shared setup.binding secret setup.profile pages
      (freshRecord setup.binding setup.profile) := by
  obtain ⟨q, hq, hprofile, secret, rfl⟩ := h.returned ht hf
  obtain ⟨-, hcreator, hstage, hpaid, hcredential, hready, -, hvalid, l, hl, hlock, hjournal, pages,
    hdatabase, hpages⟩ := hq
  have hlockFile := h.shared.lock (by rw [hcreator]; nofun)
  obtain ⟨a, ha, hacontent, -⟩ := hpaid.attempt
  refine ⟨hprofile, secret, pages, ?_, ⟨a, ha, hacontent⟩, hcredential, hready, hpaid.secret,
    ⟨l, hl, hlock, hjournal, hdatabase⟩, hpages, freshRecord_valid hvalid⟩
  obtain ⟨c, hc, -⟩ := hcredential
  obtain ⟨g, hg, -⟩ := hready
  have hstage' : s.shared.file .stage = none := hstage
  simp [World.names, Name.all, hlockFile, hstage', ha, hc, hg, hl, complete]

variable {w w' : World} {b : Binding} {secret : Bytes} {profile : ProfileBinding} {pages : ℕ}
  {r : Record}

theorem Enrolled.commit (h : Enrolled w b secret profile pages r) {c : Committed}
    (hc : w.commit b profile c = some w') : Enrolled w' b secret profile c.pages c.next ∧
      w'.holder = w.holder ∧ w'.ledger.map (·.holder) = w.ledger.map (·.holder) := by
  obtain ⟨l, hl, hlock, hjournal, hdatabase⟩ := h.ledger
  have hrecord : l.record = some r := by rw [LedgerDirectory.record, hdatabase]; rfl
  simp only [World.commit, hl, Option.bind_some, hrecord] at hc
  obtain ⟨haccept, hc⟩ := Option.ite_none_right_eq_some.1 hc
  obtain rfl := Option.some.inj hc
  simp only [Bool.and_eq_true, decide_eq_true_eq] at haccept
  obtain ⟨hstored, hvalid⟩ := commit_accepted haccept.1
  refine ⟨⟨?_, h.attempt, h.credential, h.ready, h.secret, ⟨_, rfl, hlock, hjournal, ?_⟩, haccept.2,
    validateRecordForProfile_iff.1 hvalid⟩, rfl, by rw [hl]; rfl⟩
  · rw [← h.names]
    simp [World.names, hl]
  · rw [hstored]

theorem Enrolled.commitAll (h : Enrolled w b secret profile pages r) {cs : List Committed}
    (hcs : w.commitAll b profile cs = some w') :
    (∃ pages', Enrolled w' b secret profile pages' (lastCommitted r cs)) ∧
      w'.holder = w.holder ∧ w'.ledger.map (·.holder) = w.ledger.map (·.holder) := by
  induction cs generalizing w pages r with
  | nil =>
    obtain rfl := Option.some.inj hcs
    exact ⟨⟨pages, h⟩, rfl, rfl⟩
  | cons c cs ih =>
    obtain ⟨w₁, hc, hrest⟩ := Option.bind_eq_some_iff.1 hcs
    obtain ⟨h₁, hholder, hledger⟩ := h.commit hc
    obtain ⟨⟨pages', h'⟩, hholder', hledger'⟩ := ih h₁ hrest
    refine ⟨⟨pages', ?_⟩, hholder'.trans hholder, hledger'.trans hledger⟩
    have hlast : lastCommitted r (c :: cs) = lastCommitted c.next cs := by
      simp [lastCommitted, List.getLast?_cons]
    rw [hlast]
    exact h'

/-! ## Opening it -/

theorem openDirectory_alone (me : ℕ) (h : Enrolled w b secret profile pages r)
    (hholder : w.holder = none) :
    alone me w (openDirectory false) = ({ w with holder := some me }, true) := by
  have hlock : (w.file .lock).isSome = true := isSome_of_names h.names (by decide)
  have hopen : alone me w (openDirectory false) =
      alone me w (if (false && decide (w.names ≠ [])) ||
        (!false && (decide (Name.lock ∉ w.names) || decide (Name.stage ∈ w.names))) then pure false
      else steps [query .openLock, query .flock, query .checkRoot, query .alive]) := rfl
  have hflock : alone me w (query .flock) = ({ w with holder := some me }, true) := by
    show ((w.flock me {}).1, (w.flock me {}).2) = _
    simp [World.flock, hholder]
  rw [hopen, h.names, if_neg (by decide)]
  rw [alone_steps_cons (show alone me w (query .openLock) = (w, true) from by
    show (w, true && (w.file .lock).isSome) = _
    rw [hlock]
    rfl)]
  rw [alone_steps_cons hflock]
  rfl

/-- A ledger that nobody has locked. -/
structure LedgerFree (w : World) (profile : ProfileBinding) (pages : ℕ) (r : Record)
    (l : LedgerDirectory) : Prop where
  ledger : w.ledger = some l
  lock : l.lock = true
  holder : l.holder = none
  journal : l.journal = none
  database : l.database = some ⟨pages, some r⟩
  pages : pages ≤ (limits profile.kind).pages

theorem loadLedger_alone (me : ℕ) (hl : w.ledger = some l)
    (hdatabase : l.database = some ⟨pages, some r⟩) (hr : r.Valid b profile) :
    alone me w (loadLedger b profile) = (w, some r) := by
  have hread : alone me w (query .readRecord) = (w, some r) := by
    show (w, w.ledger.bind (·.record)) = _
    rw [hl, Option.bind_some, LedgerDirectory.record, hdatabase]
    rfl
  rw [loadLedger, alone_bind hread]
  show (w, if validateRecordForProfile r b profile then some r else none) = _
  rw [if_pos (validateRecordForProfile_iff.2 hr)]

theorem openLedger_alone (me : ℕ) (h : LedgerFree w profile pages r l) (hr : r.Valid b profile) :
    alone me w (openLedger b profile false) =
      ({ w with ledger := some { l with holder := some me } }, true) := by
  have hfresh : validateRecordForProfile (freshRecord b profile) b profile = true :=
    validateRecordForProfile_iff.2 (freshRecord_valid hr.expected)
  have hlocked : alone me w (query (.ledgerLock false)) =
      ({ w with ledger := some { l with holder := some me } }, true) := by
    show ((w.ledgerLock false me {}).1, (w.ledgerLock false me {}).2) = _
    simp [World.ledgerLock, h.ledger, h.lock, h.holder]
  rw [openLedger, alone_bind (show alone me w (query .alive) = (w, true) from rfl), hfresh,
    if_neg (by decide), alone_bind hlocked, if_neg (by decide)]
  generalize hw : ({ w with ledger := some { l with holder := some me } } : World) = w₁
  have hledger : w₁.ledger = some { l with holder := some me } := by rw [← hw]
  have hany {f : LedgerDirectory → Bool} (hf : f { l with holder := some me } = true) :
      (w₁, true && w₁.ledger.any f) = (w₁, true) := by
    rw [hledger, Option.any_some, hf]
    rfl
  have hfiles : LedgerDirectory.checkFiles { l with holder := some me } profile.kind = true :=
    checkFiles_of (r := r) h.lock h.journal h.database h.pages
  have hkind : LedgerDirectory.ofKind { l with holder := some me } profile.kind = true := by
    simp [LedgerDirectory.ofKind, h.database, hr.bound.2]
  have hconfigure : LedgerDirectory.configure { l with holder := some me } profile.kind = true := by
    simp [LedgerDirectory.configure, h.database, h.pages]
  have hloadable : alone me w₁ (loadable b profile) = (w₁, true) := by
    rw [loadable, alone_bind (loadLedger_alone me hledger h.database hr)]
    rfl
  have hsteps : alone me w₁
      (steps [query (.checkFiles profile.kind), query (.checkHeader profile.kind),
        query (.verifySchema profile.kind), query (.configure profile.kind),
        query (.verifySchema profile.kind), loadable b profile]) = (w₁, true) := by
    have hcheckFiles : alone me w₁ (query (.checkFiles profile.kind)) = (w₁, true) :=
      hany (f := (·.checkFiles profile.kind)) hfiles
    have hcheckHeader : alone me w₁ (query (.checkHeader profile.kind)) = (w₁, true) :=
      hany (f := (·.ofKind profile.kind)) hkind
    have hverifySchema : alone me w₁ (query (.verifySchema profile.kind)) = (w₁, true) :=
      hany (f := (·.ofKind profile.kind)) hkind
    have hconfigured : alone me w₁ (query (.configure profile.kind)) = (w₁, true) :=
      hany (f := (·.configure profile.kind)) hconfigure
    rw [alone_steps_cons hcheckFiles, alone_steps_cons hcheckHeader,
      alone_steps_cons hverifySchema, alone_steps_cons hconfigured,
      alone_steps_cons hverifySchema, alone_steps_cons hloadable]
    rfl
  exact (alone_bind hsteps _).trans rfl

theorem openedLedger_alone (me : ℕ) (h : LedgerFree w profile pages r l) (hr : r.Valid b profile)
    (hfiles : ∀ n ∈ [Name.lock, .attempt, .credential, .ready], (w.file n).isSome = true) :
    (alone me w (openedLedger b profile secret)).2 =
      if profile.kind = .richProcessesDocker → pages ≤ 64 then .opened b profile secret r
      else .refused := by
  simp only [List.mem_cons, List.not_mem_nil, or_false, forall_eq_or_imp, forall_eq] at hfiles
  obtain ⟨hlock, hattempt, hcredential, hready⟩ := hfiles
  -- The four files are synced; the ledger stays as it is.
  obtain ⟨w₁, hsync₁, hl₁, hsome₁⟩ := syncFile_alone me hlock
  obtain ⟨w₂, hsync₂, hl₂, hsome₂⟩ := syncFile_alone me ((hsome₁ .attempt).trans hattempt)
  obtain ⟨w₃, hsync₃, hl₃, hsome₃⟩ :=
    syncFile_alone me ((hsome₂ .credential).trans ((hsome₁ .credential).trans hcredential))
  obtain ⟨w₄, hsync₄, hl₄, -⟩ := syncFile_alone me
    ((hsome₃ .ready).trans ((hsome₂ .ready).trans ((hsome₁ .ready).trans hready)))
  have hledger : w₄.ledger = some l := hl₄.trans (hl₃.trans (hl₂.trans (hl₁.trans h.ledger)))
  have hprivacy : alone me w₄ (query (.ledgerPrivacy profile.kind)) =
      (w₄, decide (profile.kind = .richProcessesDocker → pages ≤ 64)) := by
    show (w₄, true && w₄.ledger.any (·.ledgerPrivacy profile.kind)) = _
    rw [hledger, Option.any_some, ledgerPrivacy_eq h.journal h.database h.pages, Bool.true_and]
  have hsteps : alone me w (steps
      [query (.syncFile .lock), query (.syncFile .attempt), query (.syncFile .credential),
        query (.syncFile .ready), query (.ledgerPrivacy profile.kind),
        openLedger b profile false]) =
      alone me w₄ (steps [query (.ledgerPrivacy profile.kind), openLedger b profile false]) := by
    rw [alone_steps_cons hsync₁, alone_steps_cons hsync₂, alone_steps_cons hsync₃,
      alone_steps_cons hsync₄]
  -- the store looks at the sizes before it opens the ledger
  split_ifs with hsmall
  · rw [decide_eq_true hsmall] at hprivacy
    have hopened := openLedger_alone me
      (⟨hledger, h.lock, h.holder, h.journal, h.database, h.pages⟩ :
        LedgerFree w₄ profile pages r l) hr
    rw [alone_steps_cons hprivacy, alone_steps_cons hopened] at hsteps
    have hload := loadLedger_alone (w := { w₄ with ledger := some { l with holder := some me } }) me
      rfl h.database hr
    rw [openedLedger, alone_bind (hsteps.trans rfl), if_neg (by decide), alone_bind hload]
    rfl
  · rw [decide_eq_false hsmall] at hprivacy
    rw [openedLedger, alone_bind (hsteps.trans (alone_bind hprivacy _))]
    rfl

/-- An enrolled directory that nobody holds opens, and its ledger loads the record it holds; a
    large database of the Docker profile is refused. -/
theorem Enrolled.opens (h : Enrolled w b secret profile pages r) (me : ℕ) {principals : Principals}
    (hprofile : principals.profile b = some profile) (hholder : w.holder = none)
    (hledger : ∀ l, w.ledger = some l → l.holder = none) :
    (alone me w (openReady principals b)).2 =
      if profile.kind = .richProcessesDocker → pages ≤ 64 then .opened b profile secret r
      else .refused := by
  obtain ⟨l, hl, hlock, hjournal, hdatabase⟩ := h.ledger
  have hb : validBinding b = true := h.valid.expected.1
  have hopen := openDirectory_alone me h hholder
  generalize hw : ({ w with holder := some me } : World) = w₁ at hopen
  have hnames : w₁.names = complete := by rw [← hw]; exact h.names
  have hfile : w₁.file = w.file := by rw [← hw]
  have hfree : LedgerFree w₁ profile pages r l := by
    rw [← hw]
    exact ⟨hl, hlock, hledger l hl, hjournal, hdatabase, h.pages⟩
  have hattempt : alone me w₁ (readable b .attempt .attempted) = (w₁, true) :=
    readable_alone me (by rw [hfile]; exact h.attempt) (by simp [decode, hb])
  have hready : alone me w₁ (readable b .ready .ready) = (w₁, true) :=
    readable_alone me (by rw [hfile]; exact h.ready) (by simp [decode, hb])
  have hcredential : alone me w₁ (readAs b .credential .credential) =
      (w₁, some ⟨.credential, b, secret⟩) :=
    readAs_alone me (by rw [hfile]; exact h.credential) (by simp [decode, hb, h.secret])
  have hsteps : alone me w₁ (steps [listed [.lock, .attempt, .credential, .ready, .ledger],
      readable b .attempt .attempted, readable b .ready .ready]) = (w₁, true) := by
    rw [alone_steps_cons (listed_alone me hnames), alone_steps_cons hattempt,
      alone_steps_cons hready]
    rfl
  obtain ⟨w₂, hrecords⟩ : ∃ w₂, alone me w₁ (openRecords b profile) =
      (w₂, if profile.kind = .richProcessesDocker → pages ≤ 64 then .opened b profile secret r
        else .refused) := by
    refine ⟨(alone me w₁ (openRecords b profile)).1, Prod.ext rfl ?_⟩
    rw [openRecords, alone_bind hsteps, if_neg (by decide), alone_bind hcredential]
    exact openedLedger_alone me hfree h.valid fun n hn => isSome_of_names hnames hn
  rw [openReady, hprofile]
  dsimp only
  rw [hb, if_neg (by decide), alone_bind hopen, if_neg (by decide), alone_bind hrecords]
  split_ifs <;> rfl

/-- **An enrolled installation stays openable exactly if its files are small.**  After
    every run in which an enrollment completed, and any commits that the ledger
    accepted for its binding and profile, each leaving the database at any number
    of pages that the ledger configures: if nobody holds the directory or the
    ledger, opening it with the same principals succeeds and loads the record
    that was committed last, provided that, for the Docker profile, the
    database has no more than 64 pages; otherwise it is refused.  For the other
    profiles every size that the ledger admits is admitted. -/
theorem stays_openable (ms : List Move) (t : Thread calls ℕ Finish)
    (ht : t ∈ (System.empty.after ms).threads) (setup : Setup)
    (hf : t.prog.result = some (.enrolled setup)) (cs : List Committed) (w : World)
    (hcs : (System.empty.after ms).shared.commitAll setup.binding setup.profile cs = some w)
    (hholder : w.holder = none) (hledger : ∀ l, w.ledger = some l → l.holder = none) (me : ℕ) :
    (∃ secret, Accepted (System.empty.after ms).shared setup.binding secret ∧
      ((setup.profile.kind = .richProcessesDocker → ∀ l d, w.ledger = some l →
          l.database = some d → d.pages ≤ 64) →
        (alone me w (openReady setup.principals setup.binding)).2 =
          .opened setup.binding setup.profile secret
            (lastCommitted (freshRecord setup.binding setup.profile) cs)) ∧
      (¬ (setup.profile.kind = .richProcessesDocker → ∀ l d, w.ledger = some l →
          l.database = some d → d.pages ≤ 64) →
        (alone me w (openReady setup.principals setup.binding)).2 = .refused)) ∧
    ∀ l : LedgerDirectory, setup.profile.kind ≠ .richProcessesDocker →
      l.checkFiles setup.profile.kind = true → l.ledgerPrivacy setup.profile.kind = true := by
  have hinv := empty_inv.after ms
  obtain ⟨hprofile, secret, pages, henrolled⟩ := hinv.enrolled ht hf
  obtain ⟨⟨pages', hlast⟩, -, -⟩ := henrolled.commitAll hcs
  obtain ⟨l, hl, -, -, hdatabase⟩ := hlast.ledger
  have hopens := hlast.opens me hprofile hholder hledger
  have hpages : (∀ l d, w.ledger = some l → l.database = some d → d.pages ≤ 64) ↔ pages' ≤ 64 := by
    refine ⟨fun h => h l _ hl hdatabase, fun h l' d hl' hd => ?_⟩
    obtain rfl := Option.some.inj (hl.symm.trans hl')
    obtain rfl := Option.some.inj (hdatabase.symm.trans hd)
    exact h
  rw [hpages]
  exact ⟨⟨secret, (hinv.shared.credential _ henrolled.credential).2,
    fun hsmall => hopens.trans (if_pos hsmall), fun hlarge => hopens.trans (if_neg hlarge)⟩,
    fun _ hkind => ledgerPrivacy_of_checkFiles hkind⟩

end

/-! ## A large database -/

/-- A hash for examples, which maps everything to the same digest. -/
abbrev onesDigest : Sha256 := ⟨fun _ => Vector.replicate 32 1⟩

def dockerPrincipals : Principals := .richProcessesDocker ⟨101, 102, 103, 104, 105, 106, 107⟩

/-- A process that nothing disturbs, with a server that accepts its grant. -/
def smoothly : Environment :=
  { grant := some ⟨ascii "srv_00000000000000000000000000000000",
      ascii "hle_0000000000000000000000000000000000000000000"⟩
    identity := some (Vector.replicate 16 0)
    response := some ⟨.accepted, ascii "srv_00000000000000000000000000000000",
      ascii "hlc_0000000000000000000000000000000000000000000"⟩ }

def enrollment (principals : Principals) : List Move :=
  .enroll principals :: List.replicate 100 (.advance 0 smoothly)

def enrolledSystem (principals : Principals) : System :=
  @System.after onesDigest plainProjection System.empty (enrollment principals)

/-- The enrollment with the Docker principals when it is complete. -/
def dockerSetup : Setup :=
  { principals := dockerPrincipals
    binding := ⟨ascii "srv_00000000000000000000000000000000",
      ascii "agent_00000000000000000000000000000000"⟩
    profile := ⟨.richProcessesDocker, Vector.replicate 32 1⟩
    step := 4 }

def dockerFresh : Record := freshRecord dockerSetup.binding dockerSetup.profile

/-- A commit after which the database has the given number of pages. -/
def dockerCommit (pages : ℕ) : Committed :=
  { expected := dockerFresh, next := { dockerFresh with stopped := some .conflict }, pages := pages }

def dockerWorld (pages : ℕ) : Option World :=
  @World.commitAll onesDigest plainProjection dockerSetup.binding dockerSetup.profile
    (enrolledSystem dockerPrincipals).shared [dockerCommit pages]

theorem docker_enrolled : ∃ t ∈ (enrolledSystem dockerPrincipals).threads,
    t.prog.result = some (.enrolled dockerSetup) := by
  have h : (enrolledSystem dockerPrincipals).threads[0]?.bind (·.prog.result) =
      some (.enrolled dockerSetup) := by decide +kernel
  obtain ⟨t, ht, hresult⟩ := Option.bind_eq_some_iff.1 h
  exact ⟨t, List.mem_of_getElem? ht, hresult⟩

/-- Who holds the directory and its ledger, and the number of pages of the database. -/
def World.holders (w : World) : Option ℕ × Option (Option ℕ) × Option ℕ :=
  (w.holder, w.ledger.map (·.holder), w.ledger.bind fun l => l.database.map (·.pages))

theorem World.free_of_holders {w : World} {pages : ℕ}
    (h : w.holders = (none, some none, some pages)) :
    w.holder = none ∧ (∀ l, w.ledger = some l → l.holder = none) ∧
      ∀ l d, w.ledger = some l → l.database = some d → d.pages = pages := by
  simp only [World.holders, Prod.mk.injEq] at h
  obtain ⟨hholder, hledger, hpages⟩ := h
  refine ⟨hholder, fun l hl => ?_, fun l d hl hd => ?_⟩
  · rw [hl] at hledger
    exact Option.some.inj hledger
  · rw [hl, Option.bind_some, hd] at hpages
    exact Option.some.inj hpages

/-- With 64 pages the installation opens. -/
theorem small_docker_database_opens : ∃ t ∈ (enrolledSystem dockerPrincipals).threads,
    t.prog.result = some (.enrolled dockerSetup) ∧
    ∃ w secret, dockerWorld 64 = some w ∧
      Accepted (enrolledSystem dockerPrincipals).shared dockerSetup.binding secret ∧
      (alone 1 w (@openReady onesDigest plainProjection dockerPrincipals dockerSetup.binding)).2 =
        .opened dockerSetup.binding dockerSetup.profile secret
          { dockerFresh with stopped := some .conflict } := by
  obtain ⟨t, ht, hresult⟩ := docker_enrolled
  have h : (dockerWorld 64).map World.holders = some (none, some none, some 64) := by
    decide +kernel
  obtain ⟨w, hw, hholders⟩ := Option.map_eq_some_iff.1 h
  obtain ⟨hholder, hledger, hpages⟩ := World.free_of_holders hholders
  obtain ⟨⟨secret, haccepted, hopened, -⟩, -⟩ := @stays_openable onesDigest plainProjection
    (enrollment dockerPrincipals) t ht dockerSetup hresult [dockerCommit 64] w hw hholder hledger 1
  exact ⟨t, ht, hresult, w, secret, hw, haccepted,
    hopened fun _ l d hl hd => (hpages l d hl hd).le⟩

/-- With 65 pages, which the ledger admits, it does not. -/
theorem large_docker_database_refused : ∃ t ∈ (enrolledSystem dockerPrincipals).threads,
    t.prog.result = some (.enrolled dockerSetup) ∧
    ∃ w, dockerWorld 65 = some w ∧ w.holder = none ∧ (∀ l, w.ledger = some l → l.holder = none) ∧
      (alone 1 w (@openReady onesDigest plainProjection dockerPrincipals dockerSetup.binding)).2 =
        .refused := by
  obtain ⟨t, ht, hresult⟩ := docker_enrolled
  have h : (dockerWorld 65).map (fun w => (w.holders,
      (alone 1 w (@openReady onesDigest plainProjection dockerPrincipals dockerSetup.binding)).2)) =
      some ((none, some none, some 65), .refused) := by
    decide +kernel
  obtain ⟨w, hw, hv⟩ := Option.map_eq_some_iff.1 h
  obtain ⟨hholders, hrefused⟩ := Prod.mk.inj hv
  obtain ⟨hholder, hledger, -⟩ := World.free_of_holders hholders
  exact ⟨t, ht, hresult, w, hw, hholder, hledger, hrefused⟩

end Enrollment

end HomeLab
