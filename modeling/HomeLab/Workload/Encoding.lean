/-
  The two ways to encode a document.

  `encode` projects and prints both groups at once; the other way projects the
  containers first, stores the section, and puts it into a document of processes
  later.  They give the same bytes (`encodings_agree`).

  Whether a document can be encoded does not depend on the texts in it, with two
  exceptions: a text whose cut makes a secret, in a row that is kept (`Kept`), and
  an inventory at the edge of what fits (`encode_any_text`).
-/
import HomeLab.Workload.Documents

namespace HomeLab

namespace Workload

/-! ## Fitted sections -/

theorem validSection_disabled {α : Type} (item : Codec α) {basis : Bytes}
    (hbasis : basis.length ≤ 20) (rows : ℕ) :
    fitSection item { empty α .disabled none with cpuBasis := basis } rows =
        { empty α .disabled none with cpuBasis := basis } ∧
      validSection item { empty α .disabled none with cpuBasis := basis } false rows = true := by
  have hsmall : Section.Small { empty α .disabled none with cpuBasis := basis } :=
    ⟨hbasis, fun t ht => (nomatch ht), fun t ht => (nomatch ht)⟩
  exact ⟨fitSection_of_nil hsmall rfl rows,
    validSection_iff.2 ⟨rfl, Nat.zero_le rows, hsmall.fits item rfl rfl⟩⟩

section
variable {F : Type} [Float64 F]

variable {s : Section (ContainerRow F)} {b : Bytes} {id : Identity} {raw : Observation.Snapshot F}

/-- A section of containers that is valid apart from its limits is printed unless it is
    mismarked. -/
theorem fitContainers_apart {enabled : Bool}
    (h : validApart { s with cpuBasis := containerBasis } enabled = true)
    (hrows : validContainers (s.quality.state = .degraded) s.items = true) :
    validContainersSection (fitContainers s) enabled = true ↔
      ¬ Mismarked (containerRowCodec F) { s with cpuBasis := containerBasis } maxContainers := by
  obtain ⟨⟨n, hitems⟩, hbasis, hquality⟩ := fitSection_keeps (containerRowCodec F)
    { s with cpuBasis := containerBasis } maxContainers
  rw [validContainersSection_iff,
    ← validSection_fitSection h (show containerBasis.length ≤ 20 by decide) maxContainers]
  refine ⟨fun hall => hall.2.1, fun hvalid => ⟨hbasis, hvalid, ?_⟩⟩
  show validContainers _ (fitSection _ _ _).items = true
  rw [hitems]
  refine checkRows_take (fun v hv => ?_) hrows n
  rw [Bool.and_eq_true] at hv ⊢
  refine ⟨hv.1, ?_⟩
  by_cases hdegraded : s.quality.state = .degraded
  · have hstate : (fitContainers s).quality.state = .degraded := by
      rcases hquality with hq | hq
      · exact (congrArg Quality.state hq).trans hdegraded
      · exact congrArg Quality.state hq
    simp [hstate]
  · have hcomplete : incomplete v = false := by simpa [hdegraded] using hv.2
    simp [hcomplete]

/-- **The containers that were projected are valid**, unless their inventory is brimful. -/
theorem fitContainers_valid {raw : Containers.Inventory F} (h : projectContainers raw = some s) :
    validContainersSection (fitContainers s) true = true ↔ ¬ Brimful raw := by
  have hspec := projectContainers_spec h
  rw [fitContainers_apart hspec.apart, hspec.brimful]
  refine hspec.orderly.check_iff.2 fun r hr => ?_
  rw [hspec.items, (List.mergeSort_perm _ _).mem_iff] at hr
  obtain ⟨v, hv, rfl⟩ := List.mem_map.1 hr
  rw [Bool.and_eq_true]
  refine ⟨(containerRow_spec (hspec.rows v hv)).2, ?_⟩
  by_cases hdegraded : s.quality.state = .degraded
  · simp [hdegraded]
  · simp [hspec.complete hdegraded v hv]

theorem disabledContainers_valid :
    validContainersSection (fitContainers (empty (ContainerRow F) .disabled none)) false = true := by
  obtain ⟨heq, hvalid⟩ := validSection_disabled (containerRowCodec F)
    (show containerBasis.length ≤ 20 by decide) maxContainers
  have hfit : fitContainers (empty (ContainerRow F) .disabled none) = _ := heq
  rw [hfit]
  exact validContainersSection_iff.2 ⟨rfl, hvalid, rfl⟩

/-! ## The processes that are kept -/

/-- A process is kept: those ranked up to it are few enough, and fit. -/
def Kept (raw : Observation.Section (List (Observation.Process F))) (time : Bytes)
    (v : Observation.Process F) : Prop :=
  let rows := (readProcesses raw).map shownProcess
  let ahead := rows.filter fun r => !processBefore (shownProcess v) r
  ahead.length ≤ maxProcesses ∧
    ((processSection raw time ahead).shortened.size (processRowCodec F) ≤ maxSectionBytes ∨
      rows.length ≤ maxProcesses ∧
        (processSection raw time rows).size (processRowCodec F) ≤ maxSectionBytes)

/-- In a sorted list the elements up to a given one are the first. -/
theorem filter_sorted {α K : Type} [LinearOrder K] {rank : α → K} {before : α → α → Bool}
    (h : ∀ a b, before a b = true ↔ rank a < rank b) {rows : List α}
    (hrows : rows.Pairwise fun a b => rank a < rank b) {i : ℕ} {r : α} (hr : rows[i]? = some r) :
    (rows.filter fun a => !before r a) = rows.take (i + 1) := by
  induction rows generalizing i with
  | nil => cases hr
  | cons a rows ih =>
    obtain ⟨hfirst, hrows⟩ := List.pairwise_cons.1 hrows
    cases i with
    | zero =>
      obtain rfl : a = r := Option.some.inj hr
      have hself : before a a = false := Bool.eq_false_iff.2 fun hlt => lt_irrefl _ ((h a a).1 hlt)
      have hrest : (rows.filter fun b => !before a b) = [] :=
        List.filter_eq_nil_iff.2 fun b hb => by simp [(h a b).2 (hfirst b hb)]
      rw [List.filter_cons, hself, hrest]
      rfl
    | succ i =>
      have hmem : r ∈ rows := List.mem_of_getElem? hr
      have hahead : before r a = false :=
        Bool.eq_false_iff.2 fun hlt => lt_asymm ((h r a).1 hlt) (hfirst r hmem)
      rw [List.filter_cons, hahead, List.take_succ_cons, ← ih hrows hr]
      rfl

theorem ProjectedProcesses.sorted {raw : Observation.Section (List (Observation.Process F))}
    {time : Bytes} {s : Section (ProcessRow F)} (h : ProjectedProcesses raw time s) :
    s.items.Pairwise fun a b => processKey a < processKey b := by
  refine (h.orderly.order.and (List.pairwise_map.1 h.orderly.nodup)).imp fun {a b} hab => ?_
  have hle : processKey a ≤ processKey b := by
    rw [← not_lt, ← processBefore_iff, hab.1]
    decide
  refine hle.lt_of_ne fun heq => hab.2 (Int32.toInt_inj.1 ?_)
  have hpid := congrArg (fun k => (ofLex (ofLex k).2).2) heq
  exact hpid

/-- **Which rows of processes are printed.** -/
theorem kept_iff {raw : Observation.Section (List (Observation.Process F))} {time : Bytes}
    {s : Section (ProcessRow F)} (h : ProjectedProcesses raw time s) {v : Observation.Process F}
    (hv : v ∈ readProcesses raw) :
    shownProcess v ∈ (fitProcesses s).items ↔ Kept raw time v := by
  have hperm : s.items.Perm ((readProcesses raw).map shownProcess) := by
    rw [h.items]
    exact List.mergeSort_perm _ _
  have hwhole := h.whole (List.ne_nil_of_mem hv)
  -- the rows are sorted, so those up to `v` are the ones that do not come after it
  obtain ⟨i, hi, hrow⟩ := List.getElem_of_mem (hperm.mem_iff.2 (List.mem_map_of_mem hv))
  have hget : s.items[i]? = some (shownProcess v) := by rw [List.getElem?_eq_getElem hi, hrow]
  have hahead := (hperm.filter fun r => !processBefore (shownProcess v) r).symm
  rw [filter_sorted processBefore_iff h.sorted hget] at hahead
  have hlen : (((readProcesses raw).map shownProcess).filter
      fun r => !processBefore (shownProcess v) r).length = i + 1 := by
    rw [hahead.length_eq, List.length_take_of_le hi]
  have hsize : (processSection raw time (((readProcesses raw).map shownProcess).filter
      fun r => !processBefore (shownProcess v) r)).shortened.size (processRowCodec F) =
      ((processSection raw time s.items).shortened.rows (i + 1)).size (processRowCodec F) := by
    rw [← Section.size_perm _ hahead.symm]
    simp only [processSection, Section.shortened, Section.rows, hlen]
  have hall : (processSection raw time ((readProcesses raw).map shownProcess)).size
      (processRowCodec F) = (processSection raw time s.items).whole.size (processRowCodec F) := by
    rw [← Section.size_perm _ hperm]
    simp only [processSection, Section.whole, hperm.length_eq]
  have hnodup : s.items.Nodup := .of_map _ h.orderly.nodup
  have hmem (n : ℕ) : shownProcess v ∈ s.items.take n ↔ i < n := by
    rw [← hrow, List.mem_take_iff_getElem]
    constructor
    · rintro ⟨j, hj, heq⟩
      rw [hnodup.getElem_inj_iff] at heq
      omega
    · exact fun hn => ⟨i, by omega, rfl⟩
  have hfitted : Fitted (processRowCodec F) (processSection raw time s.items) maxProcesses
      (fitProcesses s) := by
    rw [fitProcesses, hwhole]
    exact fitSection_cases _ _
  have hmono {m n : ℕ} (hmn : m ≤ n) := Section.size_rows_le (processRowCodec F)
    (s := (processSection raw time s.items).shortened) hmn
  unfold Kept
  dsimp only
  rw [hlen, hsize, hall, ← hperm.length_eq]
  generalize fitProcesses s = r at hfitted
  cases hfitted with
  | whole hrows hfits =>
    have hrows : s.items.length ≤ maxProcesses := hrows
    exact iff_of_true (hrow ▸ List.getElem_mem hi) ⟨by omega, Or.inr ⟨hrows, hfits⟩⟩
  | part n hn hrows hfits hmax =>
    refine (hmem n).trans ⟨fun hin => ⟨by omega, Or.inl ?_⟩, ?_⟩
    · exact (hmono hin).trans (hfits.resolve_left (by omega))
    · rintro ⟨hfew, hroom⟩
      by_contra hout
      rcases hroom with hroom | ⟨hcount, hroom⟩
      · have := (hmax (i + 1) (by omega) hi hfew).1
        omega
      · have hlong := (hmax _ hn le_rfl hcount).2
        rw [Section.cutTo, if_neg (Nat.lt_irrefl _)] at hlong
        omega
  | edge hrows hlong hfits =>
    have hrows : s.items.length ≤ maxProcesses := hrows
    refine iff_of_true ((hmem _).2 hi) ⟨by omega, Or.inl ?_⟩
    exact (hmono (Nat.succ_le_of_lt hi)).trans (hfits.resolve_left (Nat.ne_of_gt (Nat.zero_lt_of_lt hi)))

/-- **The processes that were projected are valid** exactly if no cut makes a secret in a row that
    is kept. -/
theorem fitProcesses_valid {raw : Observation.Section (List (Observation.Process F))}
    {time : Bytes} {s : Section (ProcessRow F)} (h : projectProcesses raw time = some s)
    (htime : validTime time = true) :
    (fitProcesses s).cpuBasis = processBasis ∧
      validSection (processRowCodec F) (fitProcesses s) true maxProcesses = true ∧
      (validProcesses (fitProcesses s).items = true ↔
        ∀ v ∈ readProcesses raw, Kept raw time v → ¬ CutsSecret v.name 128 true) := by
  have hspec := projectProcesses_spec h htime
  obtain ⟨⟨n, hitems⟩, hbasis, -⟩ := fitSection_keeps (processRowCodec F)
    { s with cpuBasis := processBasis } maxProcesses
  have hkept : (fitProcesses s).items = s.items.take n := hitems
  refine ⟨hbasis, (validSection_fitSection (s := { s with cpuBasis := processBasis }) hspec.apart
    (show processBasis.length ≤ 20 by decide) maxProcesses).2 ?_, ?_⟩
  · rintro ⟨hedge, hsome, -⟩
    have hnone : s.total = none := hspec.total hedge.degraded hedge.complete
    have hsome : s.total.isSome = true := hsome
    rw [hnone] at hsome
    cases hsome
  · have hcheck : validProcesses (fitProcesses s).items = true ↔
        ∀ r ∈ (fitProcesses s).items, validProcess r = true := by
      rw [hkept]
      exact (hspec.orderly.take n).check_iff
    rw [hcheck]
    constructor
    · intro hall v hv hk
      exact (validProcess_iff (hspec.rows v hv)).1 (hall _ ((kept_iff hspec hv).2 hk))
    · intro hall r hr
      have hmem : r ∈ s.items := List.mem_of_mem_take (hkept ▸ hr)
      rw [hspec.items, (List.mergeSort_perm _ _).mem_iff] at hmem
      obtain ⟨v, hv, rfl⟩ := List.mem_map.1 hmem
      exact (validProcess_iff (hspec.rows v hv)).2 (hall v hv ((kept_iff hspec hv).1 hr))

theorem disabledProcesses_valid :
    (fitProcesses (empty (ProcessRow F) .disabled none)).cpuBasis = processBasis ∧
      validSection (processRowCodec F) (fitProcesses (empty (ProcessRow F) .disabled none)) false
        maxProcesses = true ∧
      validProcesses (fitProcesses (empty (ProcessRow F) .disabled none)).items = true := by
  obtain ⟨heq, hvalid⟩ := validSection_disabled (processRowCodec F)
    (show processBasis.length ≤ 20 by decide) maxProcesses
  have hfit : fitProcesses (empty (ProcessRow F) .disabled none) = _ := heq
  rw [hfit]
  exact ⟨rfl, hvalid, rfl⟩

/-! ## What is printed -/

theorem printDocument_eq_ok {d : Document F} {source : Bytes} :
    printDocument d source = .ok b ↔
      validDocument d source = true ∧ b = marshal (documentCodec F) d := by
  unfold printDocument
  constructor
  · intro h
    split_ifs at h with hvalid
    cases h
    exact ⟨hvalid.1, rfl⟩
  · rintro ⟨hvalid, rfl⟩
    rw [if_pos ⟨hvalid, (validDocument_iff.1 hvalid).length_document⟩]

theorem encode_eq_ok {docker : Containers.Inventory F} {consent : Consent} :
    encode raw docker id consent = .ok b ↔ validEnvelope raw id = true ∧ ∃ p c,
      processesOf raw consent.processes = some p ∧ containersOf docker consent.containers = some c ∧
      printDocument (document raw id consent (fitProcesses p) (fitContainers c)) id.sourceId =
        .ok b := by
  unfold encode
  cases henvelope : validEnvelope raw id with
  | false => simp
  | true =>
    simp only [Bool.true_eq_false, if_false, true_and]
    cases hp : processesOf raw consent.processes with
    | none => simp
    | some p =>
      cases hc : containersOf docker consent.containers with
      | none | some => simp

theorem validDocument_document {consent : Consent} {p : Section (ProcessRow F)}
    {c : Section (ContainerRow F)} (henvelope : validEnvelope raw id = true) :
    validDocument (document raw id consent p c) id.sourceId = true ↔
      p.cpuBasis = processBasis ∧
        validSection (processRowCodec F) p consent.processes maxProcesses = true ∧
        validContainersSection c consent.containers = true ∧ validProcesses p.items = true := by
  simp only [validEnvelope, Bool.and_eq_true, decide_eq_true_eq] at henvelope
  obtain ⟨⟨⟨-, htime⟩, -⟩, hidentity⟩ := henvelope
  rw [validDocument_iff]
  constructor
  · exact fun h => ⟨h.basis, h.processes, h.containers, h.rows⟩
  · rintro ⟨h1, h2, h3, h4⟩
    exact ⟨rfl, rfl, hidentity, rfl, htime, rfl, rfl, h1, h2, h3, h4⟩

theorem containerSection_eq_ok {raw : Containers.Inventory F} :
    containerSection raw = .ok s ↔ ∃ c, projectContainers raw = some c ∧ s = fitContainers c ∧
      validContainersSection (fitContainers c) true = true := by
  unfold containerSection
  cases projectContainers raw with
  | none => simp
  | some c =>
    dsimp only
    split_ifs with hvalid
    · constructor
      · intro h
        cases h
        exact ⟨c, rfl, rfl, hvalid⟩
      · rintro ⟨c', hc, rfl, -⟩
        cases hc
        rfl
    · constructor
      · intro h
        cases h
      · rintro ⟨c', hc, -, hfit⟩
        cases hc
        exact absurd hfit hvalid

/-- What the second way prints: the document around the processes and the given section. -/
theorem encodeProcessesAndContainers_eq_ok :
    encodeProcessesAndContainers raw id s = .ok b ↔ validContainersSection s true = true ∧
      validEnvelope raw id = true ∧ ∃ p, processesOf raw true = some p ∧
        printDocument (document raw id ⟨true, true⟩ (fitProcesses p) s) id.sourceId = .ok b := by
  unfold encodeProcessesAndContainers
  cases hs : validContainersSection s true with
  | false => simp
  | true =>
    simp only [Bool.true_eq_false, if_false, true_and]
    constructor
    · intro h
      cases hencode : encode raw noInventory id ⟨true, false⟩ with
      | error e => rw [hencode] at h; cases h
      | ok first =>
        rw [hencode] at h
        obtain ⟨henvelope, p, c, hp, -, hprint⟩ := encode_eq_ok.1 hencode
        obtain ⟨hvalid, rfl⟩ := printDocument_eq_ok.1 hprint
        dsimp only at h
        rw [(validDocument_iff.1 hvalid).unmarshal_document] at h
        exact ⟨henvelope, p, hp, h⟩
    · rintro ⟨henvelope, p, hp, hprint⟩
      obtain ⟨hvalid, -⟩ := printDocument_eq_ok.1 hprint
      obtain ⟨hbasis, hsection, -, hrows⟩ := (validDocument_document henvelope).1 hvalid
      have hfirst : validDocument (document raw id ⟨true, false⟩ (fitProcesses p)
          (fitContainers (empty (ContainerRow F) .disabled none))) id.sourceId = true :=
        (validDocument_document henvelope).2 ⟨hbasis, hsection, disabledContainers_valid, hrows⟩
      have hencode : encode raw noInventory id ⟨true, false⟩ = .ok _ :=
        encode_eq_ok.2 ⟨henvelope, p, _, hp, rfl, printDocument_eq_ok.2 ⟨hfirst, rfl⟩⟩
      rw [hencode]
      dsimp only
      rw [(validDocument_iff.1 hfirst).unmarshal_document]
      exact hprint

theorem validate_of_printDocument {d : Document F} {source : Bytes}
    (h : printDocument d source = .ok b) : validate (F := F) b source = true := by
  obtain ⟨hvalid, rfl⟩ := printDocument_eq_ok.1 h
  have hdocument := validDocument_iff.1 hvalid
  have hne : marshal (documentCodec F) d ≠ [] := by
    obtain ⟨c, t, hrender, -⟩ := Json.render_head ((documentCodec F).wellFormed d)
    rw [marshal, hrender]
    exact List.cons_ne_nil _ _
  simp [validate, hne, hdocument.length_document, hdocument.utf8_document,
    hdocument.unmarshal_document, hvalid]

/-- A valid section goes through a file unchanged. -/
theorem parseContainers_bytes (h : validContainersSection s true = true) :
    ∃ b, bytes s = .ok b ∧ parseContainers b = .ok s := by
  obtain ⟨-, hvalid, -⟩ := validContainersSection_iff.1 h
  obtain ⟨hgood, htext⟩ := good_containers h
  have hsize : (marshal (sectionCodec (containerRowCodec F)) s).length ≤ maxSectionBytes :=
    (validSection_iff.1 hvalid).2.2
  have hbytes : bytes s = .ok (marshal (sectionCodec (containerRowCodec F)) s) := by
    rw [bytes, if_pos ⟨h, hsize⟩]
  refine ⟨_, hbytes, ?_⟩
  have hne : marshal (sectionCodec (containerRowCodec F)) s ≠ [] := by
    obtain ⟨c, t, hrender, -⟩ :=
      Json.render_head ((sectionCodec (containerRowCodec F)).wellFormed s)
    rw [marshal, hrender]
    exact List.cons_ne_nil _ _
  have hutf : Utf8.valid (marshal (sectionCodec (containerRowCodec F)) s) = true :=
    Json.valid_render _ ((sectionCodec (containerRowCodec F)).wellFormed s) htext
  rw [parseContainers, if_neg]
  · rw [unmarshal_marshal hgood]
    dsimp only
    rw [if_pos ⟨h, hbytes⟩]
  · rw [hutf]
    push Not
    exact ⟨hne, hsize, by decide⟩

/-- **The two ways to encode a document agree.**  Both succeed on the same data with the same
    bytes, a section that went through a file is unchanged, what is printed is accepted, and a
    valid document is never too long. -/
theorem encodings_agree (raw : Observation.Snapshot F) (docker : Containers.Inventory F)
    (id : Identity) :
    (∀ b, encode raw docker id ⟨true, true⟩ = .ok b ↔
      ∃ s, containerSection docker = .ok s ∧ encodeProcessesAndContainers raw id s = .ok b) ∧
    (∀ s, containerSection docker = .ok s → ∃ b, bytes s = .ok b ∧ parseContainers b = .ok s) ∧
    (∀ consent b, encode raw docker id consent = .ok b →
      validate (F := F) b id.sourceId = true) ∧
    (∀ s b, encodeProcessesAndContainers raw id s = .ok b →
      validate (F := F) b id.sourceId = true) ∧
    ∀ (d : Document F) (source : Bytes), validDocument d source = true →
      (marshal (documentCodec F) d).length ≤ maxBytes := by
  refine ⟨fun b => ?_, ?_, ?_, ?_, fun d source h => (validDocument_iff.1 h).length_document⟩
  · rw [encode_eq_ok]
    constructor
    · rintro ⟨henvelope, p, c, hp, hc, hprint⟩
      obtain ⟨hvalid, -⟩ := printDocument_eq_ok.1 hprint
      obtain ⟨-, -, hcontainers, -⟩ := (validDocument_document henvelope).1 hvalid
      exact ⟨fitContainers c, containerSection_eq_ok.2 ⟨c, hc, rfl, hcontainers⟩,
        encodeProcessesAndContainers_eq_ok.2 ⟨hcontainers, henvelope, p, hp, hprint⟩⟩
    · rintro ⟨s, hs, h⟩
      obtain ⟨c, hc, rfl, -⟩ := containerSection_eq_ok.1 hs
      obtain ⟨-, henvelope, p, hp, hprint⟩ := encodeProcessesAndContainers_eq_ok.1 h
      exact ⟨henvelope, p, c, hp, hc, hprint⟩
  · intro s hs
    obtain ⟨c, -, rfl, hvalid⟩ := containerSection_eq_ok.1 hs
    exact parseContainers_bytes hvalid
  · intro consent b h
    obtain ⟨-, p, c, -, -, hprint⟩ := encode_eq_ok.1 h
    exact validate_of_printDocument hprint
  · intro s b h
    obtain ⟨-, -, p, -, hprint⟩ := encodeProcessesAndContainers_eq_ok.1 h
    exact validate_of_printDocument hprint

/-! ## Texts do not matter -/

/-- A text that nobody could object to. -/
def plainText : Bytes := ascii "x"

def plainProcess (v : Observation.Process F) : Observation.Process F := { v with name := plainText }

def plainSnapshot (raw : Observation.Snapshot F) : Observation.Snapshot F :=
  { raw with processes :=
    { raw.processes with data := raw.processes.data.map (List.map plainProcess) } }

def plainContainer (v : Containers.Container F) : Containers.Container F :=
  { v with name := plainText, image := plainText }

def plainInventory (docker : Containers.Inventory F) : Containers.Inventory F :=
  { docker with items := docker.items.map plainContainer }

/-- Neither the texts of an inventory nor their length stand in its way. -/
structure Projectable (docker : Containers.Inventory F) : Prop where
  texts : ∀ v ∈ readContainers docker,
    ¬ CutsSecret v.name 128 false ∧ ¬ CutsSecret v.image 240 false
  room : ¬ Brimful docker

theorem processRow_of_plain {v : Observation.Process F} (hname : Admissible v.name)
    (h : (processRow (plainProcess v)).isSome = true) : processRow v = some (shownProcess v) := by
  obtain ⟨r, h⟩ := Option.isSome_iff_exists.1 h
  unfold processRow at h ⊢
  split_ifs at h with hbad
  have hbad' : ¬ (v.pid.toInt ≤ 0 ∨ processPercent v.cpuPercent = false ∨
      maxExactInteger < v.memoryBytes ∨ maxExactInteger < v.uptimeSeconds) := hbad
  rw [if_neg hbad', hname.display]
  rfl

/-- The texts are the only reason why a container has no row, if it has one with plain texts. -/
theorem containerRow_of_plain {v : Containers.Container F} (hname : Admissible v.name)
    (himage : Admissible v.image) (h : (containerRow (plainContainer v)).isSome = true) :
    containerRow v = some (shownContainer v) ↔
      ¬ CutsSecret v.name 128 false ∧ ¬ CutsSecret v.image 240 false := by
  obtain ⟨r, h⟩ := Option.isSome_iff_exists.1 h
  obtain ⟨rfl, hrow⟩ := containerRow_spec h
  obtain ⟨halias, -, -, hstate, hcpu, hmemory, hmetrics⟩ := validContainer_iff.1 hrow
  rw [containerRow_iff hname himage, ← shownContainer_texts hname himage, validContainer_iff]
  exact ⟨fun h => ⟨h.2.1, h.2.2.1⟩, fun h => ⟨halias, h.1, h.2, hstate, hcpu, hmemory, hmetrics⟩⟩

/-- Rows that exist for the plain values exist for the values. -/
theorem collectRows_of_plain {α β κ : Type} [DecidableEq κ] {key : β → κ} {row : β → Option α}
    {f : β → α} (hf : ∀ v r, row v = some r → r = f v) {plain : β → β} {vs : List β}
    {rows : List α} (h : collectRows key row [] (vs.map plain) = some rows)
    (hkey : ∀ v, key (plain v) = key v) :
    (∀ v ∈ vs, (row (plain v)).isSome = true) ∧
      ((∀ v ∈ vs, row v = some (f v)) → collectRows key row [] vs = some (vs.map f)) := by
  obtain ⟨hnodup, -, hrow, -⟩ := (collectRows_iff hf).1 h
  rw [List.map_map, show key ∘ plain = key from funext hkey] at hnodup
  refine ⟨fun v hv => ?_, fun hall => (collectRows_iff hf).2
    ⟨hnodup, fun _ _ => List.not_mem_nil, hall, rfl⟩⟩
  rw [hrow _ (List.mem_map_of_mem hv)]
  rfl

theorem projectProcesses_of_plain {raw : Observation.Section (List (Observation.Process F))}
    {time : Bytes} (hnames : ∀ v ∈ readProcesses raw, Admissible v.name)
    {s : Section (ProcessRow F)}
    (h : projectProcesses { raw with data := raw.data.map (List.map plainProcess) } time = some s) :
    ∃ s', projectProcesses raw time = some s' := by
  unfold projectProcesses at h ⊢
  dsimp only at h ⊢
  split_ifs at h ⊢ with hstate hobserved
  · exact ⟨_, rfl⟩
  · exact ⟨_, rfl⟩
  · have hread : readProcesses raw = raw.data.getD [] := if_pos (by
      by_contra hno
      exact hstate (not_or.1 hno))
    cases hdata : raw.data with
    | none => exact ⟨_, rfl⟩
    | some items =>
      rw [hdata] at h hread
      rw [hread] at hnames
      dsimp only [Option.map_some] at h ⊢
      unfold collectedProcesses at h ⊢
      have hcounts : badProcessCounts (items.map plainProcess) raw.quality =
          badProcessCounts items raw.quality := by
        simp only [badProcessCounts, List.length_map]
      rw [hcounts] at h
      split_ifs at h ⊢ with hbad
      obtain ⟨rows, hrows, -⟩ := Option.map_eq_some_iff.1 h
      obtain ⟨hplain, hcollect⟩ :=
        collectRows_of_plain (fun _ _ => processRow_eq) hrows fun _ => rfl
      rw [hcollect fun v hv => processRow_of_plain (hnames v hv) (hplain v hv)]
      exact ⟨_, rfl⟩

theorem projectContainers_of_plain {docker : Containers.Inventory F}
    (htexts : ∀ v ∈ readContainers docker, Admissible v.name ∧ Admissible v.image)
    (h : projectContainers (plainInventory docker) = some s) :
    (∃ s', projectContainers docker = some s') ↔ ∀ v ∈ readContainers docker,
      ¬ CutsSecret v.name 128 false ∧ ¬ CutsSecret v.image 240 false := by
  have hschema := schemaVersion_of_project h
  rcases projectContainers_cases (show docker.schemaVersion = _ from hschema) with
    ⟨hcollected, heq⟩ | ⟨hcollected, state, reason, -, heq⟩
  · have hread : readContainers docker = docker.items := if_pos hcollected
    rcases projectContainers_cases hschema with ⟨-, hplain⟩ | ⟨hno, -⟩
    rotate_left
    · exact absurd (hno.symm.trans hcollected) Bool.false_ne_true
    rw [hplain] at h
    obtain ⟨time, htime, h⟩ := Option.bind_eq_some_iff.1 h
    obtain ⟨hc, hnodup, hrows, -⟩ := collectedContainers_iff.1 h
    have hlen : (plainInventory docker).items.length = docker.items.length := List.length_map _
    have hconsistent : Consistent docker time := by
      refine ⟨hc.later, hc.time, hc.state, ?_, ?_, ?_, hc.exact, ?_⟩
      all_goals rw [← hlen]
      exacts [hc.rows, hc.returned, hc.total, hc.truncated]
    have hkeys : (docker.items.map Containers.Container.idAlias).Nodup := by
      rwa [plainInventory, List.map_map] at hnodup
    have hrow : ∀ v ∈ docker.items, containerRow v = some (shownContainer v) ↔
        ¬ CutsSecret v.name 128 false ∧ ¬ CutsSecret v.image 240 false := by
      intro v hv
      obtain ⟨hname, himage⟩ := htexts v (hread ▸ hv)
      refine containerRow_of_plain hname himage ?_
      rw [hrows (plainContainer v) (List.mem_map_of_mem hv)]
      rfl
    rw [hread]
    constructor
    · rintro ⟨s', hs'⟩ v hv
      exact (hrow v hv).1 ((projectContainers_spec hs').rows v (hread ▸ hv))
    · intro hall
      have htime : docker.observedAt = some time := htime
      rw [heq, htime]
      exact ⟨_, collectedContainers_iff.2
        ⟨hconsistent, hkeys, fun v hv => (hrow v hv).2 (hall v hv), rfl⟩⟩
  · have hread : readContainers docker = [] := if_neg (by rw [hcollected]; decide)
    refine iff_of_true ⟨_, heq⟩ fun v hv => ?_
    rw [hread] at hv
    cases hv

/-- The section of containers is printed exactly if its inventory is projectable. -/
theorem fitContainers_of_plain {docker : Containers.Inventory F}
    (htexts : ∀ v ∈ readContainers docker, Admissible v.name ∧ Admissible v.image)
    (h : projectContainers (plainInventory docker) = some s) :
    (∃ c, projectContainers docker = some c ∧
      validContainersSection (fitContainers c) true = true) ↔ Projectable docker := by
  constructor
  · rintro ⟨c, hc, hvalid⟩
    exact ⟨(projectContainers_of_plain htexts h).1 ⟨c, hc⟩, (fitContainers_valid hc).1 hvalid⟩
  · rintro ⟨hsecrets, hroom⟩
    obtain ⟨c, hc⟩ := (projectContainers_of_plain htexts h).2 hsecrets
    exact ⟨c, hc, (fitContainers_valid hc).2 hroom⟩

theorem containerSection_of_plain {docker : Containers.Inventory F}
    (htexts : ∀ v ∈ readContainers docker, Admissible v.name ∧ Admissible v.image)
    (h : ∃ s, containerSection (plainInventory docker) = .ok s) :
    (∃ s, containerSection docker = .ok s) ↔ Projectable docker := by
  obtain ⟨s, hs⟩ := h
  obtain ⟨c, hc, -, -⟩ := containerSection_eq_ok.1 hs
  rw [← fitContainers_of_plain htexts hc]
  constructor
  · rintro ⟨s, hs⟩
    obtain ⟨c, hc, -, hvalid⟩ := containerSection_eq_ok.1 hs
    exact ⟨c, hc, hvalid⟩
  · rintro ⟨c, hc, hvalid⟩
    exact ⟨_, containerSection_eq_ok.2 ⟨c, hc, rfl, hvalid⟩⟩

/-- **Texts suppress an upload in two ways only.**  What is displayed passes the check unless the
    cut makes a secret.  A document or a section that could be encoded with plain texts can be
    encoded with any admissible ones exactly if no cut makes a secret in a row that is read and
    kept, and the inventory is not brimful. -/
theorem encode_any_text :
    (∀ text limit basename, limit = 128 ∨ limit = 240 → Admissible text →
      ∃ v, display text limit basename = some v ∧
        (textValid v limit = true ↔ ¬ CutsSecret text limit basename) ∧
        (basename = true → ∀ b ∈ v, b ≠ 47 ∧ b ≠ 92)) ∧
    (∀ (raw : Observation.Snapshot F) (docker : Containers.Inventory F) (id : Identity)
      (consent : Consent),
      (consent.processes = true → ∀ v ∈ readProcesses raw.processes, Admissible v.name) →
      (consent.containers = true → ∀ v ∈ readContainers docker,
        Admissible v.name ∧ Admissible v.image) →
      (∃ b, encode (plainSnapshot raw) (plainInventory docker) id consent = .ok b) →
      ((∃ b, encode raw docker id consent = .ok b) ↔
        (consent.processes = true → ∀ v ∈ readProcesses raw.processes,
          Kept raw.processes (formatRFC3339Nano raw.observedAt) v → ¬ CutsSecret v.name 128 true) ∧
        (consent.containers = true → Projectable docker))) ∧
    ∀ docker : Containers.Inventory F,
      (∀ v ∈ readContainers docker, Admissible v.name ∧ Admissible v.image) →
      (∃ s, containerSection (plainInventory docker) = .ok s) →
      ((∃ s, containerSection docker = .ok s) ↔ Projectable docker) := by
  refine ⟨?_, ?_, fun docker htexts h => containerSection_of_plain htexts h⟩
  · intro text limit basename hlimit htext
    have hdisplay := htext.display limit basename
    refine ⟨_, hdisplay, display_textValid (by omega) hdisplay, ?_⟩
    rintro rfl
    exact display_basename hdisplay
  · rintro raw docker id consent hnames htexts ⟨b, hb⟩
    obtain ⟨henvelope, p, c, hp, hc, -⟩ := encode_eq_ok.1 hb
    have htime : validTime (formatRFC3339Nano raw.observedAt) = true := by
      simp only [validEnvelope, Bool.and_eq_true, decide_eq_true_eq] at henvelope
      exact henvelope.1.1.2
    -- each group is printed, or not, whatever becomes of the other
    have hprocesses : (∃ p', processesOf raw consent.processes = some p' ∧
        (fitProcesses p').cpuBasis = processBasis ∧
        validSection (processRowCodec F) (fitProcesses p') consent.processes maxProcesses = true ∧
        validProcesses (fitProcesses p').items = true) ↔
        (consent.processes = true → ∀ v ∈ readProcesses raw.processes, Kept raw.processes
          (formatRFC3339Nano raw.observedAt) v → ¬ CutsSecret v.name 128 true) := by
      unfold processesOf at hp ⊢
      cases henabled : consent.processes with
      | false => exact iff_of_true ⟨_, rfl, disabledProcesses_valid⟩ nofun
      | true =>
        rw [henabled, if_pos rfl] at hp
        obtain ⟨p', hp'⟩ : ∃ p', projectProcesses raw.processes (formatRFC3339Nano raw.observedAt) =
          some p' := projectProcesses_of_plain (hnames henabled) hp
        obtain ⟨hbasis, hsection, hrows⟩ := fitProcesses_valid hp' htime
        rw [if_pos rfl, hp', ← hrows]
        constructor
        · rintro ⟨x, hx, -, -, hvalid⟩ -
          cases hx
          exact hvalid
        · exact fun hvalid => ⟨p', rfl, hbasis, hsection, hvalid rfl⟩
    have hcontainers : (∃ c', containersOf docker consent.containers = some c' ∧
        validContainersSection (fitContainers c') consent.containers = true) ↔
        (consent.containers = true → Projectable docker) := by
      unfold containersOf at hc ⊢
      cases henabled : consent.containers with
      | false => exact iff_of_true ⟨_, rfl, disabledContainers_valid⟩ nofun
      | true =>
        rw [henabled, if_pos rfl] at hc
        rw [if_pos rfl, fitContainers_of_plain (htexts henabled) hc]
        exact ⟨fun h _ => h, fun h => h rfl⟩
    rw [← hprocesses, ← hcontainers]
    constructor
    · rintro ⟨b, hb⟩
      obtain ⟨-, p', c', hp', hc', hprint⟩ := encode_eq_ok.1 hb
      obtain ⟨hbasis, hsection, hvalid, hrows⟩ :=
        (validDocument_document henvelope).1 (printDocument_eq_ok.1 hprint).1
      exact ⟨⟨p', hp', hbasis, hsection, hrows⟩, c', hc', hvalid⟩
    · rintro ⟨⟨p', hp', hbasis, hsection, hrows⟩, c', hc', hvalid⟩
      exact ⟨_, encode_eq_ok.2 ⟨henvelope, p', c', hp', hc', printDocument_eq_ok.2
        ⟨(validDocument_document henvelope).2 ⟨hbasis, hsection, hvalid, hrows⟩, rfl⟩⟩⟩

end

theorem exists_ok_of_toBool {ε α : Type} {x : Except ε α} (h : x.toBool = true) :
    ∃ a, x = .ok a := by
  cases x with
  | error e => cases h
  | ok a => exact ⟨a, rfl⟩

/-- A container with the given name. -/
def namedContainer (name : Bytes) : Containers.Container ℕ :=
  ⟨ascii "ctr_0123456789abcdef", name, ascii "nginx:1", .running, some 5, some 1000, .available,
    none⟩

def sampleTime : Instant := 63000000000 * 1000000000

/-- An inventory of one container with the given name. -/
def namedInventory (name : Bytes) : Containers.Inventory ℕ :=
  ⟨Containers.schemaVersion, some sampleTime, .supported, .ok, .current, none, 1, 1, false,
    [namedContainer name]⟩

def sampleSnapshot : Observation.Snapshot ℕ :=
  ⟨Observation.schemaVersion, sampleTime, ⟨.available, .other, ⟨1, 1, false, 0⟩,
    some [⟨7, ascii "/usr/sbin/sshd", ascii "S", 3, 2000, 60⟩]⟩⟩

def sampleIdentity : Identity := ⟨ascii "srv_00000000000000000000000000000000", ascii "1.2.3"⟩

/-- A name of 129 bytes that is cut within a word, without making a secret. -/
def overlongName : Bytes := Utf8.encode (List.replicate 42 '器' ++ "aaa".toList)

/-- A text that is shown as a valid one is not cut into a secret. -/
theorem clear_of_valid {text : Bytes} {basename : Bool} (htext : Admissible text)
    (h : (display text 128 basename).all (textValid · 128) = true) :
    ¬ CutsSecret text 128 basename := by
  rw [htext.display, Option.all_some] at h
  exact (display_textValid (by decide) (htext.display 128 basename)).1 h

theorem overlongName_clear : Admissible overlongName ∧ ¬ CutsSecret overlongName 128 false := by
  have hname : Admissible overlongName := ⟨Utf8.valid_iff.2 ⟨_, rfl⟩, by decide +kernel⟩
  exact ⟨hname, clear_of_valid hname (by decide +kernel)⟩

theorem encode_any_text_example :
    ∃ b, encode sampleSnapshot (namedInventory overlongName) sampleIdentity ⟨true, true⟩ =
      .ok b := by
  have hplain : (encode (plainSnapshot sampleSnapshot) (plainInventory (namedInventory []))
      sampleIdentity ⟨true, true⟩).toBool = true := by decide +kernel
  have himage : Admissible (ascii "nginx:1") := ⟨by decide, by decide⟩
  have hprocess : Admissible (ascii "/usr/sbin/sshd") := ⟨by decide, by decide⟩
  refine (encode_any_text.2.1 sampleSnapshot (namedInventory overlongName) sampleIdentity
    ⟨true, true⟩ ?_ ?_ ?_).2 ⟨?_, fun _ => ⟨?_, ?_⟩⟩
  · intro _ v hv
    rw [List.mem_singleton.1 hv]
    exact hprocess
  · intro _ v hv
    rw [List.mem_singleton.1 hv]
    exact ⟨overlongName_clear.1, himage⟩
  · exact exists_ok_of_toBool hplain
  · intro _ v hv _
    rw [List.mem_singleton.1 hv]
    exact clear_of_valid hprocess (by decide +kernel)
  · intro v hv
    rw [List.mem_singleton.1 hv]
    exact ⟨overlongName_clear.2, not_cutsSecret (by decide)⟩
  · rintro ⟨-, -, -, hlacking, -⟩
    rcases hlacking with h | ⟨v, hv, h⟩
    · cases h
    · rw [List.mem_singleton.1 hv] at h
      rcases h with h | h <;> cases h

theorem containerSection_error {F : Type} [Float64 F] {raw : Containers.Inventory F}
    (h : ¬ ∃ s, containerSection raw = .ok s) : containerSection raw = .error .data := by
  cases hc : projectContainers raw with
  | none => rw [containerSection, hc]
  | some c =>
    rw [containerSection, hc]
    exact if_neg fun hvalid => h ⟨_, containerSection_eq_ok.2 ⟨c, hc, rfl, hvalid⟩⟩

/-- A name that is cut within a word suppresses the section: what is left of it looks like an
    access key. -/
theorem cut_name_suppresses : Admissible (Utf8.encode overlongKey) ∧
    (∃ s, containerSection (plainInventory (namedInventory (Utf8.encode overlongKey))) = .ok s) ∧
    containerSection (namedInventory (Utf8.encode overlongKey)) = .error .data := by
  obtain ⟨v, hdisplay, hinvalid⟩ := display_cut_matches false
  have hcut : CutsSecret (Utf8.encode overlongKey) 128 false := by
    by_contra hno
    rw [(display_textValid (by decide) hdisplay).2 hno] at hinvalid
    cases hinvalid
  have hname : Admissible (Utf8.encode overlongKey) :=
    ⟨Utf8.valid_iff.2 ⟨_, rfl⟩, by decide +kernel⟩
  have himage : Admissible (ascii "nginx:1") := ⟨by decide, by decide⟩
  have hplain : ∃ s, containerSection (plainInventory (namedInventory (Utf8.encode overlongKey))) =
      .ok s := by
    -- the plain inventory does not depend on the name
    show ∃ s, containerSection (plainInventory (namedInventory [])) = .ok s
    exact exists_ok_of_toBool (by decide +kernel)
  have hread (name : Bytes) : readContainers (namedInventory name) = [namedContainer name] := rfl
  have htexts : ∀ v ∈ readContainers (namedInventory (Utf8.encode overlongKey)),
      Admissible v.name ∧ Admissible v.image := by
    rw [hread]
    intro v hv
    rw [List.mem_singleton.1 hv]
    exact ⟨hname, himage⟩
  refine ⟨hname, hplain, containerSection_error fun haccepted => ?_⟩
  obtain ⟨hsecrets, -⟩ := (containerSection_of_plain htexts hplain).1 haccepted
  rw [hread] at hsecrets
  exact absurd hcut (hsecrets _ (List.mem_singleton_self _)).1

end Workload

end HomeLab
