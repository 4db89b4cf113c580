/-
  Valid documents.

  A valid document is read back from what it prints to (`unmarshal_document`),
  its text is UTF-8 (`utf8_document`), and it is never too long: the envelope
  takes less than the 1024 bytes that the two sections leave for it
  (`length_document`).
-/
import HomeLab.Lib.JsonText
import HomeLab.Workload.Sections

namespace HomeLab

namespace Workload

open Observation (SupportState)
open Containers (Reason)

theorem unmarshal_marshal {α : Type} {c : Codec α} {a : α} (h : c.Good a) :
    unmarshal c (marshal c a) = some a := by
  rw [unmarshal, marshal, Json.parse_render (c.wellFormed a), Option.bind_some, c.encoded h]

/-! ## Texts -/

variable {v : Bytes} {enabled : Bool}

theorem utf8_of_textValid {limit : ℕ} (h : textValid v limit = true) :
    Utf8.valid v = true := by
  rw [textValid, Bool.and_eq_true] at h
  rw [Utf8.valid]
  cases hv : Utf8.decode v with
  | none => rw [hv] at h; exact absurd h.2 (by decide)
  | some text => rfl

theorem utf8_of_validTime (h : validTime v = true) : Utf8.valid v = true := by
  unfold validTime at h
  cases hread : parseRFC3339 v with
  | none => rw [hread] at h; cases h
  | some t =>
    rw [hread] at h
    simp only [Option.any_some, Bool.and_eq_true, decide_eq_true_eq] at h
    rw [← h.2]
    exact Utf8.valid_of_digit_or_mark fun b hb => mem_formatRFC3339Nano hb

theorem utf8_of_hexTagged {tag : Bytes} {n : ℕ} (htag : ∀ b ∈ tag, b < 128)
    (h : hexTagged tag n v = true) : Utf8.valid v = true := by
  simp only [hexTagged, Bool.and_eq_true, List.isPrefixOf_iff_prefix] at h
  obtain ⟨⟨⟨rest, rfl⟩, -⟩, hhex⟩ := h
  rw [List.drop_left] at hhex
  exact Utf8.valid_tagged_hex htag hhex

theorem utf8_of_versionPattern (h : versionPattern v = true) :
    Utf8.valid v = true := by
  unfold versionPattern at h
  rw [Utf8.valid]
  cases hv : Utf8.decode v with
  | none => rw [hv] at h; cases h
  | some text => rfl

/-! ## Records -/

theorem textual_record {α β : Type} {names : List Bytes} {fs : Fields names β} {row : α → β}
    {mk : fs.Maker α} {hmk : ∀ a, fs.make mk (row a) = a} {hrow : ∀ b, row (fs.make mk b) = b}
    {hn : names.Nodup} {a : α} (hnames : ∀ k ∈ names, Utf8.valid k = true)
    (hvalues : ∀ v ∈ fs.toValues (row a), v.Textual) :
    ((Codec.record fs row mk hmk hrow hn).toJson a).Textual := by
  refine Json.textual_obj.2 fun f hf => ?_
  obtain ⟨hk, hv⟩ := List.of_mem_zip hf
  exact ⟨hnames f.1 hk, hvalues f.2 hv⟩

theorem supportText_valid (state : SupportState) : Utf8.valid (supportText state) = true := by
  cases state <;> decide

theorem reasonText_valid (reason : Reason) : Utf8.valid (reasonText reason) = true := by
  cases reason <;> decide

theorem textual_optionalText {o : Option Bytes} (h : ∀ v, o = some v → Utf8.valid v = true) :
    (optionalText.toJson o).Textual := by
  cases o with
  | none => trivial
  | some v => exact h v rfl

theorem textual_optionalNatural (o : Option ℕ) : (optionalNatural.toJson o).Textual := by
  cases o <;> trivial

theorem textual_optionalReason (o : Option Reason) : (optionalReason.toJson o).Textual := by
  cases o with
  | none => trivial
  | some r => exact reasonText_valid r

theorem textual_quality (v : Quality) : (qualityCodec.toJson v).Textual := by
  refine textual_record (by decide) ?_
  exact List.forall_mem_cons.2 ⟨supportText_valid v.state,
    List.forall_mem_cons.2 ⟨textual_optionalReason v.reason, List.forall_mem_nil _⟩⟩

theorem good_optionalReason {o : Option Reason} (h : o.all (· ∈ documentReasons) = true) :
    optionalReason.Good o := by
  intro r hr
  rw [Option.mem_def.1 hr] at h
  have hmem : r ∈ documentReasons := of_decide_eq_true h
  exact hmem

theorem q_documented (state : SupportState) (reason : Option Reason) :
    (q state reason).state ∈ supportStates ∧
      (q state reason).reason.all (· ∈ documentReasons) = true := by
  cases state with
  | unavailable =>
    cases reason with
    | none => exact ⟨by decide, by decide⟩
    | some r => cases r <;> exact ⟨by decide, by decide⟩
  | _ => exact ⟨by simp [q, supportStates], by simp [q, documentReasons]⟩

theorem good_quality {v : Quality} (h : validQuality v = true) : qualityCodec.Good v := by
  have heq : q v.state v.reason = v := of_decide_eq_true h
  obtain ⟨hstate, hreason⟩ := q_documented v.state v.reason
  rw [heq] at hstate hreason
  exact ⟨hstate, good_optionalReason hreason, trivial⟩

section
variable {α : Type} {item : Codec α}

theorem good_section {s : Section α} {rows : ℕ} (hrows : rows < 2 ^ 64)
    (h : validSection item s enabled rows = true) (hitems : ∀ v ∈ s.items, item.Good v) :
    (sectionCodec item).Good s := by
  obtain ⟨hvalid, hlen, -⟩ := validSection_iff.1 h
  obtain ⟨hquality, hreturned, htotal, -⟩ := validApart_iff.1 hvalid
  refine ⟨good_quality hquality, trivial, fun _ _ => trivial, ?_, ?_, trivial, hitems, trivial⟩
  · show s.returned < 2 ^ 64
    omega
  · intro t ht
    exact lt_of_le_of_lt (htotal t ht).1 (by decide)

theorem textual_section {s : Section α} {rows : ℕ} (h : validSection item s enabled rows = true)
    (hbasis : Utf8.valid s.cpuBasis = true) (hitems : ∀ v ∈ s.items, (item.toJson v).Textual) :
    ((sectionCodec item).toJson s).Textual := by
  obtain ⟨-, -, -, hobserved, -⟩ := validApart_iff.1 (validSection_iff.1 h).1
  refine textual_record (by decide) ?_
  refine List.forall_mem_cons.2 ⟨textual_quality s.quality, List.forall_mem_cons.2 ⟨hbasis,
    List.forall_mem_cons.2 ⟨textual_optionalText fun t ht => utf8_of_validTime (hobserved t ht),
    List.forall_mem_cons.2 ⟨trivial, List.forall_mem_cons.2 ⟨textual_optionalNatural s.total,
    List.forall_mem_cons.2 ⟨trivial, List.forall_mem_cons.2 ⟨?_, List.forall_mem_nil _⟩⟩⟩⟩⟩⟩⟩
  refine Json.textual_arr.2 fun v hv => ?_
  obtain ⟨r, hr, rfl⟩ := List.mem_map.1 hv
  exact hitems r hr

end

theorem good_of_validMetrics {F : Type} {v : ContainerRow F} (h : validMetrics v = true) :
    v.metricsState ∈ metricsStates ∧ v.reason.all (· ∈ documentReasons) = true := by
  unfold validMetrics at h
  split_ifs at h with hrunning
  · simp only [Bool.and_eq_true, decide_eq_true_eq] at h
    rw [h.1.1.1, h.2]
    exact ⟨by decide, by decide⟩
  · cases hm : v.metricsState with
    | available =>
      simp only [hm, Bool.and_eq_true, Option.isNone_iff_eq_none] at h
      rw [h.2]
      exact ⟨by decide, by decide⟩
    | partially =>
      simp only [hm, Bool.and_eq_true, decide_eq_true_eq] at h
      rw [h.2]
      exact ⟨by decide, by decide⟩
    | unavailable =>
      simp only [hm, Bool.and_eq_true] at h
      refine ⟨by decide, ?_⟩
      have hreason := h.2
      cases hr : v.reason with
      | none => rfl
      | some r =>
        rw [hr] at hreason
        revert hreason
        cases r <;> decide
    | notRunning | other => simp [hm] at h

section
variable {F : Type} [Float64 F]

theorem textual_optionalFloat (o : Option F) : ((optionalFloat F).toJson o).Textual := by
  cases o with
  | none => trivial
  | some x =>
    obtain ⟨lit, hlit⟩ := Float64.number x
    show ((Float64.codec (F := F)).toJson x).Textual
    rw [hlit]
    trivial

theorem processStateText_valid (s : ProcessState) : Utf8.valid (processStateText s) = true := by
  cases s <;> decide

theorem good_processRow {v : ProcessRow F} (h : validProcess v = true) :
    (processRowCodec F).Good v ∧ ((processRowCodec F).toJson v).Textual := by
  simp only [validProcess, Bool.and_eq_true, decide_eq_true_eq] at h
  obtain ⟨⟨⟨⟨⟨⟨hpid, hname⟩, -⟩, -⟩, hcpu⟩, hmemory⟩, helapsed⟩ := h
  constructor
  · have hstate (s : ProcessState) : s ∈ processStates := by cases s <;> decide
    refine ⟨hpid.le, trivial, hstate v.state, ?_, ?_, ?_, trivial⟩
    · intro x hx
      have hx : v.cpu = some x := hx
      rw [hx] at hcpu
      exact Float64.good_of_within hcpu
    · intro n hn
      have hn : v.memory = some n := hn
      rw [hn] at hmemory
      exact lt_of_le_of_lt (of_decide_eq_true hmemory) (by decide)
    · intro n hn
      have hn : v.elapsed = some n := hn
      rw [hn] at helapsed
      simp only [Option.all_some, Bool.and_eq_true, decide_eq_true_eq] at helapsed
      exact lt_of_le_of_lt helapsed.2 (by decide)
  · refine textual_record (by decide) ?_
    exact List.forall_mem_cons.2 ⟨trivial, List.forall_mem_cons.2 ⟨utf8_of_textValid hname,
      List.forall_mem_cons.2 ⟨processStateText_valid v.state,
      List.forall_mem_cons.2 ⟨textual_optionalFloat v.cpu,
      List.forall_mem_cons.2 ⟨textual_optionalNatural v.memory,
      List.forall_mem_cons.2 ⟨textual_optionalNatural v.elapsed, List.forall_mem_nil _⟩⟩⟩⟩⟩⟩

theorem containerStateText_valid (s : Containers.State) :
    Utf8.valid (containerStateText s) = true := by
  cases s <;> decide

theorem metricsText_valid (m : Containers.Metrics) : Utf8.valid (metricsText m) = true := by
  cases m <;> decide

theorem good_containerRow {v : ContainerRow F} (h : validContainer v = true) :
    (containerRowCodec F).Good v ∧ ((containerRowCodec F).toJson v).Textual := by
  obtain ⟨halias, hname, himage, hstate, hcpu, hmemory, hmetrics⟩ := validContainer_iff.1 h
  obtain ⟨hmetric, hreason⟩ := good_of_validMetrics hmetrics
  constructor
  · refine ⟨trivial, trivial, trivial, ?_, ?_, ?_, hmetric, good_optionalReason hreason, trivial⟩
    · show v.state ∈ containerStates
      revert hstate
      cases v.state <;> decide
    · exact fun x hx => Float64.good_of_within (hcpu x hx)
    · exact fun n hn => lt_of_le_of_lt (hmemory n hn) (by decide)
  · refine textual_record (by decide) ?_
    exact List.forall_mem_cons.2 ⟨utf8_of_hexTagged (by decide) halias,
      List.forall_mem_cons.2 ⟨utf8_of_textValid hname,
      List.forall_mem_cons.2 ⟨utf8_of_textValid himage,
      List.forall_mem_cons.2 ⟨containerStateText_valid v.state,
      List.forall_mem_cons.2 ⟨textual_optionalFloat v.cpu,
      List.forall_mem_cons.2 ⟨textual_optionalNatural v.memory,
      List.forall_mem_cons.2 ⟨metricsText_valid v.metricsState,
      List.forall_mem_cons.2 ⟨textual_optionalReason v.reason, List.forall_mem_nil _⟩⟩⟩⟩⟩⟩⟩⟩

/-! ## Sections of containers -/

variable {s : Section (ContainerRow F)}

theorem validContainersSection_iff :
    validContainersSection s enabled = true ↔ s.cpuBasis = containerBasis ∧
      validSection (containerRowCodec F) s enabled maxContainers = true ∧
      validContainers (s.quality.state = .degraded) s.items = true := by
  simp only [validContainersSection, Bool.and_eq_true, decide_eq_true_eq, and_assoc]

theorem validContainer_of_mem (h : validContainersSection s enabled = true) :
    ∀ v ∈ s.items, validContainer v = true := by
  intro v hv
  have := valid_of_checkRows (validContainersSection_iff.1 h).2.2 v hv
  rw [Bool.and_eq_true] at this
  exact this.1

theorem good_containers (h : validContainersSection s enabled = true) :
    (sectionCodec (containerRowCodec F)).Good s ∧
      ((sectionCodec (containerRowCodec F)).toJson s).Textual := by
  obtain ⟨hbasis, hvalid, -⟩ := validContainersSection_iff.1 h
  have hrows := validContainer_of_mem h
  refine ⟨good_section (by decide) hvalid fun v hv => (good_containerRow (hrows v hv)).1,
    textual_section hvalid ?_ fun v hv => (good_containerRow (hrows v hv)).2⟩
  rw [hbasis]
  decide

/-! ## Documents -/

/-- What `validDocument` asks. -/
structure ValidDocument (d : Document F) (source : Bytes) : Prop where
  schema : d.schema = schemaVersion
  profile : d.profile = profile
  identity : validIdentity source d.version = true
  source : d.source = source
  time : validTime d.collectedAt = true
  classification : d.policy.classification = ascii "SENSITIVE"
  readOnly : d.policy.readOnly = true
  basis : d.processes.cpuBasis = processBasis
  processes : validSection (processRowCodec F) d.processes d.policy.processes maxProcesses = true
  containers : validContainersSection d.containers d.policy.containers = true
  rows : validProcesses d.processes.items = true

theorem validDocument_iff {d : Document F} {source : Bytes} :
    validDocument d source = true ↔ ValidDocument d source := by
  simp only [validDocument, Bool.and_eq_true, decide_eq_true_eq]
  constructor
  · rintro ⟨⟨⟨⟨⟨⟨⟨⟨⟨⟨h1, h2⟩, h3⟩, h4⟩, h5⟩, h6⟩, h7⟩, h8⟩, h9⟩, h10⟩, h11⟩
    exact ⟨h1, h2, h3, h4, h5, h6, h7, h8, h9, h10, h11⟩
  · rintro ⟨h1, h2, h3, h4, h5, h6, h7, h8, h9, h10, h11⟩
    exact ⟨⟨⟨⟨⟨⟨⟨⟨⟨⟨h1, h2⟩, h3⟩, h4⟩, h5⟩, h6⟩, h7⟩, h8⟩, h9⟩, h10⟩, h11⟩

namespace ValidDocument

variable {d : Document F} {source : Bytes}

theorem good (h : ValidDocument d source) : (documentCodec F).Good d := by
  have hrows := valid_of_checkRows h.rows
  exact ⟨trivial, trivial, trivial, trivial, trivial, ⟨trivial, trivial, trivial, trivial, trivial⟩,
    good_section (by decide) h.processes fun v hv => (good_processRow (hrows v hv)).1,
    (good_containers h.containers).1, trivial⟩

/-- **A valid document is read back from what it prints to.** -/
theorem unmarshal_document (h : ValidDocument d source) :
    unmarshal (documentCodec F) (marshal (documentCodec F) d) = some d := unmarshal_marshal h.good

/-- **A valid document prints to UTF-8.** -/
theorem utf8_document (h : ValidDocument d source) :
    Utf8.valid (marshal (documentCodec F) d) = true := by
  have hrows := valid_of_checkRows h.rows
  have hidentity := h.identity
  simp only [validIdentity, Bool.and_eq_true] at hidentity
  have hpolicy : (policyCodec.toJson d.policy).Textual := by
    refine textual_record (by decide) ?_
    refine List.forall_mem_cons.2 ⟨?_, List.forall_mem_cons.2 ⟨trivial,
      List.forall_mem_cons.2 ⟨trivial, List.forall_mem_cons.2 ⟨trivial, List.forall_mem_nil _⟩⟩⟩⟩
    show Utf8.valid d.policy.classification = true
    rw [h.classification]
    decide
  have hprocesses : ((sectionCodec (processRowCodec F)).toJson d.processes).Textual := by
    refine textual_section h.processes ?_ fun v hv => (good_processRow (hrows v hv)).2
    rw [h.basis]
    decide
  refine Json.valid_render _ ((documentCodec F).wellFormed d) (textual_record (by decide) ?_)
  refine List.forall_mem_cons.2 ⟨?_, List.forall_mem_cons.2 ⟨?_, List.forall_mem_cons.2 ⟨?_,
    List.forall_mem_cons.2 ⟨utf8_of_versionPattern hidentity.2,
    List.forall_mem_cons.2 ⟨utf8_of_validTime h.time, List.forall_mem_cons.2 ⟨hpolicy,
    List.forall_mem_cons.2 ⟨hprocesses, List.forall_mem_cons.2
      ⟨(good_containers h.containers).2, List.forall_mem_nil _⟩⟩⟩⟩⟩⟩⟩⟩
  · show Utf8.valid d.schema = true
    rw [h.schema]
    decide
  · show Utf8.valid d.profile = true
    rw [h.profile]
    decide
  · show Utf8.valid d.source = true
    rw [h.source]
    exact utf8_of_hexTagged (by decide) hidentity.1.1

theorem length_policy (h : ValidDocument d source) :
    (Json.render (policyCodec.toJson d.policy)).length ≤ 107 := by
  have hnames : (["data_classification", "read_only", "processes_enabled",
      "containers_enabled"].map fun k => (Json.renderString (ascii k)).length).sum = 71 := by
    decide
  have hclass : (Json.render (Codec.string.toJson d.policy.classification)).length = 11 := by
    rw [h.classification]
    decide
  have hbool (b : Bool) : (Json.render (Codec.boolean.toJson b)).length ≤ 5 := by
    cases b <;> decide
  have hobj : (Json.render (policyCodec.toJson d.policy)).length = _ :=
    Json.length_render_obj (List.cons_ne_nil _ _) (by rfl)
  have h1 := hbool d.policy.readOnly
  have h2 := hbool d.policy.processes
  have h3 := hbool d.policy.containers
  rw [hobj]
  simp only [Fields.field, Fields.nil, List.map_cons, List.map_nil, List.sum_cons, List.sum_nil,
    List.length_cons, List.length_nil, hclass] at hnames ⊢
  omega

/-- **A valid document is not too long.** -/
theorem length_document (h : ValidDocument d source) :
    (marshal (documentCodec F) d).length ≤ maxBytes := by
  have hnames : (["schema_version", "projection_profile", "source_id", "collector_version",
      "collected_at", "policy", "processes", "containers"].map fun k =>
        (Json.renderString (ascii k)).length).sum = 111 := by decide
  have hidentity := h.identity
  simp only [validIdentity, sourcePattern, hexTagged, Bool.and_eq_true, decide_eq_true_eq,
    List.isPrefixOf_iff_prefix] at hidentity
  obtain ⟨⟨⟨⟨⟨rest, rfl⟩, hrest⟩, -⟩, hversion⟩, -⟩ := hidentity
  have hschema : (Json.render (Codec.string.toJson d.schema)).length = 32 := by
    rw [h.schema]
    decide
  have hprofile : (Json.render (Codec.string.toJson d.profile)).length = 22 := by
    rw [h.profile]
    decide
  have hsource : (Json.render (Codec.string.toJson d.source)).length ≤ 6 * 36 + 2 := by
    refine length_renderString_lt ?_
    rw [List.drop_left] at hrest
    rw [h.source, List.length_append, hrest]
    decide
  have hversion : (Json.render (Codec.string.toJson d.version)).length ≤ 6 * 40 + 2 :=
    length_renderString_lt hversion
  have htime : (Json.render (Codec.string.toJson d.collectedAt)).length ≤ 6 * 30 + 2 :=
    length_renderString_lt (length_of_validTime h.time)
  have hpolicy := h.length_policy
  have hprocesses : d.processes.size (processRowCodec F) ≤ maxSectionBytes :=
    (validSection_iff.1 h.processes).2.2
  have hcontainers : d.containers.size (containerRowCodec F) ≤ maxSectionBytes :=
    (validSection_iff.1 (validContainersSection_iff.1 h.containers).2.1).2.2
  have hobj : (marshal (documentCodec F) d).length = _ :=
    Json.length_render_obj (List.cons_ne_nil _ _) (by rfl)
  have hsection : maxSectionBytes = 130560 := rfl
  have hmax : maxBytes = 262144 := rfl
  rw [Section.size, marshal] at hprocesses hcontainers
  rw [hobj]
  simp only [Fields.field, Fields.nil, List.map_cons, List.map_nil, List.sum_cons, List.sum_nil,
    List.length_cons, List.length_nil, hschema, hprofile] at hnames ⊢
  omega

end ValidDocument

end

end Workload

end HomeLab
