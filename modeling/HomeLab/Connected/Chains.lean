/-
  Chains of transitions.

  A record that was staged behind another one continues it: it starts from the
  configuration and the resources where the other ended, under the same
  contract and with the same rollback artifact.  Along a chain of records the
  generation counts up by one, nothing changes but what an operation
  authorizes, and the rollback artifact is the one that the last selection
  replaced.
-/
import HomeLab.Connected.Transition

namespace HomeLab

namespace Connected

/-! ## The text determines the record -/

theorem Resources.json_injective : Function.Injective Resources.json := by
  intro a b h
  obtain ⟨a1, a2, a3, a4, a5⟩ := a
  obtain ⟨b1, b2, b3, b4, b5⟩ := b
  simpa [Resources.json] using h

theorem Object.json_injective : Function.Injective Object.json := by
  intro a b h
  obtain ⟨a1, a2⟩ := a
  obtain ⟨b1, b2⟩ := b
  simp only [Object.json, Json.obj.injEq, List.cons.injEq, Prod.mk.injEq, Json.num.injEq, true_and,
    and_true] at h
  obtain rfl := UInt64.toNat_inj.1 (decimal_injective h.1)
  obtain rfl := UInt32.toNat_inj.1 (decimal_injective h.2)
  rfl

theorem Ledger.json_injective : Function.Injective Ledger.json := by
  intro a b h
  obtain ⟨a1, a2, a3, a4⟩ := a
  obtain ⟨b1, b2, b3, b4⟩ := b
  simp only [Ledger.json, Json.obj.injEq, List.cons.injEq, Prod.mk.injEq, Json.str.injEq, true_and,
    and_true] at h
  obtain ⟨rfl, rfl, h3, h4⟩ := h
  obtain rfl := Object.json_injective h3
  obtain rfl := Object.json_injective h4
  rfl

theorem PredecessorFormat.text_injective : Function.Injective PredecessorFormat.text := by
  intro a b h
  revert h
  cases a <;> cases b <;> decide +kernel

theorem TransitionOperation.text_injective : Function.Injective TransitionOperation.text := by
  intro a b h
  revert h
  cases a <;> cases b <;> decide +kernel

theorem Record.json_injective : Function.Injective Record.json := by
  intro a b h
  obtain ⟨a1, a2, a3, a4, a5, a6, a7, a8, a9, a10, a11, a12⟩ := a
  obtain ⟨b1, b2, b3, b4, b5, b6, b7, b8, b9, b10, b11, b12⟩ := b
  simp only [Record.json, Json.obj.injEq, List.cons.injEq, Prod.mk.injEq, Json.str.injEq, true_and,
    and_true] at h
  obtain ⟨rfl, h2, h3, h4, h5, rfl, rfl, rfl, rfl, h10, h11, h12⟩ := h
  obtain rfl := TransitionOperation.text_injective h2
  obtain rfl := Config.json_injective h3
  obtain rfl := Config.json_injective h4
  obtain rfl := PredecessorFormat.text_injective h5
  obtain rfl := Resources.json_injective h10
  obtain rfl := Resources.json_injective h11
  obtain rfl := Ledger.json_injective h12
  rfl

theorem Object.wellFormed_json (o : Object) : o.json.WellFormed :=
  ⟨Json.wellFormed_decimal _, Json.wellFormed_decimal _, trivial⟩

theorem Record.wellFormed_json (r : Record) : r.json.WellFormed := by
  have hresources (q : Resources) : q.json.WellFormed :=
    ⟨trivial, trivial, trivial, trivial, trivial, trivial⟩
  have hledger : r.ledger.json.WellFormed :=
    ⟨trivial, ⟨trivial, r.ledger.physical.directory.wellFormed_json,
      r.ledger.physical.database.wellFormed_json, trivial⟩, trivial⟩
  exact ⟨trivial, trivial, r.previous.wellFormed_json, r.next.wellFormed_json, trivial, trivial,
    trivial, trivial, trivial, hresources _, hresources _, hledger, trivial⟩

variable {r : Record} {rs : List Record}

section
variable [Netip]

/-! ## Valid records -/

/-- What validation establishes of a record. -/
structure Record.Valid (r : Record) : Prop where
  version : r.version = transitionVersion
  previous : r.previous.validate = true
  next : r.next.validate = true
  room : r.previous.policyGeneration ≠ 18446744073709551615
  generation : r.next.policyGeneration = r.previous.policyGeneration + 1
  predecessor : validPredecessor r.predecessorFormat r.predecessorCompletionSha = true
  before : digest r.previousCodeBefore true = true
  after : digest r.previousCodeAfter true = true
  contract : digest r.contractSha256 false = true
  previousResources : r.previousResources.valid = true
  nextResources : r.nextResources.valid = true
  logical : digest r.ledger.logicalSha256 false = true
  physical : r.ledger.physical.valid = true
  selects : r.selects = true
  wanted : r.wanted = r.next

theorem eq_of_getD_encode {a b : Config} (hb : b.validate = true)
    (h : a.encode.getD [] = b.encode.getD []) : a = b := by
  have hbe : b.encode = some b.json.render := Config.encode_eq_some.2 ⟨hb, rfl⟩
  rw [hbe, Option.getD_some] at h
  cases ha : a.encode with
  | none =>
    rw [ha, Option.getD_none] at h
    simp [Config.json, configNames, Json.render] at h
  | some data =>
    rw [ha, Option.getD_some] at h
    exact Config.encode_injective (ha.trans (congrArg some h)) hbe

theorem Record.valid_of_validate [Sha256] (h : r.validate = true) : r.Valid := by
  simp only [Record.validate, Bool.and_eq_true, decide_eq_true_eq] at h
  obtain ⟨⟨⟨⟨⟨⟨⟨⟨⟨⟨⟨⟨⟨⟨⟨⟨⟨⟨⟨h1, h2⟩, h3⟩, h4⟩, h5⟩, h6⟩, -⟩, h8⟩, h9⟩, h10⟩, h11⟩, h12⟩, h13⟩, h14⟩,
    h15⟩, h16⟩, -⟩, -⟩, -⟩, -⟩ := h
  exact ⟨h1, h2, h3, h4, h5, h6, h8, h9, h10, h11, h12, h13, h14, h15, eq_of_getD_encode h3 h16⟩

variable {data : Bytes}

theorem Record.valid_of_encode [Sha256] (h : r.encode = some data) :
    r.Valid ∧ r.json.render = data := by
  rw [Record.encode] at h
  split_ifs at h with hv hlen
  simp only [Bool.not_eq_true', Bool.not_eq_false] at hv
  exact ⟨Record.valid_of_validate hv, Option.some.inj h⟩

theorem Record.encode_injective [Sha256] {a b : Record} (ha : a.encode = some data)
    (hb : b.encode = some data) : a = b := by
  have ha' := (Record.valid_of_encode ha).2
  have hb' := (Record.valid_of_encode hb).2
  exact Record.json_injective
    (Json.render_injective a.wellFormed_json b.wellFormed_json (ha'.trans hb'.symm))

theorem Record.encode_of_decode [Sha256] [Unmarshal Record] (h : Record.decode data = some r) :
    r.encode = some data := by
  rw [Record.decode] at h
  split_ifs at h
  rw [Option.filter_eq_some_iff] at h
  exact of_decide_eq_true h.2

/-! ## One record -/

/-- The configurations agree in everything that no operation changes. -/
def Config.SameInstallation (a b : Config) : Prop :=
  b = { a with
    artifactSha256 := b.artifactSha256, policyGeneration := b.policyGeneration,
    addresses := b.addresses }

/-- What a record does to the configuration, and the artifact that it keeps to roll back to. -/
def Record.Applies (r : Record) : Prop :=
  r.next.policyGeneration.toNat = r.previous.policyGeneration.toNat + 1 ∧
    match r.operation with
    | .refresh =>
      r.next = { r.previous with
        policyGeneration := r.next.policyGeneration, addresses := r.next.addresses } ∧
      r.previousCodeAfter = r.previousCodeBefore
    | .codeSelect =>
      r.next = { r.previous with
        policyGeneration := r.next.policyGeneration, artifactSha256 := r.next.artifactSha256 } ∧
      r.next.artifactSha256 ≠ r.previous.artifactSha256 ∧
      r.previousCodeAfter = r.previous.artifactSha256

theorem Record.Valid.applies (h : r.Valid) : r.Applies := by
  have hgeneration : r.next.policyGeneration.toNat = r.previous.policyGeneration.toNat + 1 := by
    have hroom : r.previous.policyGeneration.toNat ≠ 18446744073709551615 :=
      fun heq => h.room (UInt64.toNat_inj.1 heq)
    have hlt := r.previous.policyGeneration.toNat_lt
    rw [h.generation, UInt64.toNat_add]
    simp only [UInt64.toNat_one]
    omega
  refine ⟨hgeneration, ?_⟩
  have hwanted := h.wanted
  have hselects := h.selects
  rw [Record.wanted] at hwanted
  rw [Record.selects] at hselects
  cases hop : r.operation with
  | refresh =>
    rw [hop] at hwanted hselects
    exact ⟨hwanted.symm, of_decide_eq_true hselects⟩
  | codeSelect =>
    rw [hop] at hwanted hselects
    simp only [Bool.and_eq_true, decide_eq_true_eq] at hselects
    exact ⟨hwanted.symm, hselects.1.1.1, hselects.1.1.2⟩

/-! ## One link -/

/-- What one record takes over from another. -/
structure Record.Continues (r r' : Record) : Prop where
  config : r'.previous = r.next
  resources : r'.previousResources = r.nextResources
  contract : r'.contractSha256 = r.contractSha256
  code : r'.previousCodeBefore = r.previousCodeAfter

theorem Record.continues_spec {r' : Record} (hv : r'.Valid) (h : r'.continues r = true) :
    r.Continues r' := by
  simp only [Record.continues, Bool.and_eq_true, decide_eq_true_eq] at h
  obtain ⟨⟨⟨h1, h2⟩, h3⟩, h4⟩ := h
  exact ⟨(eq_of_getD_encode hv.previous h1).symm, h2.symm, h3.symm, h4.symm⟩

section
variable [Sha256]
variable [Unmarshal Record] [Unmarshal LegacyRefresh] [Unmarshal Preparation]

/-- The second record was staged with the first one as its predecessor. -/
def Record.StagedAfter (r r' : Record) : Prop :=
  r'.predecessorFormat = .transition ∧ ∃ preparation files encoded, r.encode = some encoded ∧
    files .predecessor = some encoded ∧ validateStage preparation files = some r'

/-- A staged record is valid and continues its predecessor. -/
theorem Record.StagedAfter.spec {r' : Record} (h : r.StagedAfter r') :
    r.Valid ∧ r'.Valid ∧ r.Continues r' := by
  obtain ⟨hformat, preparation, files, encoded, hencoded, hfile, hstage⟩ := h
  rw [validateStage] at hstage
  split_ifs at hstage
  rw [Option.bind_eq_some_iff] at hstage
  obtain ⟨proposal, -, hstage⟩ := hstage
  rw [Option.bind_eq_some_iff] at hstage
  obtain ⟨witness, -, hstage⟩ := hstage
  rw [Option.filter_eq_some_iff] at hstage
  obtain ⟨hdecode, hchecks⟩ := hstage
  have hv := (Record.valid_of_encode (Record.encode_of_decode hdecode)).1
  refine ⟨(Record.valid_of_encode hencoded).1, hv, Record.continues_spec hv ?_⟩
  rw [hfile, Bool.and_eq_true] at hchecks
  obtain ⟨-, hchecks⟩ := hchecks
  cases hreceipt : files .predecessorCompletion with
  | none =>
    rw [hreceipt] at hchecks
    cases hchecks
  | some receipt =>
    simp only [hreceipt, Bool.and_eq_true, Record.validPredecessorFiles, hformat] at hchecks
    obtain ⟨-, -, hpredecessor⟩ := hchecks
    rw [Option.any_eq_true] at hpredecessor
    obtain ⟨previous, hprevious, hcontinues⟩ := hpredecessor
    obtain rfl := Record.encode_injective (Record.encode_of_decode hprevious) hencoded
    rw [Bool.and_eq_true] at hcontinues
    exact hcontinues.2

end

end

theorem Record.Applies.sameInstallation (h : r.Applies) :
    r.previous.SameInstallation r.next := by
  have h' := h.2
  rw [Config.SameInstallation]
  cases hop : r.operation with
  | refresh | codeSelect =>
    rw [hop] at h'
    rw [h'.1]

/-! ## Chains -/

theorem Config.SameInstallation.trans {a b c : Config} (hab : a.SameInstallation b)
    (hbc : b.SameInstallation c) : a.SameInstallation c := by
  rw [Config.SameInstallation] at hab hbc ⊢
  rw [hbc, hab]

/-- Along a chain the generations count up, and the installation stays. -/
theorem chain_counts (hchain : (r :: rs).IsChain Record.Continues)
    (happlies : ∀ s ∈ r :: rs, s.Applies) :
    ∀ last ∈ (r :: rs).getLast?,
      last.next.policyGeneration.toNat = r.previous.policyGeneration.toNat + (r :: rs).length ∧
      r.previous.SameInstallation last.next := by
  induction rs generalizing r with
  | nil =>
    intro last hlast
    obtain rfl : r = last := by simpa using hlast
    have h := happlies r (List.mem_singleton_self _)
    exact ⟨h.1, h.sameInstallation⟩
  | cons s rs ih =>
    intro last hlast
    rw [List.getLast?_cons_cons] at hlast
    obtain ⟨hlink, hrest⟩ := List.isChain_cons_cons.1 hchain
    obtain ⟨h1, h2⟩ := ih hrest (fun t ht => happlies t (List.mem_cons_of_mem _ ht)) last hlast
    have h := happlies r (List.mem_cons_self ..)
    refine ⟨?_, ?_⟩
    · rw [h1, hlink.config, h.1]
      simp only [List.length_cons]
      omega
    · rw [hlink.config] at h2
      exact h.sameInstallation.trans h2

theorem chain_contract (hchain : (r :: rs).IsChain Record.Continues) :
    ∀ s ∈ r :: rs, s.contractSha256 = r.contractSha256 := by
  induction rs generalizing r with
  | nil => exact fun s hs => by rw [List.mem_singleton.1 hs]
  | cons s rs ih =>
    obtain ⟨hlink, hrest⟩ := List.isChain_cons_cons.1 hchain
    refine List.forall_mem_cons.2 ⟨rfl, fun t ht => ?_⟩
    exact (ih hrest t ht).trans hlink.contract

/-- Refreshes keep the artifact and the one to roll back to. -/
theorem chain_refreshes (hchain : (r :: rs).IsChain Record.Continues)
    (happlies : ∀ s ∈ r :: rs, s.Applies) (hrefresh : ∀ s ∈ rs, s.operation = .refresh) :
    ∀ last ∈ (r :: rs).getLast?, last.previousCodeAfter = r.previousCodeAfter ∧
      last.next.artifactSha256 = r.next.artifactSha256 := by
  induction rs generalizing r with
  | nil =>
    intro last hlast
    obtain rfl : r = last := by simpa using hlast
    exact ⟨rfl, rfl⟩
  | cons s rs ih =>
    intro last hlast
    rw [List.getLast?_cons_cons] at hlast
    obtain ⟨hlink, hrest⟩ := List.isChain_cons_cons.1 hchain
    obtain ⟨h1, h2⟩ := ih hrest (fun t ht => happlies t (List.mem_cons_of_mem _ ht))
      (fun t ht => hrefresh t (List.mem_cons_of_mem _ ht)) last hlast
    have h := (happlies s (by simp)).2
    rw [hrefresh s (List.mem_cons_self ..)] at h
    obtain ⟨hnext, hcode⟩ := h
    refine ⟨h1.trans (hcode.trans hlink.code), h2.trans ?_⟩
    rw [hnext, hlink.config]

section
variable [Sha256] [Netip] [Unmarshal Record] [Unmarshal LegacyRefresh]
  [Unmarshal Preparation]

theorem chain_valid (hr : r.Valid) (hchain : (r :: rs).IsChain Record.StagedAfter) :
    (∀ s ∈ r :: rs, s.Valid) ∧ (r :: rs).IsChain Record.Continues := by
  induction rs generalizing r with
  | nil => exact ⟨by simpa using hr, List.isChain_singleton _⟩
  | cons s rs ih =>
    obtain ⟨hlink, hrest⟩ := List.isChain_cons_cons.1 hchain
    obtain ⟨-, hs, hcontinues⟩ := hlink.spec
    obtain ⟨hvalid, hchain'⟩ := ih hs hrest
    exact ⟨List.forall_mem_cons.2 ⟨hr, hvalid⟩, List.isChain_cons_cons.2 ⟨hcontinues, hchain'⟩⟩

/-- **Chains of transitions keep their history straight.**  In every chain of records, each staged
    with the text of the one before it as its predecessor: a record counts the generation up by
    one and changes nothing but the addresses or the artifact; it starts from the configuration
    and the resources where its predecessor ended, under the same contract; and after the last
    selection of an artifact the one to roll back to is the artifact that it replaced. -/
theorem chain_keeps_history (r₁ rₙ : Record) (rs : List Record) (hvalid : r₁.validate = true)
    (hchain : (r₁ :: rs).IsChain Record.StagedAfter) (hlast : rₙ ∈ (r₁ :: rs).getLast?) :
    (∀ r ∈ r₁ :: rs, r.Applies ∧ r.contractSha256 = r₁.contractSha256) ∧
    (r₁ :: rs).IsChain Record.Continues ∧
    rₙ.next.policyGeneration.toNat =
      r₁.previous.policyGeneration.toNat + (r₁ :: rs).length ∧
    r₁.previous.SameInstallation rₙ.next ∧
    ∀ before r after, r₁ :: rs = before ++ r :: after → r.operation = .codeSelect →
      (∀ s ∈ after, s.operation = .refresh) →
        rₙ.previousCodeAfter = r.previous.artifactSha256 ∧
        rₙ.previousCodeAfter ≠ rₙ.next.artifactSha256 := by
  obtain ⟨hall, hcontinues⟩ := chain_valid (Record.valid_of_validate hvalid) hchain
  have happlies : ∀ r ∈ r₁ :: rs, r.Applies := fun r hr => (hall r hr).applies
  obtain ⟨hcount, hsame⟩ := chain_counts hcontinues happlies rₙ hlast
  refine ⟨fun r hr => ⟨happlies r hr, chain_contract hcontinues r hr⟩, hcontinues, hcount, hsame, ?_⟩
  intro before r after hsplit hop hrefresh
  rw [hsplit] at hcontinues happlies hlast
  have hsuffix := hcontinues.suffix (List.suffix_append before (r :: after))
  have hmem : ∀ s ∈ r :: after, s.Applies := fun s hs => happlies s (List.mem_append_right _ hs)
  rw [List.getLast?_append_of_ne_nil _ (List.cons_ne_nil _ _)] at hlast
  obtain ⟨hcode, hartifact⟩ := chain_refreshes hsuffix hmem hrefresh rₙ hlast
  have h := (hmem r (List.mem_cons_self ..)).2
  rw [hop] at h
  obtain ⟨-, hne, hafter⟩ := h
  rw [hcode, hartifact, hafter]
  exact ⟨rfl, hne.symm⟩

end

/-! ## An example -/

/-- Two addresses can be read. -/
@[reducible] def twoAddresses : Netip where
  parseAddr := fun raw =>
    if raw = ascii "1.1.1.1" then some (.v4 (ipv4 1 1 1 1))
    else if raw = ascii "9.9.9.9" then some (.v4 (ipv4 9 9 9 9)) else none
  string := fun a => if a = .v4 (ipv4 1 1 1 1) then ascii "1.1.1.1" else ascii "9.9.9.9"

def sampleConfig (artifact : UInt8) (generation : UInt64) (address : String) : Config where
  version := configVersion
  state := ascii "INSTALLED_READY"
  serverId := ascii "srv_" ++ List.replicate 32 97
  connectorId := ascii "agent_" ++ List.replicate 32 97
  collectorUid := 1
  uploaderUid := 2
  uploaderGid := 3
  sharedGid := 4
  artifactSha256 := List.replicate 64 artifact
  policyGeneration := generation
  addresses := [ascii address]

def zeroText : Bytes := List.replicate 64 48

/-- An artifact is selected in the first generation. -/
def sampleSelection : Record where
  version := transitionVersion
  operation := .codeSelect
  previous := sampleConfig 97 1 "1.1.1.1"
  next := sampleConfig 98 2 "1.1.1.1"
  predecessorFormat := .none
  predecessorCompletionSha := []
  previousCodeBefore := []
  previousCodeAfter := List.replicate 64 97
  contractSha256 := zeroText
  previousResources := ⟨zeroText, zeroText, zeroText, zeroText, zeroText⟩
  nextResources := ⟨zeroText, zeroText, zeroText, zeroText, zeroText⟩
  ledger := ⟨zeroText, ⟨List.replicate 32 97, ⟨1, 1⟩, ⟨2, 1⟩⟩⟩

/-- The addresses are refreshed after that. -/
def sampleRefresh : Record :=
  { sampleSelection with
    operation := .refresh, previous := sampleConfig 98 2 "1.1.1.1"
    next := sampleConfig 98 3 "9.9.9.9"
    predecessorFormat := .transition, predecessorCompletionSha := zeroText
    previousCodeBefore := List.replicate 64 97 }

@[reducible] def sampleRecords : Unmarshal Record where
  unmarshal := fun data => [sampleSelection, sampleRefresh].find? fun r => r.json.render = data

@[reducible] def samplePreparations : Unmarshal Preparation where
  unmarshal := fun _ => @prepare plainDigest twoAddresses sampleRefresh

@[reducible] def noLegacy : Unmarshal LegacyRefresh := ⟨fun _ => none⟩

/-- The files with which the refresh was staged. -/
def sampleFiles : StageFile → Option Bytes
  | .proposal => some sampleRefresh.json.render
  | .oldCa | .newCa => some [1]
  | .predecessor => some sampleSelection.json.render
  | .predecessorCompletion => @completion plainDigest twoAddresses sampleRecords sampleSelection.json.render

def samplePreparation : Bytes :=
  ((@prepare plainDigest twoAddresses sampleRefresh).bind
    (@Preparation.encode plainDigest twoAddresses)).getD []

theorem sampleRefresh_staged :
    @validateStage plainDigest twoAddresses sampleRecords noLegacy samplePreparations
      samplePreparation sampleFiles = some sampleRefresh := by
  decide +kernel

theorem sampleSelection_encoded :
    @Record.encode plainDigest twoAddresses sampleSelection = some sampleSelection.json.render := by
  decide +kernel

/-- After the refresh the selected artifact can still be rolled back. -/
theorem sampleRefresh_rolls_back :
    sampleRefresh.previousCodeAfter = (sampleConfig 97 1 "1.1.1.1").artifactSha256 ∧
      sampleRefresh.previousCodeAfter ≠ sampleRefresh.next.artifactSha256 :=
  (@chain_keeps_history plainDigest twoAddresses sampleRecords noLegacy samplePreparations
    sampleSelection sampleRefresh [sampleRefresh] (by decide +kernel)
    (List.isChain_cons_cons.2 ⟨⟨rfl, samplePreparation, sampleFiles, _, sampleSelection_encoded, rfl,
      sampleRefresh_staged⟩, List.isChain_singleton _⟩) rfl).2.2.2.2
    [] sampleSelection [sampleRefresh] rfl rfl
    (fun r hr => by rw [List.mem_singleton.1 hr]; rfl)

end Connected

end HomeLab
