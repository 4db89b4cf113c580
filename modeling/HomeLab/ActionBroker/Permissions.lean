/-
  What an accepted policy permits.

  The maps of `validatePolicy` leave no room for a second reading of a policy:
  revisions and semantic tuples are distinct, a target stands for one container,
  and among the current mappings a pair of target and operation occurs once and
  an alias or a container names one target (`PolicyDocument.Accepted`).  Hence the
  advertised entries are valid, a receipt names at most one mapping, and what is
  advertised is what resolves.
-/
import HomeLab.Lib.Keyed
import HomeLab.ActionBroker.Policy
import HomeLab.ActionWorker.Approval

namespace HomeLab

namespace ActionBroker

open ActionCore (Operation Key Binding Request newJournalKey)
open ActionProtocol

/-! ## Accepted policies -/

/-- The number of the revision of a mapping. -/
def MappingDocument.number (m : MappingDocument) : ℕ := numeral m.mappingRevision

/-- What holds of two mappings of a policy. -/
structure MappingDocument.Apart (a b : MappingDocument) : Prop where
  number : a.number < b.number
  semantic : semantic a ≠ semantic b
  target : a.targetId = b.targetId → a.physical = b.physical

variable {s : Bytes} {m a b : MappingDocument} {mappings : List MappingDocument}
  {r : RequestReceipt}

theorem localRevision_numeral {n : ℕ} (h : localRevision s = some n) :
    n = numeral s := by
  unfold localRevision at h
  split_ifs at h
  exact (Option.some.inj h).symm

theorem localHex_length {n : ℕ} (h : localHex s n = true) : s.length = n := by
  simp only [localHex, Bool.and_eq_true, decide_eq_true_eq] at h
  exact h.1

theorem localID_length {pre : Bytes} (h : localID s pre = true) :
    s.length = pre.length + 32 := by
  simp only [localID, Bool.and_eq_true, decide_eq_true_eq] at h
  exact h.1.1

theorem key_inj {a b : Entry} (h : a.targetId.length = b.targetId.length) (hk : a.key = b.key) :
    a.targetId = b.targetId ∧ a.operation = b.operation := by
  obtain ⟨h1, h2⟩ := List.append_inj hk h
  refine ⟨h1, ?_⟩
  have htext := congrArg Operation.ofText (List.cons.inj h2).2
  simpa using htext

theorem revision_of_localRevision (h : (localRevision s).isSome = true) :
    revision s = true := by
  unfold localRevision at h
  split_ifs at h with hs
  · simp only [Bool.and_eq_true] at hs
    simp only [revision, Bool.and_eq_true]
    exact hs.1
  · cases h

theorem displayAlias_form [Sha256] (container : Bytes) :
    (displayAlias container).length = 20 ∧
      (ascii "ctr_").isPrefixOf (displayAlias container) = true ∧
      hexValue ((displayAlias container).drop 4) 16 = true := by
  obtain ⟨hlen, hall⟩ := hexText_form ((Sha256.sum256 container).toList.take 8)
  have h8 : ((Sha256.sum256 container).toList.take 8).length = 8 := by simp
  have h4 : (ascii "ctr_").length = 4 := by decide
  have hdrop : (displayAlias container).drop 4 =
      hexText ((Sha256.sum256 container).toList.take 8) := by
    rw [displayAlias, ← h4, List.drop_left]
  refine ⟨?_, ?_, ?_⟩
  · rw [displayAlias, List.length_append, h4, hlen, h8]
  · rw [displayAlias, List.isPrefixOf_iff_prefix]
    exact List.prefix_append _ _
  · rw [hdrop, hexValue, hlen, h8, hall]
    rfl

theorem PolicyDocument.mem_of_current {p : PolicyDocument} (hm : m ∈ p.currentMappings) :
    m ∈ p.mappings := List.mem_of_mem_filter hm

theorem revision_ne_zero (h : (localRevision s).isSome = true) :
    (numeral s).toUInt64 ≠ 0 := by
  unfold localRevision at h
  split_ifs at h with hs
  · simp only [Bool.and_eq_true, decide_eq_true_eq] at hs
    obtain ⟨⟨⟨⟨-, hhead⟩, -⟩, hlt⟩, hdec⟩ := hs
    intro hzero
    have hnum : numeral s = 0 := by
      have := congrArg UInt64.toNat hzero
      rw [Nat.toUInt64_eq, UInt64.toNat_ofNat_of_lt' (hlt.trans (by decide))] at this
      simpa using this
    rw [hnum] at hdec
    rw [← hdec] at hhead
    exact absurd hhead (by decide)
  · cases h

theorem mem_of_containsTarget {targets : List Bytes} {target : Bytes}
    (h : containsTarget targets target = true) : target ∈ targets :=
  List.mem_of_find?_eq_some (of_decide_eq_true h)

section
variable [Sha256]

/-- What holds of two current mappings of a policy. -/
structure MappingDocument.CurrentApart (a b : MappingDocument) : Prop where
  pair : a.pair ≠ b.pair
  alias_ : displayAlias a.containerId = displayAlias b.containerId → a.targetId = b.targetId
  physical : a.physical = b.physical → a.targetId = b.targetId

/-- A mapping that belongs to the policy. -/
structure MappingDocument.Of (p : PolicyDocument) (m : MappingDocument) : Prop where
  valid : validMapping m true = true
  server : m.serverId = p.serverId
  owner : m.ownerUserId = p.ownerUserId
  connector : m.connectorInstanceId = p.connectorInstanceId

structure PolicyDocument.Accepted (p : PolicyDocument) : Prop where
  current : p.current.length ≤ 32
  mappings : ∀ m ∈ p.mappings, m.Of p
  apart : p.mappings.Pairwise MappingDocument.Apart
  listed : ∃ listed : List MappingDocument, p.current.map p.byRevision = listed.map some ∧
    listed.Pairwise MappingDocument.CurrentApart

theorem checkMappings_spec {p : PolicyDocument} {head : ℕ} :
    ∀ {seen : List MappingDocument} {previous : ℕ},
      checkMappings p head seen previous mappings = true →
      (∀ m ∈ mappings, m.Of p ∧ previous < m.number) ∧
      (∀ s ∈ seen, ∀ m ∈ mappings, semantic s ≠ semantic m ∧
        (s.targetId = m.targetId → s.physical = m.physical)) ∧
      mappings.Pairwise MappingDocument.Apart := by
  induction mappings with
  | nil => exact fun _ => ⟨by simp, by simp, .nil⟩
  | cons m mappings ih =>
    intro seen previous h
    rw [checkMappings] at h
    obtain ⟨n, hn, h⟩ := (Option.any_eq_true _ _).1 h
    simp only [Bool.and_eq_true, decide_eq_true_eq, Bool.not_eq_true', List.any_eq_false,
      not_and, not_not] at h
    obtain ⟨⟨⟨⟨⟨⟨⟨⟨hlt, -⟩, hvalid⟩, hser⟩, ho⟩, hc⟩, hsem⟩, htarget⟩, hrest⟩ := h
    obtain ⟨hall, hseen, hapart⟩ := ih hrest
    have hnum : m.number = n := (localRevision_numeral hn).symm
    refine ⟨?_, ?_, List.pairwise_cons.2 ⟨fun a ha => ?_, hapart⟩⟩
    · intro a ha
      rcases List.mem_cons.1 ha with rfl | ha
      · exact ⟨⟨hvalid, hser, ho, hc⟩, hnum ▸ hlt⟩
      · exact ⟨(hall a ha).1, hlt.trans (hall a ha).2⟩
    · intro s hs a ha
      rcases List.mem_cons.1 ha with rfl | ha
      · exact ⟨hsem s hs, htarget s hs⟩
      · exact hseen s (List.mem_append_left _ hs) a ha
    · obtain ⟨h1, h2⟩ := hseen m (List.mem_append_right _ (List.mem_singleton_self m)) a ha
      exact ⟨hnum ▸ (hall a ha).2, h1, h2⟩

theorem checkCurrent_spec {p : PolicyDocument} {revisions : List Bytes} :
    ∀ {seen : List MappingDocument} {previous : ℕ},
      checkCurrent p seen previous revisions = true →
      ∃ listed : List MappingDocument, revisions.map p.byRevision = listed.map some ∧
        (∀ s ∈ seen, ∀ m ∈ listed, s.CurrentApart m) ∧
        listed.Pairwise MappingDocument.CurrentApart := by
  induction revisions with
  | nil => exact fun _ => ⟨[], rfl, by simp, .nil⟩
  | cons revision revisions ih =>
    intro seen previous h
    rw [checkCurrent] at h
    obtain ⟨n, -, h⟩ := (Option.any_eq_true _ _).1 h
    obtain ⟨m, hm, h⟩ := (Option.any_eq_true _ _).1 h
    simp only [Bool.and_eq_true, decide_eq_true_eq, Bool.not_eq_true', List.any_eq_false,
      not_and, not_not] at h
    obtain ⟨⟨⟨⟨-, hpair⟩, halias⟩, hphysical⟩, hrest⟩ := h
    obtain ⟨listed, hlisted, hseen, hapart⟩ := ih hrest
    refine ⟨m :: listed, by rw [List.map_cons, hm, hlisted, List.map_cons], ?_,
      List.pairwise_cons.2 ⟨fun a ha => ?_, hapart⟩⟩
    · intro s hs a ha
      rcases List.mem_cons.1 ha with rfl | ha
      · exact ⟨hpair s hs, halias s hs, hphysical s hs⟩
      · exact hseen s (List.mem_append_left _ hs) a ha
    · exact hseen m (List.mem_append_right _ (List.mem_singleton_self m)) a ha

theorem accepted_of_validatePolicy {p : PolicyDocument} (h : validatePolicy p = true) :
    p.Accepted := by
  obtain ⟨head, -, h⟩ := (Option.any_eq_true _ _).1 h
  simp only [Bool.and_eq_true, decide_eq_true_eq] at h
  obtain ⟨⟨⟨⟨⟨-, hlen⟩, -⟩, hmappings⟩, hcurrent⟩, -⟩ := h
  obtain ⟨hall, -, hapart⟩ := checkMappings_spec hmappings
  obtain ⟨listed, hlisted, -, hpairs⟩ := checkCurrent_spec hcurrent
  exact ⟨hlen, fun m hm => (hall m hm).1, hapart, listed, hlisted, hpairs⟩

/-! ## Mappings of an accepted policy -/

/-- The fields of a valid mapping. -/
structure MappingDocument.Fields (m : MappingDocument) : Prop where
  target : localID m.targetId (ascii "hlt_") = true
  generation : localHex m.engineGeneration 32 = true
  container : localHex m.containerId 64 = true
  policy : (localRevision m.policyRevision).isSome = true
  capability : (localRevision m.capabilityRevision).isSome = true
  digest : (parameterDigest m.operation m.parameters).isSome = true

theorem MappingDocument.Of.fields {p : PolicyDocument} (h : m.Of p) :
    m.Fields := by
  have hv := h.valid
  simp only [validMapping, Bool.and_eq_true] at hv
  obtain ⟨⟨⟨⟨⟨⟨⟨⟨-, ht⟩, hg⟩, hc⟩, hp⟩, hcap⟩, -⟩, hd⟩, -⟩ := hv
  exact ⟨ht, hg, hc, hp, hcap, hd⟩

theorem physical_inj (ha : a.Fields) (hb : b.Fields) (h : a.physical = b.physical) :
    a.engineGeneration = b.engineGeneration ∧ a.containerId = b.containerId := by
  have hlen : a.engineGeneration.length = b.engineGeneration.length := by
    rw [localHex_length ha.generation, localHex_length hb.generation]
  obtain ⟨h1, h2⟩ := List.append_inj h hlen
  exact ⟨h1, (List.cons.inj h2).2⟩

namespace PolicyDocument.Accepted

variable {p : PolicyDocument}

theorem eq_of_number (h : p.Accepted) (ha : a ∈ p.mappings) (hb : b ∈ p.mappings)
    (hab : a.number = b.number) : a = b := by
  have hsorted : Keyed.Sorted MappingDocument.number p.mappings := h.apart.imp fun h => h.number
  exact hsorted.eq_of_key ha hb hab

theorem physical_of_target (h : p.Accepted) (ha : a ∈ p.mappings) (hb : b ∈ p.mappings)
    (hab : a.targetId = b.targetId) : a.physical = b.physical := by
  have hsym : p.mappings.Pairwise fun a b => a.targetId = b.targetId → a.physical = b.physical :=
    h.apart.imp fun h => h.target
  exact List.Pairwise.forall_of_forall_of_flip (fun _ _ _ => rfl) hsym
    (hsym.imp fun h hba => (h hba.symm).symm) ha hb hab

/-- The current mappings, in the order of the document, are those listed. -/
theorem currentMappings_perm (h : p.Accepted) :
    ∃ listed, p.currentMappings.Perm listed ∧ listed.length = p.current.length ∧
      listed.Pairwise MappingDocument.CurrentApart := by
  obtain ⟨listed, hlisted, hapart⟩ := h.listed
  have hlength : listed.length = p.current.length := by
    simpa using (congrArg List.length hlisted).symm
  refine ⟨listed, ?_, hlength, hapart⟩
  have hnodup : p.currentMappings.Nodup := by
    refine (h.apart.filter _).imp fun hab heq => ?_
    rw [heq] at hab
    exact lt_irrefl _ hab.number
  have hnodup' : listed.Nodup := hapart.imp fun hab heq => hab.pair (by rw [heq])
  have hfind : ∀ {revision : Bytes} {m : MappingDocument}, p.byRevision revision = some m →
      m ∈ p.mappings ∧ m.mappingRevision = revision := by
    intro revision m hm
    exact ⟨List.mem_of_find?_eq_some hm, by simpa using List.find?_some hm⟩
  refine (List.perm_ext_iff_of_nodup hnodup hnodup').2 fun m => ?_
  simp only [currentMappings, List.mem_filter, decide_eq_true_eq]
  constructor
  · rintro ⟨hm, hcur⟩
    have hmem : p.byRevision m.mappingRevision ∈ listed.map some :=
      hlisted ▸ List.mem_map_of_mem hcur
    obtain ⟨a, ha, hsome⟩ := List.mem_map.1 hmem
    obtain ⟨ha', hrev⟩ := hfind hsome.symm
    rw [h.eq_of_number hm ha' (by rw [MappingDocument.number, MappingDocument.number, hrev])]
    exact ha
  · intro hm
    have hmem : some m ∈ p.current.map p.byRevision := hlisted ▸ List.mem_map_of_mem hm
    obtain ⟨revision, hcur, hsome⟩ := List.mem_map.1 hmem
    obtain ⟨hm', hrev⟩ := hfind hsome
    exact ⟨hm', hrev ▸ hcur⟩

theorem length_currentMappings (h : p.Accepted) : p.currentMappings.length ≤ 32 := by
  obtain ⟨listed, hperm, hlen, -⟩ := h.currentMappings_perm
  rw [hperm.length_eq, hlen]
  exact h.current

theorem currentApart (h : p.Accepted) :
    p.currentMappings.Pairwise MappingDocument.CurrentApart := by
  obtain ⟨listed, hperm, -, hapart⟩ := h.currentMappings_perm
  refine hperm.symm.pairwise hapart fun hab => ⟨hab.pair.symm, ?_, ?_⟩
  · exact fun heq => (hab.alias_ heq.symm).symm
  · exact fun heq => (hab.physical heq.symm).symm

theorem target_of_alias (h : p.Accepted) (ha : a ∈ p.currentMappings) (hb : b ∈ p.currentMappings)
    (hab : displayAlias a.containerId = displayAlias b.containerId) : a.targetId = b.targetId := by
  have hpair := h.currentApart
  exact List.Pairwise.forall_of_forall_of_flip (R := fun a b : MappingDocument =>
    displayAlias a.containerId = displayAlias b.containerId → a.targetId = b.targetId)
    (fun _ _ _ => rfl) (hpair.imp fun h => h.alias_)
    (hpair.imp fun h hba => (h.alias_ hba.symm).symm) ha hb hab

theorem container_of_target (h : p.Accepted) (ha : a ∈ p.mappings) (hb : b ∈ p.mappings)
    (hab : a.targetId = b.targetId) :
    a.engineGeneration = b.engineGeneration ∧ a.containerId = b.containerId :=
  physical_inj (h.mappings a ha).fields (h.mappings b hb).fields (h.physical_of_target ha hb hab)

end PolicyDocument.Accepted

/-! ## Advertised entries -/

/-- The entry of a mapping whose parameters can be digested. -/
def MappingDocument.advertised (m : MappingDocument) : Entry :=
  m.entry ((parameterDigest m.operation m.parameters).getD [])

theorem entriesOf_eq (h : ∀ m ∈ mappings, (parameterDigest m.operation m.parameters).isSome = true) :
    entriesOf mappings = some (mappings.map MappingDocument.advertised) := by
  induction mappings with
  | nil => rfl
  | cons m mappings ih =>
    obtain ⟨hash, hhash⟩ := Option.isSome_iff_exists.1 (h m (List.mem_cons_self ..))
    rw [entriesOf, hhash, ih fun a ha => h a (List.mem_cons_of_mem _ ha)]
    simp [MappingDocument.advertised, hhash]

theorem MappingDocument.Fields.validEntry (h : m.Fields) :
    validEntry m.advertised = true := by
  obtain ⟨hash, hhash⟩ := Option.isSome_iff_exists.1 h.digest
  have htarget : identifier m.targetId (ascii "hlt_") = true := by
    rw [identifier_eq]
    exact h.target
  have halias := displayAlias_form m.containerId
  simp only [ActionProtocol.validEntry, MappingDocument.advertised, MappingDocument.entry, hhash,
    Option.getD_some, Bool.and_eq_true, decide_eq_true_eq]
  exact ⟨⟨⟨⟨⟨⟨trivial, htarget⟩, halias.1⟩, halias.2.1⟩, halias.2.2⟩,
    revision_of_localRevision h.policy⟩, revision_of_localRevision h.capability⟩

theorem policyEntries_eq {p : PolicyDocument} (h : validatePolicy p = true) :
    ∃ entries, policyEntries p = some (entries, entriesDigest entries) ∧
      entries.Perm (p.currentMappings.map MappingDocument.advertised) := by
  have hacc := accepted_of_validatePolicy h
  have hfields : ∀ m ∈ p.currentMappings, m.Fields :=
    fun m hm => (hacc.mappings m (PolicyDocument.mem_of_current hm)).fields
  have htotal : Std.Total fun a b : Entry => a.key ≤ b.key := ⟨fun a b => le_total a.key b.key⟩
  have htrans : IsTrans Entry fun a b => a.key ≤ b.key := ⟨fun a b c => le_trans⟩
  have hperm := List.perm_insertionSort (fun a b : Entry => a.key ≤ b.key)
    (p.currentMappings.map MappingDocument.advertised)
  have hsorted := List.pairwise_insertionSort (fun a b : Entry => a.key ≤ b.key)
    (p.currentMappings.map MappingDocument.advertised)
  -- each pair of target and operation occurs once, so the order is strict
  have hkeys : (p.currentMappings.map MappingDocument.advertised).Pairwise
      fun a b => a.key ≠ b.key := by
    refine List.pairwise_map.2 (hacc.currentApart.imp_of_mem fun {a b} ha hb hab hk => ?_)
    have hlen : a.advertised.targetId.length = b.advertised.targetId.length :=
      (localID_length (hfields a ha).target).trans (localID_length (hfields b hb).target).symm
    obtain ⟨htarget, hop⟩ := key_inj hlen hk
    have htarget' : a.targetId = b.targetId := htarget
    have hop' : a.operation = b.operation := hop
    exact hab.pair (by rw [MappingDocument.pair, MappingDocument.pair, htarget', hop'])
  have hvalid : validateEntries
      ((p.currentMappings.map MappingDocument.advertised).insertionSort
        fun a b => a.key ≤ b.key) = true := by
    refine validateEntries_of ?_ ?_ ?_ ?_
    · rw [hperm.length_eq, List.length_map]
      exact hacc.length_currentMappings
    · intro e he
      obtain ⟨m, hm, rfl⟩ := List.mem_map.1 (hperm.subset he)
      exact (hfields m hm).validEntry
    · refine hsorted.imp₂ (fun a b hle hne => lt_of_le_of_ne hle hne) ?_
      exact hperm.symm.pairwise hkeys fun h => h.symm
    · intro a ha b hb
      obtain ⟨m, hm, rfl⟩ := List.mem_map.1 (hperm.subset ha)
      obtain ⟨n, hn, rfl⟩ := List.mem_map.1 (hperm.subset hb)
      refine ⟨fun halias => hacc.target_of_alias hm hn halias, fun htarget => ?_⟩
      have hc := (hacc.container_of_target (PolicyDocument.mem_of_current hm)
        (PolicyDocument.mem_of_current hn) htarget).2
      exact congrArg displayAlias hc
  refine ⟨_, ?_, hperm⟩
  rw [policyEntries, if_neg (by simp [h]), entriesOf_eq fun m hm => (hfields m hm).digest]
  dsimp only
  rw [if_neg (by simp [hvalid])]

end

/-! ## One mapping for a receipt -/

theorem selectMapping_some (p : PolicyDocument) (r : RequestReceipt) (current : Bool)
    (s : MappingDocument) (mappings : List MappingDocument) :
    selectMapping p r current (some s) mappings =
      if mappings.filter (MappingDocument.isNamedBy p r current) = [] then .one s
      else .ambiguous := by
  induction mappings with
  | nil => rfl
  | cons m mappings ih =>
    rw [selectMapping]
    by_cases hm : m.isNamedBy p r current = true
    · rw [if_pos hm, List.filter_cons_of_pos hm, if_neg (List.cons_ne_nil _ _)]
    · rw [if_neg hm, List.filter_cons_of_neg hm, ih]

theorem selectMapping_none {p : PolicyDocument} {current : Bool}
    (h : (mappings.filter (MappingDocument.isNamedBy p r current)).length ≤ 1) :
    selectMapping p r current none mappings =
      match mappings.find? (MappingDocument.isNamedBy p r current) with
      | some m => .one m
      | none => .none := by
  induction mappings with
  | nil => rfl
  | cons m mappings ih =>
    rw [selectMapping]
    by_cases hm : m.isNamedBy p r current = true
    · rw [List.filter_cons_of_pos hm, List.length_cons] at h
      have hnil : mappings.filter (MappingDocument.isNamedBy p r current) = [] :=
        List.length_eq_zero_iff.1 (by omega)
      rw [if_pos hm, selectMapping_some, if_pos hnil, List.find?_cons_of_pos hm]
    · rw [List.filter_cons_of_neg hm] at h
      rw [if_neg hm, ih h, List.find?_cons_of_neg hm]

theorem semantic_eq (h : { a with mappingRevision := [] } = { b with mappingRevision := [] }) :
    semantic a = semantic b := by
  rw [semantic, h, semantic]

section
variable [Sha256]

/-- No two mappings of an accepted policy answer to one receipt. -/
theorem PolicyDocument.Accepted.named_le_one {p : PolicyDocument} (h : p.Accepted)
    (r : RequestReceipt) (current : Bool) :
    (p.mappings.filter (MappingDocument.isNamedBy p r current)).length ≤ 1 := by
  by_contra hlen
  have hsub : (p.mappings.filter (MappingDocument.isNamedBy p r current)).Sublist p.mappings :=
    List.filter_sublist
  cases hf : p.mappings.filter (MappingDocument.isNamedBy p r current) with
  | nil => rw [hf] at hlen; simp at hlen
  | cons a rest =>
    cases rest with
    | nil => rw [hf] at hlen; simp at hlen
    | cons b rest =>
      have hapart : a.Apart b := by
        have := h.apart.sublist hsub
        rw [hf] at this
        exact (List.pairwise_cons.1 this).1 b (List.mem_cons_self ..)
      have hmem : ∀ m, m = a ∨ m = b →
          m ∈ p.mappings ∧ m.isNamedBy p r current = true := by
        intro m hm
        have : m ∈ p.mappings.filter (MappingDocument.isNamedBy p r current) := by
          rw [hf]
          rcases hm with rfl | rfl <;> simp
        exact List.mem_filter.1 this
      obtain ⟨ha, hra⟩ := hmem a (Or.inl rfl)
      obtain ⟨hb, hrb⟩ := hmem b (Or.inr rfl)
      simp only [MappingDocument.isNamedBy, Bool.and_eq_true, decide_eq_true_eq] at hra hrb
      obtain ⟨⟨⟨⟨⟨t1, o1⟩, p1⟩, c1⟩, q1⟩, -⟩ := hra
      obtain ⟨⟨⟨⟨⟨t2, o2⟩, p2⟩, c2⟩, q2⟩, -⟩ := hrb
      obtain ⟨g, c⟩ := h.container_of_target ha hb (t1.trans t2.symm)
      have hoa := h.mappings a ha
      have hob := h.mappings b hb
      refine hapart.semantic (semantic_eq ?_)
      rw [MappingDocument.mk.injEq]
      exact ⟨hoa.server.trans hob.server.symm, hoa.owner.trans hob.owner.symm,
        hoa.connector.trans hob.connector.symm, t1.trans t2.symm, g, c, p1.trans p2.symm,
        c1.trans c2.symm, o1.trans o2.symm, q1.trans q2.symm, rfl⟩

/-- The receipt names its mapping, and no second one. -/
theorem PolicyDocument.Accepted.select {p : PolicyDocument} (h : p.Accepted) (r : RequestReceipt)
    (current : Bool) :
    (selectMapping p r current none p.mappings = .none ∧
      ∀ m ∈ p.mappings, m.isNamedBy p r current = false) ∨
    ∃ m ∈ p.mappings, selectMapping p r current none p.mappings = .one m ∧
      m.isNamedBy p r current = true := by
  rw [selectMapping_none (h.named_le_one r current)]
  cases hf : p.mappings.find? (MappingDocument.isNamedBy p r current) with
  | none => exact Or.inl ⟨rfl, by simpa using hf⟩
  | some m => exact Or.inr ⟨m, List.mem_of_find?_eq_some hf, rfl, List.find?_some hf⟩

/-! ## The binding of a valid receipt -/

theorem valid_coreRequest {created expires : Instant} (hr : r.Valid created expires) (hm : m.Fields)
    (hpolicy : m.policyRevision = r.policyRevision)
    (hcapability : m.capabilityRevision = r.capabilityRevision) :
    ActionCore.valid (coreRequest r created expires) (coreBinding r m) created = true := by
  obtain ⟨-, hstart, hother⟩ := grace_of_parameterDigest hr.digest
  have hid : ∀ {s pre : Bytes}, identifier s pre = true → ActionCore.identifier s pre = true := by
    intro s pre h
    rwa [← identifier_eq]
  have hactor : ActionCore.identifier r.actorUserId (ascii "usr_") = true := by
    rw [hr.actor]
    exact hid hr.owner
  have hwindow : created < expires := by
    rw [hr.lifetime]
    exact lt_add_of_pos_right _ (by decide)
  have hlife : expires - created ≤ 5 * minute := by
    rw [hr.lifetime, add_sub_cancel_left]
    decide
  have hzero : created ≠ 0 := (parseHTTPTime_spec hr.requested).2.2.1
  have hp : (numeral r.policyRevision).toUInt64 ≠ 0 := hpolicy ▸ revision_ne_zero hm.policy
  have hcap : (numeral r.capabilityRevision).toUInt64 ≠ 0 :=
    hcapability ▸ revision_ne_zero hm.capability
  simp only [ActionCore.valid, Bool.and_eq_true, decide_eq_true_eq]
  dsimp only [coreRequest, coreBinding]
  refine ⟨⟨⟨⟨⟨⟨⟨⟨⟨⟨⟨⟨⟨⟨⟨⟨⟨⟨⟨⟨⟨⟨⟨⟨⟨⟨hid hr.action, hid hr.server⟩, hid hr.connector⟩, hid hr.owner⟩,
    hactor⟩, hid hr.target⟩, hm.container⟩, hm.generation⟩, hp⟩, hcap⟩, rfl⟩, rfl⟩, rfl⟩, rfl⟩, rfl⟩,
    rfl⟩, hzero⟩, hwindow⟩, hlife⟩, le_refl _⟩, hwindow⟩, by simp⟩, by simp⟩, by simp⟩,
    by simp⟩, ?_⟩, ?_⟩
  · by_cases hop : r.operation = .start
    · simp [hop]
    · obtain ⟨-, h1, h30⟩ := hother hop
      simp [h1, h30]
  · by_cases hop : r.operation = .start
    · simp [hop, hstart hop]
    · obtain ⟨-, h1, h30⟩ := hother hop
      simp [hop, h1, h30]

theorem bindTo_isSome (hr : validateRequest r = true) (hyears : r.inYears) (hm : m.Fields)
    (hpolicy : m.policyRevision = r.policyRevision)
    (hcapability : m.capabilityRevision = r.capabilityRevision) :
    ∃ resolved request, bindTo r m = some resolved ∧ resolved.key.targetId = r.targetId ∧
      newJournalKey request resolved.binding = some resolved.key := by
  obtain ⟨created, expires, hvalid⟩ := validateRequest_spec hr
  obtain ⟨digest, hdigest⟩ := Option.isSome_iff_exists.1 (receiptDigest_isSome hr)
  have hc := hyears r.requestedAt (List.mem_cons_self ..) created hvalid.requested
  have he := hyears r.expiresAt (List.mem_cons_of_mem _ (List.mem_cons_self ..)) expires
    hvalid.expiry
  have h := ActionCore.newJournalKey_of_valid
    (r := coreRequest r created expires) (b := coreBinding r m)
    (valid_coreRequest hvalid hm hpolicy hcapability) (le_trans zero_le_one hc.1) hc.2
    (le_trans zero_le_one he.1) he.2
  obtain ⟨key, hkey, htarget⟩ : ∃ key, newJournalKey (coreRequest r created expires)
      (coreBinding r m) = some key ∧ key.targetId = r.targetId := ⟨_, h, rfl⟩
  refine ⟨⟨key, coreBinding r m, m.mappingRevision, digest⟩, coreRequest r created expires, ?_,
    htarget, hkey⟩
  simp only [bindTo, hvalid.requested, hvalid.expiry, Option.getD_some, hkey, hdigest,
    Option.bind_some, Option.map_some]

/-! ## What is advertised is what resolves -/

/-- An advertised entry that permits a receipt belongs to a current mapping that the receipt
    names; and conversely. -/
theorem permits_iff_named {p : PolicyDocument} (hr : validateRequest r = true) :
    m.mappingRevision ∈ p.current ∧ ActionWorker.permits r m.advertised = true ↔
      m.isNamedBy p r true = true ∧ r.targetKey = displayAlias m.containerId := by
  obtain ⟨created, expires, hvalid⟩ := validateRequest_spec hr
  simp only [ActionWorker.permits, MappingDocument.isNamedBy, Bool.and_eq_true, decide_eq_true_eq,
    Bool.not_true, Bool.false_or]
  dsimp only [MappingDocument.advertised, MappingDocument.entry]
  constructor
  · rintro ⟨hcur, ⟨⟨⟨⟨⟨⟨ht, hk⟩, ho⟩, -⟩, hp⟩, hc⟩, hq⟩⟩
    exact ⟨⟨⟨⟨⟨⟨ht.symm, ho.symm⟩, hp.symm⟩, hc.symm⟩, hq.symm⟩, hcur⟩, hk⟩
  · rintro ⟨⟨⟨⟨⟨⟨ht, ho⟩, hp⟩, hc⟩, hq⟩, hcur⟩, hk⟩
    have hsha : r.parameterSha256 = (parameterDigest m.operation m.parameters).getD [] := by
      rw [ho, hq, hvalid.digest, Option.getD_some]
    exact ⟨hcur, ⟨⟨⟨⟨⟨ht.symm, hk⟩, ho.symm⟩, hsha⟩, hp.symm⟩, hc.symm⟩, hq.symm⟩

theorem resolveReceipt_of_named {p : PolicyDocument} (hp : validatePolicy p = true)
    (hr : validateRequest r = true) (hyears : r.inYears) (hserver : r.serverId = p.serverId)
    (howner : r.ownerUserId = p.ownerUserId)
    (hconnector : r.connectorInstanceId = p.connectorInstanceId) (hm : m ∈ p.mappings)
    (hnamed : m.isNamedBy p r true = true) (hkey : r.targetKey = displayAlias m.containerId) :
    ∃ resolved request, resolveReceipt p r true = some resolved ∧
      resolved.key.targetId = r.targetId ∧
      newJournalKey request resolved.binding = some resolved.key := by
  have hacc := accepted_of_validatePolicy hp
  have hfields : ∀ {a : MappingDocument}, a.isNamedBy p r true = true →
      a.targetId = r.targetId ∧ a.policyRevision = r.policyRevision ∧
        a.capabilityRevision = r.capabilityRevision := by
    intro a ha
    simp only [MappingDocument.isNamedBy, Bool.and_eq_true, decide_eq_true_eq] at ha
    exact ⟨ha.1.1.1.1.1, ha.1.1.1.2, ha.1.1.2⟩
  have hguard : ¬ (!validatePolicy p || !validateRequest r || decide (r.serverId ≠ p.serverId) ||
      decide (r.ownerUserId ≠ p.ownerUserId) ||
      decide (r.connectorInstanceId ≠ p.connectorInstanceId)) = true := by
    simp [hp, hr, hserver, howner, hconnector]
  rcases hacc.select r true with ⟨-, hnone⟩ | ⟨a, ha, hselect, hnameda⟩
  · rw [hnone m hm] at hnamed
    cases hnamed
  · obtain ⟨htarget, hpolicy, hcapability⟩ := hfields hnameda
    have hcontainer : a.containerId = m.containerId :=
      (hacc.container_of_target ha hm (htarget.trans (hfields hnamed).1.symm)).2
    obtain ⟨resolved, request, hbind, hrest⟩ :=
      bindTo_isSome hr hyears (hacc.mappings a ha).fields hpolicy hcapability
    refine ⟨resolved, request, ?_, hrest⟩
    unfold resolveReceipt
    rw [if_neg hguard, hselect]
    dsimp only
    rw [if_neg (by rw [hcontainer]; exact not_not.2 hkey), hbind]

theorem named_of_resolveReceipt {p : PolicyDocument} {resolved : ResolvedBinding}
    (h : resolveReceipt p r true = some resolved) :
    r.serverId = p.serverId ∧ r.ownerUserId = p.ownerUserId ∧
      r.connectorInstanceId = p.connectorInstanceId ∧
      ∃ m ∈ p.mappings, m.isNamedBy p r true = true ∧ r.targetKey = displayAlias m.containerId := by
  unfold resolveReceipt at h
  by_cases hguard : (!validatePolicy p || !validateRequest r || decide (r.serverId ≠ p.serverId) ||
      decide (r.ownerUserId ≠ p.ownerUserId) ||
      decide (r.connectorInstanceId ≠ p.connectorInstanceId)) = true
  · rw [if_pos hguard] at h
    cases h
  · rw [if_neg hguard] at h
    simp only [Bool.or_eq_true, Bool.not_eq_true', decide_eq_true_eq, not_or, not_not,
      Bool.not_eq_false] at hguard
    obtain ⟨⟨⟨⟨hp, -⟩, hserver⟩, howner⟩, hconnector⟩ := hguard
    refine ⟨hserver, howner, hconnector, ?_⟩
    rcases (accepted_of_validatePolicy hp).select r true with ⟨hselect, -⟩ | ⟨m, hm, hselect, hn⟩
    · rw [hselect] at h
      cases h
    · rw [hselect] at h
      dsimp only at h
      split_ifs at h with hkey
      exact ⟨m, hm, hn, not_not.1 hkey⟩

/-- The entries of the policy permit a receipt exactly if a current mapping answers it. -/
theorem exists_permits_iff {p : PolicyDocument} {entries : List Entry}
    (hr : validateRequest r = true)
    (hperm : entries.Perm (p.currentMappings.map MappingDocument.advertised)) :
    (∃ e ∈ entries, ActionWorker.permits r e = true) ↔
      ∃ m ∈ p.mappings, m.isNamedBy p r true = true ∧ r.targetKey = displayAlias m.containerId := by
  constructor
  · rintro ⟨e, he, hpermits⟩
    obtain ⟨m, hm, rfl⟩ := List.mem_map.1 (hperm.subset he)
    simp only [PolicyDocument.currentMappings, List.mem_filter, decide_eq_true_eq] at hm
    exact ⟨m, hm.1, (permits_iff_named hr).1 ⟨hm.2, hpermits⟩⟩
  · rintro ⟨m, hm, hnamed⟩
    obtain ⟨hcur, hpermits⟩ := (permits_iff_named hr).2 hnamed
    refine ⟨m.advertised, hperm.symm.subset (List.mem_map_of_mem ?_), hpermits⟩
    simp only [PolicyDocument.currentMappings, List.mem_filter, decide_eq_true_eq]
    exact ⟨hm, hcur⟩

/-- **Policy, entries, approval and resolution name the same permissions.**  An accepted policy
    has entries; a receipt is never ambiguous; it resolves against the current mappings exactly
    if it carries the ids of the policy and an entry agrees with it.  Hence a claim that a worker
    approves, against an approval that it took for some targets, resolves to one of these targets
    and to a key of the journal. -/
theorem permissions_agree (p : PolicyDocument) (hp : validatePolicy p = true) :
    ∃ entries digest, policyEntries p = some (entries, digest) ∧
      (∀ r : RequestReceipt, validateRequest r = true → r.inYears →
        (∀ current, selectMapping p r current none p.mappings ≠ .ambiguous) ∧
        ((resolveReceipt p r true).isSome = true ↔
          r.serverId = p.serverId ∧ r.ownerUserId = p.ownerUserId ∧
            r.connectorInstanceId = p.connectorInstanceId ∧
            ∃ e ∈ entries, r.targetId = e.targetId ∧ r.targetKey = e.targetKey ∧
              r.operation = e.operation ∧ r.parameters = e.parameters ∧
              r.parameterSha256 = e.parameterSha256 ∧ r.policyRevision = e.policyRevision ∧
              r.capabilityRevision = e.capabilityRevision)) ∧
      ∀ (w : ActionWorker.Binding) (targets : List Bytes) (approval : ApprovalSnapshot)
        (claim : Claim), approvalOf p targets = some approval → w.takesApproval approval = true →
        w.claimApproved claim approval = true → claim.request.inYears →
        ∃ resolved request, resolveReceipt p claim.request true = some resolved ∧
          resolved.key.targetId ∈ targets ∧
          newJournalKey request resolved.binding = some resolved.key := by
  have hacc := accepted_of_validatePolicy hp
  obtain ⟨entries, hentries, hperm⟩ := policyEntries_eq hp
  refine ⟨entries, _, hentries, fun r hr hyears => ⟨fun current => ?_, ?_⟩, ?_⟩
  · rcases hacc.select r current with ⟨h, -⟩ | ⟨m, -, h, -⟩ <;> rw [h] <;> simp
  · have hagree : (∃ e ∈ entries, r.targetId = e.targetId ∧ r.targetKey = e.targetKey ∧
        r.operation = e.operation ∧ r.parameters = e.parameters ∧
        r.parameterSha256 = e.parameterSha256 ∧ r.policyRevision = e.policyRevision ∧
        r.capabilityRevision = e.capabilityRevision) ↔
        ∃ e ∈ entries, ActionWorker.permits r e = true := by
      refine exists_congr fun e => and_congr_right fun _ => ?_
      simp only [ActionWorker.permits, Bool.and_eq_true, decide_eq_true_eq]
      tauto
    rw [hagree, exists_permits_iff hr hperm]
    constructor
    · intro h
      obtain ⟨resolved, h⟩ := Option.isSome_iff_exists.1 h
      exact named_of_resolveReceipt h
    · rintro ⟨hserver, howner, hconnector, m, hm, hnamed, hkey⟩
      obtain ⟨resolved, request, h, -⟩ :=
        resolveReceipt_of_named hp hr hyears hserver howner hconnector hm hnamed hkey
      rw [h]
      rfl
  · intro w targets approval claim happroval htakes happroved hyears
    rw [approvalOf, hentries, Option.map_some, Option.some.injEq] at happroval
    subst happroval
    simp only [ActionWorker.Binding.takesApproval, ActionWorker.Binding.bound, Bool.and_eq_true,
      decide_eq_true_eq] at htakes
    obtain ⟨⟨-, ⟨hws, hwo⟩, hwc⟩, -⟩ := htakes
    simp only [ActionWorker.Binding.claimApproved, ActionWorker.Binding.bound, Bool.and_eq_true,
      decide_eq_true_eq, List.any_eq_true, List.mem_filter] at happroved
    obtain ⟨⟨⟨hclaim, ⟨hcs, hco⟩, hcc⟩, -⟩, e, ⟨he, htarget⟩, hpermits⟩ := happroved
    have hr : validateRequest claim.request = true := by
      simp only [validClaim, Bool.and_eq_true] at hclaim
      exact hclaim.1.1.1.1.1
    obtain ⟨m, hm, hnamed, hkey⟩ := (exists_permits_iff hr hperm).1 ⟨e, he, hpermits⟩
    obtain ⟨resolved, request, h, hid, hnew⟩ := resolveReceipt_of_named hp hr hyears
      (hcs.symm.trans hws) (hco.symm.trans hwo) (hcc.symm.trans hwc) hm hnamed hkey
    refine ⟨resolved, request, h, ?_, hnew⟩
    -- the approval was cut down to the targets, and the entry survived
    have hsame : claim.request.targetId = e.targetId := by
      simp only [ActionWorker.permits, Bool.and_eq_true, decide_eq_true_eq] at hpermits
      exact hpermits.1.1.1.1.1.1
    rw [hid, hsame]
    exact mem_of_containsTarget htarget

end

def sampleMapping (revision capability : String) (operation : Operation) (grace : Grace) :
    MappingDocument where
  serverId := sampleId "srv_"
  ownerUserId := sampleId "usr_"
  connectorInstanceId := sampleId "agent_"
  targetId := sampleId "hlt_"
  engineGeneration := List.replicate 32 97
  containerId := List.replicate 64 97
  policyRevision := ascii "1"
  capabilityRevision := ascii capability
  operation := operation
  parameters := ⟨1, grace⟩
  mappingRevision := ascii revision

/-- A policy with two current mappings of a container and one that was replaced. -/
def samplePolicy : PolicyDocument where
  version := ascii "observer-action-policy/v1"
  serverId := sampleId "srv_"
  ownerUserId := sampleId "usr_"
  connectorInstanceId := sampleId "agent_"
  revision := ascii "3"
  current := [ascii "2", ascii "3"]
  mappings := [sampleMapping "1" "2" .start ⟨0, true⟩, sampleMapping "2" "1" .start ⟨0, true⟩,
    sampleMapping "3" "1" .stop ⟨10, false⟩]

def sampleWorker : ActionWorker.Binding := ⟨sampleId "srv_", sampleId "usr_", sampleId "agent_"⟩

theorem samplePolicy_permits :
    ∃ approval resolved, @approvalOf plainDigest samplePolicy [sampleId "hlt_"] = some approval ∧
      @ActionWorker.Binding.takesApproval plainDigest sampleWorker approval = true ∧
      @ActionWorker.Binding.claimApproved plainDigest sampleWorker sampleClaim approval = true ∧
      @resolveReceipt plainDigest samplePolicy sampleClaim.request true = some resolved ∧
      resolved.key.targetId ∈ [sampleId "hlt_"] := by
  have hsome : (@approvalOf plainDigest samplePolicy [sampleId "hlt_"]).any (fun approval =>
      @ActionWorker.Binding.takesApproval plainDigest sampleWorker approval &&
      @ActionWorker.Binding.claimApproved plainDigest sampleWorker sampleClaim approval) =
      true := by decide +kernel
  obtain ⟨approval, happroval, h⟩ := (Option.any_eq_true _ _).1 hsome
  obtain ⟨htakes, happroved⟩ := Bool.and_eq_true_iff.1 h
  have hyears : sampleClaim.request.inYears := by
    intro text htext t ht
    have hall : [sampleReceipt.requestedAt, sampleReceipt.expiresAt].all (fun text =>
        (parseHTTPTime text).all fun t => 1 ≤ year t && year t ≤ 9999) = true := by decide
    have hyear := (Option.all_eq_true _ _).1 (List.all_eq_true.1 hall text htext) t ht
    simpa using hyear
  obtain ⟨entries, digest, -, -, hresolves⟩ :=
    @permissions_agree plainDigest samplePolicy (by decide +kernel)
  obtain ⟨resolved, request, hresolved, htarget, -⟩ :=
    hresolves sampleWorker _ approval sampleClaim happroval htakes happroved hyears
  exact ⟨approval, resolved, happroval, htakes, happroved, hresolved, htarget⟩

end ActionBroker

end HomeLab
