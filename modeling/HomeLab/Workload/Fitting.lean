/-
  Sections that fit.

  `fitSection` returns a section unchanged, or with the largest number of first
  rows that fits once it is marked as shortened (`fitSection_cases`).  A section
  that passes all checks but the limits (`validApart`) is valid afterwards, with
  one exception: marking a section as truncated makes its text one byte shorter,
  so that all the rows of one that is too long by a byte fit after all
  (`AtEdge`), and the mark contradicts its total (`Mismarked`,
  `validSection_fitSection`).
-/
import HomeLab.Workload.Projection

namespace HomeLab

namespace Workload

open Observation (SupportState)
open Containers (Reason)

/-! ## The search for the number of rows -/

/-- Where fewer rows fit if more do, the loop returns the largest number that fits; the lower
    bound is not tested. -/
theorem searchRows_spec {fits : ℕ → Bool} {n low high : ℕ} (hle : low ≤ high)
    (hn : high - low ≤ n) (hdown : ∀ a b, a ≤ b → b ≤ high → fits b = true → fits a = true) :
    low ≤ searchRows fits n low high ∧ searchRows fits n low high ≤ high ∧
      (searchRows fits n low high = low ∨ fits (searchRows fits n low high) = true) ∧
      ∀ m, searchRows fits n low high < m → m ≤ high → fits m = false := by
  induction n generalizing low high with
  | zero =>
    rw [searchRows]
    exact ⟨le_rfl, hle, Or.inl rfl, fun m hlt hm => absurd hm (by omega)⟩
  | succ n ih =>
    rw [searchRows]
    split_ifs with hlt hmid
    · obtain ⟨hlow, hhigh, hfits, hmax⟩ :=
        ih (show (low + high + 1) / 2 ≤ high by omega) (by omega) hdown
      refine ⟨by omega, hhigh, Or.inr ?_, hmax⟩
      rcases hfits with heq | hfits
      · rw [heq]
        exact hmid
      · exact hfits
    · obtain ⟨hlow, hhigh, hfits, hmax⟩ :=
        ih (show low ≤ (low + high + 1) / 2 - 1 by omega) (by omega)
          fun a b hab hb => hdown a b hab (by omega)
      refine ⟨hlow, by omega, hfits, fun m hm hle => ?_⟩
      rcases Nat.lt_or_ge m ((low + high + 1) / 2) with hless | hmore
      · exact hmax m hm (by omega)
      · by_contra htrue
        exact hmid (hdown _ m hmore hle (by simpa using htrue))
    · exact ⟨le_rfl, hle, Or.inl rfl, fun m hm hle => absurd hle (by omega)⟩

/-! ## Lengths -/

section
variable {α : Type} (item : Codec α)

/-- The length of the rows in JSON. -/
def itemsSize (items : List α) : ℕ := (Json.render (.arr (items.map item.toJson))).length

/-- The length of the quality in JSON. -/
def qualitySize (v : Quality) : ℕ := (Json.render (qualityCodec.toJson v)).length

/-- The length of a section: its names and marks, and its values. -/
theorem Section.size_eq (s : Section α) :
    s.size item = 107 + qualitySize s.quality + (Json.renderString s.cpuBasis).length +
      (Json.render (optionalText.toJson s.observedAt)).length + (decimal s.returned).length +
      (Json.render (optionalNatural.toJson s.total)).length + (if s.truncated then 4 else 5) +
      itemsSize item s.items := by
  have hnames : (["quality", "cpu_measurement_basis", "observed_at", "returned_count",
      "total_count", "truncated", "items"].map fun k =>
        (Json.renderString (ascii k)).length).sum = 92 := by decide
  have htruncated : (Json.render (Codec.boolean.toJson s.truncated)).length =
      if s.truncated then 4 else 5 := by
    cases s.truncated <;> rfl
  have hobj : s.size item = _ := Json.length_render_obj (List.cons_ne_nil _ _) (by rfl)
  rw [hobj]
  simp only [Fields.field, Fields.nil, List.map_cons, List.map_nil, List.sum_cons, List.sum_nil,
    List.length_cons, List.length_nil, htruncated] at hnames ⊢
  show _ + (qualitySize s.quality + ((Json.renderString s.cpuBasis).length +
    (_ + ((decimal s.returned).length + (_ + (_ + (itemsSize item s.items + 0))))))) + _ + 1 = _
  omega

theorem qualitySize_available : qualitySize (q .available none) = 40 := by decide

theorem qualitySize_degraded : qualitySize (q .degraded none) = 55 := by decide

/-- Marking a complete section as truncated makes it longer, if it was not degraded before. -/
theorem Section.size_shortened_of_available {s : Section α} (h : s.quality = q .available none) :
    s.size item ≤ s.shortened.size item := by
  rw [Section.size_eq, Section.size_eq, Section.shortened, h, qualitySize_available]
  dsimp only
  rw [qualitySize_degraded, if_pos rfl]
  split_ifs <;> omega

/-- A degraded section becomes one byte shorter, unless it was marked before. -/
theorem Section.size_shortened_of_degraded {s : Section α} (h : s.quality = q .degraded none) :
    s.size item = s.shortened.size item + if s.truncated then 0 else 1 := by
  rw [Section.size_eq, Section.size_eq, Section.shortened, h]
  dsimp only
  rw [if_pos rfl]
  split_ifs <;> omega

/-- The values other than rows of a section take little room. -/
structure Section.Small (s : Section α) : Prop where
  basis : s.cpuBasis.length ≤ 20
  observed : ∀ t ∈ s.observedAt, t.length ≤ 30
  total : ∀ n ∈ s.total, n ≤ maxExactInteger

theorem supportText_length (state : SupportState) : (supportText state).length ≤ 17 := by
  cases state <;> decide

theorem reasonText_length (reason : Reason) : (reasonText reason).length ≤ 25 := by
  cases reason <;> decide

theorem length_renderString_lt {b : Bytes} {n : ℕ} (h : b.length ≤ n) :
    (Json.renderString b).length ≤ 6 * n + 2 :=
  (Json.length_renderString_le b).trans (by omega)

theorem length_optionalText {o : Option Bytes} {n : ℕ} (h : ∀ t ∈ o, t.length ≤ n) :
    (Json.render (optionalText.toJson o)).length ≤ 6 * n + 4 := by
  cases o with
  | none => exact Nat.le_add_left 4 _
  | some t =>
    have := length_renderString_lt (h t rfl)
    show (Json.renderString t).length ≤ _
    omega

theorem length_optionalNatural {o : Option ℕ} (h : ∀ n ∈ o, n ≤ maxExactInteger) :
    (Json.render (optionalNatural.toJson o)).length ≤ 20 := by
  cases o with
  | none => decide
  | some n => exact length_decimal_le ((Nat.lt_succ_of_le (h n rfl)).trans_le (by decide))

theorem qualitySize_le (v : Quality) : qualitySize v ≤ 300 := by
  have hnames : (["state", "reason_code"].map fun k =>
      (Json.renderString (ascii k)).length).sum = 20 := by decide
  have hobj : qualitySize v = _ := Json.length_render_obj (List.cons_ne_nil _ _) (by rfl)
  have hstate : (Json.render (supportCodec.toJson v.state)).length ≤ 6 * 17 + 2 :=
    length_renderString_lt (supportText_length v.state)
  have hreason : (Json.render (optionalReason.toJson v.reason)).length ≤ 6 * 25 + 2 := by
    cases v.reason with
    | none => exact (by decide : 4 ≤ 6 * 25 + 2)
    | some r => exact length_renderString_lt (reasonText_length r)
  rw [hobj]
  simp only [Fields.field, Fields.nil, List.map_cons, List.map_nil, List.sum_cons, List.sum_nil,
    List.length_cons, List.length_nil] at hnames ⊢
  omega

theorem Section.Small.fits {s : Section α} (h : s.Small) (hrows : s.items = [])
    (hreturned : s.returned = 0) : s.size item ≤ maxSectionBytes := by
  have hbasis := length_renderString_lt h.basis
  have hobserved := length_optionalText h.observed
  have htotal := length_optionalNatural h.total
  have hquality := qualitySize_le s.quality
  have hitems : itemsSize item s.items = 2 := by
    rw [hrows]
    rfl
  have hdigits : (decimal s.returned).length = 1 := by
    rw [hreturned]
    rfl
  have hmax : maxSectionBytes = 130560 := rfl
  rw [Section.size_eq, hitems, hdigits]
  split_ifs <;> omega

variable {item}

/-- Rows of one length. -/
theorem itemsSize_uniform {items : List α} {n : ℕ} (hne : items ≠ [])
    (h : ∀ v ∈ items, (Json.render (item.toJson v)).length = n) :
    itemsSize item items = 1 + items.length * (n + 1) := by
  have hmap : ((items.map item.toJson).map fun v => (Json.render v).length + 1) =
      List.replicate items.length (n + 1) := by
    rw [List.map_map, List.eq_replicate_iff]
    refine ⟨List.length_map _, fun b hb => ?_⟩
    obtain ⟨v, hv, rfl⟩ := List.mem_map.1 hb
    exact congrArg (· + 1) (h v hv)
  rw [itemsSize, Json.length_render_arr (by simpa using hne), hmap, List.sum_replicate]
  rfl

theorem itemsSize_take_le (items : List α) (n : ℕ) :
    itemsSize item (items.take n) ≤ itemsSize item items := by
  unfold itemsSize
  by_cases hnil : items = []
  · rw [hnil, List.take_nil]
  by_cases hn : items.take n = []
  · have hwhole : (Json.render (.arr (items.map item.toJson))).length = _ :=
      Json.length_render_arr (by simpa using hnil)
    have hpos : 0 < items.length := List.length_pos_iff.2 hnil
    have hsum : items.length ≤
        ((items.map item.toJson).map fun v => (Json.render v).length + 1).sum := by
      clear hnil hn hpos hwhole
      induction items with
      | nil => exact Nat.zero_le _
      | cons v vs ih =>
        simp only [List.map_cons, List.sum_cons, List.length_cons]
        omega
    rw [hn, hwhole]
    show 2 ≤ _
    omega
  · rw [Json.length_render_arr (by simpa using hn), Json.length_render_arr (by simpa using hnil)]
    have hsub := ((List.take_sublist n items).map item.toJson).map fun v =>
      (Json.render v).length + 1
    have := hsub.sum_le_sum fun _ _ => Nat.zero_le _
    omega

theorem Section.size_rows_le (item : Codec α) {s : Section α} {m n : ℕ} (h : m ≤ n) :
    (s.rows m).size item ≤ (s.rows n).size item := by
  rw [Section.size_eq, Section.size_eq]
  have hdigits := length_decimal_mono h
  have hitems : itemsSize item (s.items.take m) ≤ itemsSize item (s.items.take n) := by
    have hle : itemsSize item ((s.items.take n).take m) ≤ _ := itemsSize_take_le (s.items.take n) m
    rwa [List.take_take, Nat.min_eq_left h] at hle
  exact Nat.add_le_add (Nat.add_le_add_right (Nat.add_le_add_right
    (Nat.add_le_add_left hdigits _) _) _) hitems

/-! ## What fitting does -/

/-- All the rows, counted. -/
def Section.whole (s : Section α) : Section α := { s with returned := s.items.length }

/-- The section with its first rows, as it is printed: marked if rows are missing. -/
def Section.cutTo (s : Section α) (n : ℕ) : Section α :=
  if n < s.items.length then s.shortened.rows n else s.whole

/-- Marked and without rows. -/
theorem Section.Small.base_fits {s : Section α} (h : s.Small) :
    (s.shortened.rows 0).size item ≤ maxSectionBytes :=
  Section.Small.fits item ⟨h.basis, h.observed, h.total⟩ (List.take_zero (l := s.items)) rfl

theorem Section.Small.whole_fits {s : Section α} (h : s.Small) (hrows : s.items = []) :
    s.whole.size item ≤ maxSectionBytes :=
  Section.Small.fits item ⟨h.basis, h.observed, h.total⟩ hrows (congrArg List.length hrows)

variable (item) in
/-- How a section may be fitted: unchanged, with as many rows as fit, or with all of them
    although it was too long. -/
inductive Fitted (s : Section α) (rows : ℕ) : Section α → Prop
  | whole (hrows : s.items.length ≤ rows) (hsize : s.whole.size item ≤ maxSectionBytes) :
      Fitted s rows s.whole
  | part (n : ℕ) (hn : n < s.items.length) (hrows : n ≤ rows)
      (hsize : n = 0 ∨ (s.shortened.rows n).size item ≤ maxSectionBytes)
      (hmax : ∀ m, n < m → m ≤ s.items.length → m ≤ rows →
        maxSectionBytes < (s.shortened.rows m).size item ∧
          maxSectionBytes < (s.cutTo m).size item) :
      Fitted s rows (s.shortened.rows n)
  | edge (hrows : s.items.length ≤ rows) (hlong : maxSectionBytes < s.whole.size item)
      (hsize : s.items.length = 0 ∨
        (s.shortened.rows s.items.length).size item ≤ maxSectionBytes) :
      Fitted s rows (s.shortened.rows s.items.length)

/-- **What fitting does to a section.** -/
theorem fitSection_cases (s : Section α) (rows : ℕ) :
    Fitted item s rows (fitSection item s rows) := by
  have hcut {n : ℕ} (hn : n < s.items.length) : s.cutTo n = s.shortened.rows n := if_pos hn
  have hdown (c : Section α) : ∀ a b, a ≤ b → b ≤ c.items.length →
      decide ((c.shortened.rows b).size item ≤ maxSectionBytes) = true →
      decide ((c.shortened.rows a).size item ≤ maxSectionBytes) = true := fun a b hab _ hb =>
    decide_eq_true ((Section.size_rows_le item hab).trans (of_decide_eq_true hb))
  unfold fitSection
  dsimp only
  by_cases hrows : rows < s.items.length
  · -- rows are dropped in any case, so that the section is marked from the start
    have hcapped : s.capped rows = s.shortened.rows rows := if_pos hrows
    have hlen : (s.capped rows).items.length = rows := by
      rw [hcapped]
      exact List.length_take_of_le hrows.le
    have hshort {n : ℕ} (hn : n ≤ rows) :
        (s.capped rows).shortened.rows n = s.shortened.rows n := by
      rw [hcapped]
      simp only [Section.rows, Section.shortened, List.take_take, Nat.min_eq_left hn]
    split_ifs with hfits
    · rw [hcapped] at hfits ⊢
      exact .part rows hrows le_rfl (Or.inr hfits) fun m hm _ hle => absurd hle (by omega)
    · obtain ⟨-, hle, hsize, hmax⟩ :=
        searchRows_spec (Nat.zero_le _) le_rfl (hdown (s.capped rows))
      generalize searchRows _ (s.capped rows).items.length 0 _ = n at hle hsize hmax ⊢
      rw [hlen] at hle
      rw [hshort hle] at hsize ⊢
      refine .part n (by omega) hle (hsize.imp_right of_decide_eq_true) fun m hm _ hmr => ?_
      have hlong := of_decide_eq_false (hmax m hm (hmr.trans_eq hlen.symm))
      rw [hshort hmr] at hlong
      rw [hcut (by omega)]
      exact ⟨not_le.1 hlong, not_le.1 hlong⟩
  · have hcapped : s.capped rows = s.whole := if_neg hrows
    rw [hcapped]
    split_ifs with hfits
    · exact .whole (not_lt.1 hrows) hfits
    · obtain ⟨-, hle, hsize, hmax⟩ := searchRows_spec (Nat.zero_le _) le_rfl (hdown s.whole)
      generalize searchRows _ s.whole.items.length 0 _ = n at hle hsize hmax ⊢
      have hle' : n ≤ s.items.length := hle
      show Fitted item s rows (s.shortened.rows n)
      rcases hle'.lt_or_eq with hlt | rfl
      · refine .part n hlt (hle'.trans (not_lt.1 hrows)) (hsize.imp_right of_decide_eq_true)
          fun m hm hml _ => ?_
        have hlong : ¬ (s.shortened.rows m).size item ≤ maxSectionBytes :=
          of_decide_eq_false (hmax m hm hml)
        refine ⟨not_le.1 hlong, ?_⟩
        rcases hml.lt_or_eq with hml' | rfl
        · rw [hcut hml']
          exact not_le.1 hlong
        · rw [Section.cutTo, if_neg (Nat.lt_irrefl _)]
          exact not_le.1 hfits
      · exact .edge (not_lt.1 hrows) (not_le.1 hfits) (hsize.imp_right of_decide_eq_true)

/-- Fitting keeps the first rows and the basis; the quality stays or becomes degraded. -/
theorem fitSection_keeps (item : Codec α) (s : Section α) (rows : ℕ) :
    (∃ n, (fitSection item s rows).items = s.items.take n) ∧
      (fitSection item s rows).cpuBasis = s.cpuBasis ∧
      ((fitSection item s rows).quality = s.quality ∨
        (fitSection item s rows).quality = q .degraded none) := by
  have hfitted : Fitted item s rows (fitSection item s rows) := fitSection_cases s rows
  generalize fitSection item s rows = r at hfitted
  cases hfitted with
  | whole _ _ => exact ⟨⟨s.items.length, List.take_length.symm⟩, rfl, Or.inl rfl⟩
  | part n _ _ _ _ => exact ⟨⟨n, rfl⟩, rfl, Or.inr rfl⟩
  | edge _ _ _ => exact ⟨⟨s.items.length, rfl⟩, rfl, Or.inr rfl⟩

/-- A section that is degraded but complete, and too long by one byte. -/
structure AtEdge (item : Codec α) (s : Section α) : Prop where
  degraded : s.quality = q .degraded none
  complete : s.truncated = false
  size : s.whole.size item = maxSectionBytes + 1

/-- A section whose mark will be wrong: it is at the edge, has a total, and no row is one too
    many. -/
def Mismarked (item : Codec α) (s : Section α) (rows : ℕ) : Prop :=
  AtEdge item s ∧ s.total.isSome = true ∧ s.items.length ≤ rows

theorem Section.rows_length (s : Section α) :
    s.shortened.rows s.items.length = s.whole.shortened := by
  simp [Section.rows, Section.shortened, Section.whole]

theorem AtEdge.fits {s : Section α} (h : AtEdge item s) :
    (s.shortened.rows s.items.length).size item = maxSectionBytes := by
  have heq := Section.size_shortened_of_degraded item (s := s.whole) h.degraded
  have hmark : s.whole.truncated = false := h.complete
  rw [← Section.rows_length, h.size, hmark, if_neg (by decide)] at heq
  omega

/-- **At the edge all the rows are kept but marked as truncated.** -/
theorem AtEdge.fitSection {s : Section α} (h : AtEdge item s) {rows : ℕ}
    (hrows : s.items.length ≤ rows) :
    Workload.fitSection item s rows = s.shortened.rows s.items.length := by
  have hfitted : Fitted item s rows (Workload.fitSection item s rows) := fitSection_cases s rows
  have hsize := h.size
  have hfits := h.fits
  generalize Workload.fitSection item s rows = r at hfitted
  cases hfitted with
  | whole _ hshort => omega
  | part n hn _ _ hmax =>
    have := (hmax _ hn le_rfl hrows).1
    omega
  | edge _ _ _ => rfl

/-- All the rows are kept after all only at the edge. -/
theorem atEdge_of_fits {s : Section α}
    (hquality : s.quality = q .available none ∨ s.quality = q .degraded none)
    (hlong : maxSectionBytes < s.whole.size item)
    (hfits : (s.shortened.rows s.items.length).size item ≤ maxSectionBytes) :
    AtEdge item s := by
  rw [Section.rows_length] at hfits
  rcases hquality with h | h
  · have hle := Section.size_shortened_of_available item (s := s.whole) h
    omega
  · have heq := Section.size_shortened_of_degraded item (s := s.whole) h
    split_ifs at heq with htruncated
    · omega
    · exact ⟨h, Bool.eq_false_iff.2 htruncated, by omega⟩

/-! ## The checks apart from the limits -/

/-- The checks of a section apart from its limits. -/
def validApart (s : Section α) (enabled : Bool) : Bool :=
  validQuality s.quality && s.returned = s.items.length &&
    (s.total.all fun t => t ≤ maxExactInteger && s.returned ≤ t) && s.observedAt.all validTime &&
    (enabled || s.quality.state = .disabled) &&
    (s.total.all fun t => decide (s.returned < t) = s.truncated) && validState s

variable {s : Section α} {n rows : ℕ} {enabled : Bool}

theorem validApart_iff :
    validApart s enabled = true ↔
      validQuality s.quality = true ∧ s.returned = s.items.length ∧
        (∀ t, s.total = some t → t ≤ maxExactInteger ∧ s.returned ≤ t) ∧
        (∀ t, s.observedAt = some t → validTime t = true) ∧
        (enabled = true ∨ s.quality.state = .disabled) ∧
        (∀ t, s.total = some t → decide (s.returned < t) = s.truncated) ∧
        validState s = true := by
  simp only [validApart, Bool.and_eq_true, decide_eq_true_eq, Bool.or_eq_true,
    Option.all_eq_true, and_assoc]

/-- The limits are the only other checks. -/
theorem validSection_iff :
    validSection item s enabled rows = true ↔
      validApart s enabled = true ∧ s.items.length ≤ rows ∧ s.size item ≤ maxSectionBytes := by
  simp only [validSection, validApart, Bool.and_eq_true, decide_eq_true_eq]
  tauto

theorem length_of_validTime {t : Bytes} (h : validTime t = true) : t.length ≤ 30 := by
  unfold validTime at h
  cases hread : parseRFC3339 t with
  | none => rw [hread] at h; cases h
  | some u =>
    rw [hread] at h
    simp only [Option.any_some, Bool.and_eq_true, decide_eq_true_eq, ne_eq] at h
    obtain ⟨⟨⟨-, hlow⟩, hhigh⟩, heq⟩ := h
    rw [← heq]
    exact (length_formatRFC3339Nano (by omega) hhigh).2

/-- Without rows a section that is valid apart from its limits fits. -/
theorem small_of_validApart (h : validApart s enabled = true) (hbasis : s.cpuBasis.length ≤ 20) :
    s.Small := by
  obtain ⟨-, -, htotal, hobserved, -⟩ := validApart_iff.1 h
  exact ⟨hbasis, fun t ht => length_of_validTime (hobserved t ht), fun t ht => (htotal t ht).1⟩

theorem whole_of_validApart (h : validApart s enabled = true) : s.whole = s := by
  rw [Section.whole, ← (validApart_iff.1 h).2.1]

/-- A section with rows is enabled, available or degraded, and has a time. -/
theorem observed_of_rows (h : validApart s enabled = true) (hne : s.items ≠ []) :
    enabled = true ∧ (s.quality = q .available none ∨ s.quality = q .degraded none) ∧
      s.observedAt.isSome := by
  obtain ⟨hquality, -, -, -, henabled, -, hstate⟩ := validApart_iff.1 h
  have hempty : s.items.isEmpty = false := by simpa using hne
  simp only [validQuality, decide_eq_true_eq] at hquality
  unfold validState at hstate
  cases hs : s.quality.state <;> simp only [hs, hempty, Bool.and_eq_true, Bool.false_and,
    Bool.false_eq_true] at hstate
  all_goals
    rw [hs] at hquality henabled
    refine ⟨henabled.resolve_right (by decide), ?_⟩
  · exact ⟨Or.inl hquality.symm, hstate.1.1⟩
  · exact ⟨Or.inr hquality.symm, hstate.1⟩

/-- A section with rows stays valid if it is marked, unless its total says that no row is
    missing. -/
theorem validApart_shortened (h : validApart s enabled = true) (hne : s.items ≠ [])
    (hn : n ≤ s.items.length) (hmore : ∀ t, s.total = some t → n < t) :
    validApart (s.shortened.rows n) enabled = true := by
  obtain ⟨-, -, htotal, hobserved, -, -, -⟩ := validApart_iff.1 h
  obtain ⟨henabled, -, htime⟩ := observed_of_rows h hne
  have hquality : validQuality (q .degraded none) = true := by decide
  refine validApart_iff.2 ⟨hquality, (List.length_take_of_le hn).symm,
    fun t ht => ⟨(htotal t ht).1, (hmore t ht).le⟩, hobserved, Or.inl henabled,
    fun t ht => decide_eq_true (hmore t ht), ?_⟩
  have hleft : s.total.any (fun t => decide (t ≤ n)) = false := by
    cases ht : s.total with
    | none => rfl
    | some t => exact decide_eq_false (not_le.2 (hmore t ht))
  show (s.observedAt.isSome && !(true && s.total.any (· ≤ n))) = true
  rw [htime, hleft]
  rfl

theorem validApart_part (h : validApart s enabled = true) (hn : n < s.items.length) :
    validApart (s.shortened.rows n) enabled = true := by
  refine validApart_shortened h (List.ne_nil_of_length_pos (by omega)) hn.le fun t ht => ?_
  obtain ⟨-, hreturned, htotal, -⟩ := validApart_iff.1 h
  have := (htotal t ht).2
  omega

/-- **A section is valid after it was fitted**, unless it is mismarked. -/
theorem validSection_fitSection (h : validApart s enabled = true) (hbasis : s.cpuBasis.length ≤ 20)
    (rows : ℕ) :
    validSection item (fitSection item s rows) enabled rows = true ↔ ¬ Mismarked item s rows := by
  have hsmall := small_of_validApart h hbasis
  have hfitted : Fitted item s rows (fitSection item s rows) := fitSection_cases s rows
  rw [validSection_iff]
  generalize fitSection item s rows = r at hfitted
  cases hfitted with
  | whole hrows hsize =>
    refine iff_of_true ⟨?_, hrows, hsize⟩ fun hedge => ?_
    · rw [whole_of_validApart h]
      exact h
    · have := hedge.1.size
      omega
  | part n hn hrows hsize hmax =>
    refine iff_of_true ⟨validApart_part h hn, ?_, ?_⟩ fun hedge => ?_
    · exact (List.length_take_le _ _).trans hrows
    · rcases hsize with rfl | hsize
      · exact hsmall.base_fits
      · exact hsize
    · have := (hmax _ hn le_rfl hedge.2.2).1
      have := hedge.1.fits
      omega
  | edge hrows hlong hsize =>
    have hne : s.items ≠ [] := fun hnil => absurd (hsmall.whole_fits hnil) (not_le.2 hlong)
    have hfits := hsize.resolve_left (fun h0 => hne (List.length_eq_zero_iff.1 h0))
    have hedge := atEdge_of_fits (observed_of_rows h hne).2.1 hlong hfits
    obtain ⟨-, hreturned, htotal, -, -, hmark, -⟩ := validApart_iff.1 h
    constructor
    · rintro ⟨hvalid, -, -⟩ ⟨-, hsome, -⟩
      obtain ⟨t, ht⟩ := Option.isSome_iff_exists.1 hsome
      obtain ⟨-, -, -, -, -, hmarked, -⟩ := validApart_iff.1 hvalid
      have hmore : s.items.length < t := of_decide_eq_true (hmarked t ht)
      have hsame := (hmark t ht).trans hedge.complete
      rw [hreturned] at hsame
      exact of_decide_eq_false hsame hmore
    · intro hno
      refine ⟨validApart_shortened h hne le_rfl fun t ht => ?_,
        (List.length_take_le _ _).trans hrows, hfits⟩
      exact absurd ⟨hedge, by rw [ht]; rfl, hrows⟩ hno

theorem fitSection_of_nil (hs : s.Small) (hrows : s.items = []) (rows : ℕ) :
    fitSection item s rows = s.whole := by
  have hcapped : s.capped rows = s.whole := if_neg (by rw [hrows]; exact Nat.not_lt_zero _)
  unfold fitSection
  rw [hcapped]
  exact if_pos (hs.whole_fits hrows)

end

end Workload

end HomeLab
