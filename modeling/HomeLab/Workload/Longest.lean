/-
  Fitting keeps the longest prefix.

  `fitSection` keeps the longest prefix of the rows that is allowed and fits in
  the form that it then has (`KeepsLongest`), except in two cases: a section that
  does not fit even without rows, and one that is too long as it is but short
  enough once it is marked (`Fittable`).  The second case makes a section with a
  total invalid, and with it the document (`fitSection_longest`).
-/
import HomeLab.Workload.Encoding

namespace HomeLab

namespace Workload

variable {enabled : Bool}

section
variable {α : Type} (item : Codec α)

/-- The longest prefix that is allowed and fits was kept, counted, and marked if it is shorter
    than the section or was marked before. -/
def KeepsLongest (s : Section α) (rows : ℕ) (r : Section α) : Prop :=
  ∃ n, n ≤ s.items.length ∧ n ≤ rows ∧ r.items = s.items.take n ∧ r.returned = n ∧
    r.size item ≤ maxSectionBytes ∧
    (∀ m, n < m → m ≤ s.items.length → m ≤ rows → maxSectionBytes < (s.cutTo m).size item) ∧
    (r.truncated = true ↔ s.truncated = true ∨ n < s.items.length) ∧
    (r.quality.state = .degraded ↔ s.quality.state = .degraded ∨ n < s.items.length)

/-- The rows that are allowed fit, or else the section does without rows; and if all its rows fit
    only once it is marked, it was marked before. -/
def Fittable (s : Section α) (rows : ℕ) : Prop :=
  (s.cutTo (min rows s.items.length)).size item ≤ maxSectionBytes ∨
    (s.shortened.rows 0).size item ≤ maxSectionBytes ∧ (s.items.length ≤ rows →
      (s.shortened.rows s.items.length).size item ≤ maxSectionBytes →
      s.truncated = true ∧ s.quality.state = .degraded)

variable {item} {s : Section α} {rows : ℕ}

theorem cutTo_length (s : Section α) : s.cutTo s.items.length = s.whole := if_neg (Nat.lt_irrefl _)

/-- What the marks of a section with fewer rows say. -/
theorem keepsLongest_part {n : ℕ} (hn : n < s.items.length) (hrows : n ≤ rows)
    (hmax : ∀ m, n < m → m ≤ s.items.length → m ≤ rows →
      maxSectionBytes < (s.cutTo m).size item) :
    KeepsLongest item s rows (s.shortened.rows n) ↔
      (s.shortened.rows n).size item ≤ maxSectionBytes := by
  constructor
  · rintro ⟨-, -, -, -, -, hsize, -⟩
    exact hsize
  · exact fun hsize => ⟨n, hn.le, hrows, rfl, rfl, hsize, hmax, iff_of_true rfl (Or.inr hn),
      iff_of_true rfl (Or.inr hn)⟩

/-- **Fitting keeps the longest prefix that fits** exactly if the section is fittable. -/
theorem keepsLongest_iff :
    KeepsLongest item s rows (fitSection item s rows) ↔ Fittable item s rows := by
  have hmono {m n : ℕ} (hmn : m ≤ n) := Section.size_rows_le item (s := s.shortened) hmn
  have hfitted : Fitted item s rows (fitSection item s rows) := fitSection_cases s rows
  generalize fitSection item s rows = r at hfitted
  cases hfitted with
  | whole hrows hsize =>
    refine iff_of_true ⟨s.items.length, le_rfl, hrows, List.take_length.symm, rfl, hsize,
      fun m hm hle => absurd hle (by omega), ?_, ?_⟩ (Or.inl ?_)
    · exact ⟨Or.inl, fun h => h.resolve_right (Nat.lt_irrefl _)⟩
    · exact ⟨Or.inl, fun h => h.resolve_right (Nat.lt_irrefl _)⟩
    · rw [Nat.min_eq_right hrows, cutTo_length]
      exact hsize
  | part n hn hrows hsize hmax =>
    rw [keepsLongest_part hn hrows fun m hm hle hmr => (hmax m hm hle hmr).2]
    constructor
    · intro hfits
      refine Or.inr ⟨(hmono (Nat.zero_le n)).trans hfits, fun hall hlong => ?_⟩
      have := (hmax _ hn le_rfl hall).1
      omega
    · rintro (hallowed | ⟨hbase, -⟩)
      · -- only as many rows as are allowed can have been kept
        have hmin : ¬ n < min rows s.items.length := fun hlt => by
          have := (hmax _ hlt (min_le_right _ _) (min_le_left _ _)).2
          omega
        obtain rfl : n = rows := by omega
        rwa [Nat.min_eq_left hn.le, Section.cutTo, if_pos hn] at hallowed
      · rcases hsize with rfl | hsize
        · exact hbase
        · exact hsize
  | edge hrows hlong hsize =>
    have hleft : ¬ (s.cutTo (min rows s.items.length)).size item ≤ maxSectionBytes := by
      rw [Nat.min_eq_right hrows, cutTo_length]
      exact not_le.2 hlong
    constructor
    · rintro ⟨n, hn, -, hitems, hcount, hfits, -, htruncated, hdegraded⟩
      obtain rfl : s.items.length = n := hcount
      refine Or.inr ⟨(hmono (Nat.zero_le _)).trans hfits, fun _ _ => ⟨?_, ?_⟩⟩
      · exact (htruncated.1 rfl).resolve_right (Nat.lt_irrefl _)
      · exact (hdegraded.1 rfl).resolve_right (Nat.lt_irrefl _)
    · rintro (hallowed | ⟨hbase, hmarked⟩)
      · exact absurd hallowed hleft
      · have hfits : (s.shortened.rows s.items.length).size item ≤ maxSectionBytes := by
          rcases hsize with h0 | hsize
          · rw [h0]
            exact hbase
          · exact hsize
        obtain ⟨htruncated, hdegraded⟩ := hmarked hrows hfits
        exact ⟨s.items.length, le_rfl, hrows, rfl, rfl, hfits, fun m hm hle => absurd hle (by omega),
          iff_of_true rfl (Or.inl htruncated), iff_of_true rfl (Or.inl hdegraded)⟩

/-- A section with one of the bases that is valid apart from its limits is fittable unless it is
    at the edge. -/
theorem fittable_iff (h : validApart s enabled = true) (hbasis : s.cpuBasis.length ≤ 20) :
    Fittable item s rows ↔ ¬ (AtEdge item s ∧ s.items.length ≤ rows) := by
  have hsmall := small_of_validApart h hbasis
  constructor
  · rintro hfit ⟨hedge, hrows⟩
    have hsize := hedge.size
    rw [Fittable, Nat.min_eq_right hrows, cutTo_length] at hfit
    rcases hfit with hfit | ⟨-, hmarked⟩
    · omega
    · have htruncated := (hmarked hrows hedge.fits.le).1
      rw [hedge.complete] at htruncated
      cases htruncated
  · intro hno
    by_cases hfit : (s.cutTo (min rows s.items.length)).size item ≤ maxSectionBytes
    · exact Or.inl hfit
    · refine Or.inr ⟨hsmall.base_fits, fun hrows hfits => ?_⟩
      rw [Nat.min_eq_right hrows, cutTo_length, not_le] at hfit
      have hne : s.items ≠ [] := fun hnil => absurd (hsmall.whole_fits hnil) (not_le.2 hfit)
      exact absurd ⟨atEdge_of_fits (observed_of_rows h hne).2.1 hfit hfits, hrows⟩ hno

/-- A fittable section that is valid apart from its limits is valid afterwards. -/
theorem fitSection_valid (hfit : Fittable item s rows) (h : validApart s enabled = true) :
    validSection item (fitSection item s rows) enabled rows = true := by
  obtain ⟨-, -, -, -, -, hsize, -⟩ := keepsLongest_iff.2 hfit
  have hfitted : Fitted item s rows (fitSection item s rows) := fitSection_cases s rows
  rw [validSection_iff]
  generalize fitSection item s rows = r at hfitted hsize
  cases hfitted with
  | whole hrows _ =>
    rw [whole_of_validApart h] at hsize ⊢
    exact ⟨h, hrows, hsize⟩
  | part n hn hrows _ _ =>
    exact ⟨validApart_part h hn, (List.length_take_le _ _).trans hrows, hsize⟩
  | edge hrows hlong _ =>
    -- a section that was marked before does not become shorter
    rcases hfit with hfit | ⟨-, hmarked⟩
    · rw [Nat.min_eq_right hrows, cutTo_length] at hfit
      omega
    · obtain ⟨htruncated, hdegraded⟩ := hmarked hrows hsize
      have hquality : s.quality = q .degraded none := by
        have hq := of_decide_eq_true (validApart_iff.1 h).1
        rw [hdegraded] at hq
        exact hq.symm
      have heq := Section.size_shortened_of_degraded item (s := s.whole) hquality
      rw [show s.whole.truncated = true from htruncated, if_pos rfl, ← Section.rows_length] at heq
      omega

end

/-! ## Documents -/

section
variable {F : Type} [Float64 F]

/-- The section of processes is printed unless it is mismarked. -/
theorem fitProcesses_apart {p : Section (ProcessRow F)}
    (h : validApart { p with cpuBasis := processBasis } enabled = true)
    (hrows : validProcesses p.items = true) :
    ((fitProcesses p).cpuBasis = processBasis ∧
      validSection (processRowCodec F) (fitProcesses p) enabled maxProcesses = true ∧
      validProcesses (fitProcesses p).items = true) ↔
      ¬ Mismarked (processRowCodec F) { p with cpuBasis := processBasis } maxProcesses := by
  obtain ⟨⟨n, hitems⟩, hbasis, -⟩ := fitSection_keeps (processRowCodec F)
    { p with cpuBasis := processBasis } maxProcesses
  rw [← validSection_fitSection h (show processBasis.length ≤ 20 by decide) maxProcesses]
  refine ⟨fun hall => hall.2.1, fun hvalid => ⟨hbasis, hvalid, ?_⟩⟩
  show validProcesses (fitSection _ _ _).items = true
  rw [hitems]
  exact checkRows_take (fun _ hv => hv) hrows n

end

/-- **Fitting keeps the longest prefix that fits**, its marks tell whether rows were dropped, and
    a section that is valid apart from its limits is valid afterwards, exactly if the section is
    fittable; with the bases of the documents it is unless it is at the edge.  Fitting makes no
    document and no section of containers fail, except for sections that are mismarked. -/
theorem fitSection_longest {α F : Type} [Float64 F] :
    (∀ (item : Codec α) (s : Section α) (rows : ℕ),
      (KeepsLongest item s rows (fitSection item s rows) ∧ ∀ enabled,
        validApart s enabled = true →
          validSection item (fitSection item s rows) enabled rows = true) ↔
      Fittable item s rows) ∧
    (∀ (item : Codec α) (s : Section α) (rows : ℕ) (enabled : Bool), validApart s enabled = true →
      s.cpuBasis.length ≤ 20 →
      (Fittable item s rows ↔ ¬ (AtEdge item s ∧ s.items.length ≤ rows))) ∧
    (∀ (raw : Observation.Snapshot F) (docker : Containers.Inventory F) (id : Identity)
      (consent : Consent) (p : Section (ProcessRow F)) (c : Section (ContainerRow F)),
      validEnvelope raw id = true → processesOf raw consent.processes = some p →
      containersOf docker consent.containers = some c →
      validApart { p with cpuBasis := processBasis } consent.processes = true →
      validProcesses p.items = true →
      validApart { c with cpuBasis := containerBasis } consent.containers = true →
      validContainers (c.quality.state = .degraded) c.items = true →
      ((∃ b, encode raw docker id consent = .ok b) ↔
        ¬ Mismarked (processRowCodec F) { p with cpuBasis := processBasis } maxProcesses ∧
        ¬ Mismarked (containerRowCodec F) { c with cpuBasis := containerBasis } maxContainers)) ∧
    ∀ (docker : Containers.Inventory F) (c : Section (ContainerRow F)),
      projectContainers docker = some c →
      validApart { c with cpuBasis := containerBasis } true = true →
      validContainers (c.quality.state = .degraded) c.items = true →
      (containerSection docker = .ok (fitContainers c) ↔
        ¬ Mismarked (containerRowCodec F) { c with cpuBasis := containerBasis } maxContainers) := by
  refine ⟨?_, fun item s rows enabled => fittable_iff, ?_, ?_⟩
  · intro item s rows
    rw [keepsLongest_iff]
    exact ⟨fun h => h.1, fun h => ⟨h, fun enabled hvalid => fitSection_valid h hvalid⟩⟩
  · intro raw docker id consent p c henvelope hp hc hpv hprows hcv hcrows
    rw [← fitProcesses_apart hpv hprows, ← fitContainers_apart hcv hcrows]
    constructor
    · rintro ⟨b, hb⟩
      obtain ⟨-, p', c', hp', hc', hprint⟩ := encode_eq_ok.1 hb
      obtain rfl := Option.some.inj (hp.symm.trans hp')
      obtain rfl := Option.some.inj (hc.symm.trans hc')
      obtain ⟨hbasis, hsection, hvalid, hrows⟩ :=
        (validDocument_document henvelope).1 (printDocument_eq_ok.1 hprint).1
      exact ⟨⟨hbasis, hsection, hrows⟩, hvalid⟩
    · rintro ⟨⟨hbasis, hsection, hrows⟩, hvalid⟩
      exact ⟨_, encode_eq_ok.2 ⟨henvelope, p, c, hp, hc, printDocument_eq_ok.2
        ⟨(validDocument_document henvelope).2 ⟨hbasis, hsection, hvalid, hrows⟩, rfl⟩⟩⟩
  · intro docker c hc hcv hcrows
    rw [← fitContainers_apart hcv hcrows, containerSection_eq_ok]
    constructor
    · rintro ⟨c', hc', -, hvalid⟩
      obtain rfl := Option.some.inj (hc.symm.trans hc')
      exact hvalid
    · exact fun hvalid => ⟨c, hc, rfl, hvalid⟩

/-- A degraded section of some rows, each a text of so many letters. -/
def letterSection (k n : ℕ) : Section Bytes :=
  ⟨q .degraded none, containerBasis, some (formatRFC3339Nano sampleTime), k, some k, false,
    List.replicate k (List.replicate n 97)⟩

theorem plain_letters (n : ℕ) : Json.PlainString (List.replicate n 97) := by
  intro b hb
  rw [List.eq_of_mem_replicate hb]
  decide

theorem letterItems_size {k : ℕ} (hk : 0 < k) (n : ℕ) :
    itemsSize .string (List.replicate k (List.replicate n (97 : UInt8))) = 1 + k * (n + 3) := by
  have hlen : ∀ v ∈ List.replicate k (List.replicate n (97 : UInt8)),
      (Json.render (Codec.string.toJson v)).length = n + 2 := by
    intro v hv
    rw [List.eq_of_mem_replicate hv]
    show (Json.renderString _).length = n + 2
    rw [Json.length_renderString_plain (plain_letters n), List.length_replicate]
  have hne : List.replicate k (List.replicate n (97 : UInt8)) ≠ [] := by
    rw [ne_eq, List.replicate_eq_nil_iff]
    omega
  rw [itemsSize_uniform hne hlen, List.length_replicate]

/-- The length of such a section with fewer than ten rows, marked or not. -/
theorem letterSection_size {k m : ℕ} (hm : 0 < m) (hmk : m ≤ k) (hk : k < 10) (n : ℕ) :
    ((letterSection k n).rows m).size .string = 214 + m * (n + 3) ∧
      ((letterSection k n).shortened.rows m).size .string = 213 + m * (n + 3) := by
  have htime : (Json.render (optionalText.toJson (some (formatRFC3339Nano sampleTime)))).length =
      22 := by decide
  have hbasis : (Json.renderString containerBasis).length = 22 := by decide
  have hdigit : ∀ i < 10, (decimal i).length = 1 ∧
      (Json.render (optionalNatural.toJson (some i))).length = 1 := by decide
  have htake : (List.replicate k (List.replicate n (97 : UInt8))).take m =
      List.replicate m (List.replicate n 97) := by
    rw [List.take_replicate, Nat.min_eq_left hmk]
  rw [Section.size_eq, Section.size_eq]
  simp only [letterSection, Section.rows, Section.shortened, qualitySize_degraded, htime, hbasis,
    (hdigit m (by omega)).1, (hdigit k hk).2, htake, letterItems_size hm, Bool.false_eq_true,
    if_false, if_true]
  omega

theorem letterSection_valid {k : ℕ} (hk : k < 10) (n : ℕ) :
    validApart (letterSection k n) true = true := by
  have htime : validTime (formatRFC3339Nano sampleTime) = true := by decide
  have hexact : (10 : ℕ) ≤ maxExactInteger := by decide
  refine validApart_iff.2 ⟨validQuality_q .degraded none, (List.length_replicate ..).symm, fun t ht => ?_,
    fun t ht => Option.some.inj ht ▸ htime, Or.inl rfl, fun t ht => ?_, rfl⟩
  · obtain rfl := Option.some.inj ht
    exact ⟨by omega, le_rfl⟩
  · obtain rfl := Option.some.inj ht
    exact decide_eq_false (Nat.lt_irrefl _)

/-- Of three rows of 60000 letters two are kept. -/
theorem fitSection_longest_letters :
    (fitSection .string (letterSection 3 60000) 5).returned = 2 ∧
      (fitSection .string (letterSection 3 60000) 5).truncated = true ∧
      validSection .string (fitSection .string (letterSection 3 60000) 5) true 5 = true := by
  have hmax : maxSectionBytes = 130560 := rfl
  have hlen : (letterSection 3 60000).items.length = 3 := List.length_replicate
  have hvalid := letterSection_valid (k := 3) (by decide) 60000
  have hsize {m : ℕ} (hm : 0 < m) (hmk : m ≤ 3) := letterSection_size hm hmk (by decide) 60000
  have hedge : ¬ (AtEdge .string (letterSection 3 60000) ∧
      (letterSection 3 60000).items.length ≤ 5) := by
    rintro ⟨⟨-, -, hedge⟩, -⟩
    have hthree := (hsize (m := 3) (by decide) le_rfl).1
    have hwhole : (letterSection 3 60000).whole = (letterSection 3 60000).rows 3 := by
      rw [Section.whole, Section.rows, hlen, List.take_of_length_le hlen.le]
    rw [hwhole] at hedge
    omega
  obtain ⟨hlongest, hvalidity, -⟩ := fitSection_longest (α := Bytes) (F := ℕ)
  obtain ⟨⟨n, hn, -, hitems, hcount, hfits, hmost, htruncated, -⟩, hafter⟩ :=
    (hlongest .string (letterSection 3 60000) 5).2
      ((hvalidity .string _ 5 true hvalid (show containerBasis.length ≤ 20 by decide)).2 hedge)
  rw [hlen] at hn hmost htruncated
  have hthree : n ≠ 3 := by
    rintro rfl
    rw [Section.size_eq, hitems, List.take_of_length_le hlen.le] at hfits
    have := letterItems_size (k := 3) (by decide) 60000
    have : itemsSize .string (letterSection 3 60000).items = _ := this
    omega
  have htwo : ¬ n < 2 := by
    intro hlt
    have hlong := hmost 2 hlt (by decide) (by decide)
    have hshort := (hsize (m := 2) (by decide) (by decide)).2
    rw [Section.cutTo, if_pos (by rw [hlen]; decide)] at hlong
    omega
  obtain rfl : n = 2 := by omega
  exact ⟨hcount, htruncated.2 (Or.inr (by decide)), hafter true hvalid⟩

/-- A section that is too long by one byte keeps its row, but says that it was truncated. -/
theorem overfull_marked :
    validApart (letterSection 1 130344) true = true ∧
      (letterSection 1 130344).size .string = maxSectionBytes + 1 ∧
      (letterSection 1 130344).truncated = false ∧
      (fitSection .string (letterSection 1 130344) 1).items = (letterSection 1 130344).items ∧
      (fitSection .string (letterSection 1 130344) 1).truncated = true ∧
      validSection .string (fitSection .string (letterSection 1 130344) 1) true 1 = false := by
  have hvalid := letterSection_valid (k := 1) (by decide) 130344
  have hsize : (letterSection 1 130344).size .string = maxSectionBytes + 1 :=
    (letterSection_size (k := 1) (m := 1) (by decide) le_rfl (by decide) 130344).1
  have hedge : AtEdge .string (letterSection 1 130344) := ⟨rfl, rfl, hsize⟩
  have hfit : fitSection .string (letterSection 1 130344) 1 =
      (letterSection 1 130344).shortened.rows 1 := hedge.fitSection le_rfl
  refine ⟨hvalid, hsize, rfl, ?_, ?_, Bool.eq_false_iff.2 fun h => ?_⟩
  · rw [hfit]
    rfl
  · rw [hfit]
    rfl
  · exact (validSection_fitSection hvalid (show containerBasis.length ≤ 20 by decide) 1).1 h
      ⟨hedge, rfl, le_rfl⟩

end Workload

end HomeLab
