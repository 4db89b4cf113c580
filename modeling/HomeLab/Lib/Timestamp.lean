/-
  Timestamps as text.

  `formatRFC3339Nano` prints an instant in UTC with as many fractional digits
  as it needs, `formatNanos` always with nine.  `parseRFC3339` reads either
  form back: for the years 0 to 9999, whose numerals have four digits, printing
  and reading is the identity (`parse_formatRFC3339Nano`, `parse_formatNanos`).

  Offsets other than `Z` are not read.  The printers never write one, and all
  readers of stored timestamps print what they have read and compare.
-/
import Mathlib.Data.List.DropRight
import HomeLab.Lib.Bytes
import HomeLab.Lib.Calendar

namespace HomeLab

/-! ## Printing -/

/-- A year with at least four digits. -/
def formatYear (y : ℤ) : Bytes :=
  if y < 0 then ascii "-" ++ padded y.natAbs else padded y.toNat
where
  padded (n : ℕ) : Bytes := if n < 10000 then fixed 4 n else decimal n

/-- `2006-01-02T15:04:05` -/
def formatSeconds (c : Civil) : Bytes :=
  formatYear c.year ++ (45 :: (fixed 2 c.month ++ (45 :: (fixed 2 c.day ++ (84 ::
    (fixed 2 c.hour ++ (58 :: (fixed 2 c.minute ++ (58 :: fixed 2 c.second)))))))))

/-- The fraction of a second, trailing zeros dropped. -/
def formatFraction (nano : ℕ) : Bytes :=
  if nano = 0 then [] else 46 :: (fixed 9 nano).rdropWhile (· == 48)

/-- `2006-01-02T15:04:05.999999999Z` -/
def formatRFC3339Nano (t : Instant) : Bytes :=
  formatSeconds (civil t) ++ (formatFraction (civil t).nano ++ [90])

/-- `2006-01-02T15:04:05.000000000Z` -/
def formatNanos (t : Instant) : Bytes :=
  formatSeconds (civil t) ++ (46 :: (fixed 9 (civil t).nano ++ [90]))

/-! ## Reading -/

/-- Read a number of exactly `w` digits. -/
def readFixed (w : ℕ) (bs : Bytes) : Option (ℕ × Bytes) :=
  if w ≤ bs.length ∧ (bs.take w).all isDigit then some (numeral (bs.take w), bs.drop w) else none

/-- Read the byte `b`. -/
def readByte (b : UInt8) : Bytes → Option Bytes
  | [] => none
  | c :: bs => if c = b then some bs else none

/-- Read an optional fraction of a second; digits after the ninth are ignored. -/
def readFraction : Bytes → Option (ℕ × Bytes)
  | 46 :: bs =>
    let ds := bs.takeWhile isDigit
    if ds = [] then none
    else some (numeral (ds.take 9) * 10 ^ (9 - ds.length), bs.dropWhile isDigit)
  | bs => some (0, bs)

/-- Read a number of `w` digits and the byte that ends its field. -/
def readField (w : ℕ) (sep : UInt8) (bs : Bytes) : Option (ℕ × Bytes) :=
  (readFixed w bs).bind fun n => (readByte sep n.2).map fun bs => (n.1, bs)

/-- Read a timestamp in UTC, refusing fields out of range. -/
def parseRFC3339 (bs : Bytes) : Option Instant :=
  (readField 4 45 bs).bind fun year =>
  (readField 2 45 year.2).bind fun month =>
  (readField 2 84 month.2).bind fun day =>
  (readField 2 58 day.2).bind fun hour =>
  (readField 2 58 hour.2).bind fun minute =>
  (readFixed 2 minute.2).bind fun second =>
  (readFraction second.2).bind fun nano =>
  if nano.2 = [90] ∧ 1 ≤ month.1 ∧ month.1 ≤ 12 ∧ 1 ≤ day.1 ∧ day.1 ≤ daysIn year.1 month.1 ∧
      hour.1 < 24 ∧ minute.1 < 60 ∧ second.1 < 60 then
    some (Civil.instant ⟨year.1, month.1, day.1, hour.1, minute.1, second.1, nano.1⟩)
  else none

/-! ## Round trips -/

variable {n w : ℕ} {t s : Instant}

@[simp] theorem readFixed_fixed (h : n < 10 ^ w) (bs : Bytes) :
    readFixed w (fixed w n ++ bs) = some (n, bs) := by
  have ht : (fixed w n ++ bs).take w = fixed w n := by
    rw [List.take_append_of_le_length (by simp), List.take_of_length_le (by simp)]
  have hd : (fixed w n ++ bs).drop w = bs := by
    rw [List.drop_append_of_le_length (by simp), List.drop_of_length_le (by simp), List.nil_append]
  have ha : (fixed w n).all isDigit = true := List.all_eq_true.2 fun b => isDigit_of_mem_fixed
  simp [readFixed, ht, hd, ha, numeral_fixed h]

@[simp] theorem readByte_cons (b : UInt8) (bs : Bytes) : readByte b (b :: bs) = some bs := by
  simp [readByte]

theorem readField_fixed (h : n < 10 ^ w) (sep : UInt8) (bs : Bytes) :
    readField w sep (fixed w n ++ sep :: bs) = some (n, bs) := by
  rw [readField, readFixed_fixed h, Option.bind_some, readByte_cons, Option.map_some]

/-- Dropping trailing zeros divides the number by the matching power of ten. -/
theorem numeral_rdropWhile (ds : Bytes) :
    numeral (ds.rdropWhile (· == 48)) * 10 ^ (ds.length - (ds.rdropWhile (· == 48)).length) =
      numeral ds := by
  induction ds using List.reverseRecOn with
  | nil => rfl
  | append_singleton ds b ih =>
    by_cases hb : b = 48
    · subst hb
      have hle : (ds.rdropWhile (· == 48)).length ≤ ds.length :=
        (List.rdropWhile_prefix _ _).length_le
      rw [List.rdropWhile_concat_pos _ _ _ (by simp), numeral_concat, ← ih, List.length_append,
        List.length_singleton, Nat.succ_sub hle, pow_succ]
      simp only [digitVal, UInt8.reduceToNat]
      ring
    · rw [List.rdropWhile_concat_neg _ _ _ (by simpa using hb)]
      simp

theorem rdropWhile_ne_nil (h0 : n ≠ 0) (h : n < 10 ^ 9) :
    (fixed 9 n).rdropWhile (· == 48) ≠ [] := by
  intro hn
  have := numeral_rdropWhile (fixed 9 n)
  rw [hn, numeral_fixed h] at this
  simp at this
  exact h0 this.symm

/-- Digits followed by a byte that is no digit are read up to that byte. -/
theorem takeWhile_digits {ds : Bytes} (h : ∀ b ∈ ds, isDigit b = true) (bs : Bytes) :
    (ds ++ 90 :: bs).takeWhile isDigit = ds ∧ (ds ++ 90 :: bs).dropWhile isDigit = 90 :: bs := by
  constructor
  · rw [List.takeWhile_append_of_pos h]
    simp [isDigit]
  · rw [List.dropWhile_append_of_pos h]
    simp [isDigit]

theorem readFraction_digits {ds bs : Bytes} (hne : ds ≠ []) (h : ∀ b ∈ ds, isDigit b = true)
    (hl : ds.length ≤ 9) :
    readFraction (46 :: (ds ++ 90 :: bs)) = some (numeral ds * 10 ^ (9 - ds.length), 90 :: bs) := by
  obtain ⟨h1, h2⟩ := takeWhile_digits h bs
  simp [readFraction, h1, h2, hne, List.take_of_length_le hl]

@[simp] theorem readFraction_formatFraction (h : n < 1000000000) (bs : Bytes) :
    readFraction (formatFraction n ++ 90 :: bs) = some (n, 90 :: bs) := by
  unfold formatFraction
  split_ifs with h0
  · subst h0; rfl
  · have hp : (fixed 9 n).rdropWhile (· == 48) <+: fixed 9 n := List.rdropWhile_prefix _ _
    have hl : ((fixed 9 n).rdropWhile (· == 48)).length ≤ 9 := by simpa using hp.length_le
    rw [List.cons_append, readFraction_digits (rdropWhile_ne_nil h0 (by omega))
      (fun b hb => isDigit_of_mem_fixed (hp.mem hb)) hl]
    have := numeral_rdropWhile (fixed 9 n)
    rw [length_fixed, numeral_fixed (by omega)] at this
    rw [this]

@[simp] theorem readFraction_fixed (h : n < 1000000000) (bs : Bytes) :
    readFraction (46 :: (fixed 9 n ++ 90 :: bs)) = some (n, 90 :: bs) := by
  have hne : fixed 9 n ≠ [] := by
    intro h0; have := congrArg List.length h0; simp at this
  rw [readFraction_digits hne (fun b => isDigit_of_mem_fixed) (by simp), length_fixed,
    numeral_fixed (by omega)]
  simp

/-- The text a timestamp of four-digit year consists of, up to its fraction. -/
theorem parseRFC3339_of_fraction (h0 : 0 ≤ year t) (h1 : year t ≤ 9999) {fr : Bytes}
    (hf : readFraction fr = some ((civil t).nano, [90])) :
    parseRFC3339 (formatSeconds (civil t) ++ fr) = some t := by
  have hw := civil_wf t
  have hd := daysIn_le (civil t).year (civil t).month
  change 0 ≤ (civil t).year at h0
  change (civil t).year ≤ 9999 at h1
  have hy : formatYear (civil t).year = fixed 4 (civil t).year.toNat := by
    rw [formatYear, if_neg (by omega), formatYear.padded, if_pos (by omega)]
  have hcast : ((civil t).year.toNat : ℤ) = (civil t).year := Int.toNat_of_nonneg h0
  have hwd := hw.day
  rw [← hcast] at hwd hd
  have e1 : (civil t).year.toNat < 10 ^ 4 := by omega
  have e2 : (civil t).month < 10 ^ 2 := by have := hw.month; omega
  have e3 : (civil t).day < 10 ^ 2 := by omega
  have e4 : (civil t).hour < 10 ^ 2 := by have := hw.hour; omega
  have e5 : (civil t).minute < 10 ^ 2 := by have := hw.minute; omega
  have e6 : (civil t).second < 10 ^ 2 := by have := hw.second; omega
  simp only [formatSeconds, hy, List.append_assoc, List.cons_append]
  rw [parseRFC3339, readField_fixed e1, Option.bind_some, readField_fixed e2, Option.bind_some,
    readField_fixed e3, Option.bind_some, readField_fixed e4, Option.bind_some,
    readField_fixed e5, Option.bind_some, readFixed_fixed e6, Option.bind_some, hf,
    Option.bind_some]
  rw [if_pos ⟨rfl, hw.month.1, hw.month.2, hwd.1, hwd.2, hw.hour, hw.minute, hw.second⟩, hcast]
  exact congrArg some (instant_civil t)

/-- **A printed timestamp is read back exactly.** -/
theorem parse_formatRFC3339Nano (h0 : 0 ≤ year t) (h1 : year t ≤ 9999) :
    parseRFC3339 (formatRFC3339Nano t) = some t :=
  parseRFC3339_of_fraction h0 h1 (readFraction_formatFraction (civil_wf t).nano [])

theorem parse_formatNanos (h0 : 0 ≤ year t) (h1 : year t ≤ 9999) :
    parseRFC3339 (formatNanos t) = some t :=
  parseRFC3339_of_fraction h0 h1 (readFraction_fixed (civil_wf t).nano [])

/-- A text that is read starts with four digits and a dash. -/
theorem dash_of_parseRFC3339 {bs : Bytes} (h : parseRFC3339 bs = some s) :
    (bs.take 4).all isDigit = true ∧ (bs.drop 4).head? = some 45 := by
  cases h4 : readField 4 45 bs with
  | none => rw [parseRFC3339, h4] at h; cases h
  | some r =>
    rw [readField, readFixed] at h4
    split_ifs at h4 with hd
    · refine ⟨hd.2, ?_⟩
      cases hc : bs.drop 4 with
      | nil => simp [hc, readByte] at h4
      | cons c u =>
        by_cases hc45 : c = 45
        · rw [hc45]; rfl
        · simp [hc, readByte, hc45] at h4
    · cases h4

/-- Only four-digit years are read back. -/
theorem year_of_parse_formatRFC3339Nano (h : parseRFC3339 (formatRFC3339Nano t) = some s) :
    0 ≤ year t ∧ year t ≤ 9999 := by
  obtain ⟨hdigits, hdash⟩ := dash_of_parseRFC3339 h
  have happ : ∃ rest, formatRFC3339Nano t = formatYear (civil t).year ++ rest := by
    rw [formatRFC3339Nano, formatSeconds, List.append_assoc]; exact ⟨_, rfl⟩
  obtain ⟨rest, hrest⟩ := happ
  rw [hrest] at hdigits hdash
  change 0 ≤ (civil t).year ∧ (civil t).year ≤ 9999
  generalize (civil t).year = y at *
  by_contra hy
  have hy : y < 0 ∨ 10000 ≤ y := by omega
  rcases hy with hy | hy
  · rw [formatYear, if_pos hy, ascii] at hdigits
    simp [isDigit] at hdigits
  · -- the fifth digit stands where the dash is expected
    have hd : ∀ b ∈ decimal y.toNat, isDigit b = true := fun b hb => isDigit_of_mem_decimal hb
    have hlen : 5 ≤ (decimal y.toNat).length := by
      by_contra hlt
      have hnum := numeral_lt_pow hd
      have hpow : 10 ^ (decimal y.toNat).length ≤ 10 ^ 4 :=
        Nat.pow_le_pow_right (by decide) (by omega)
      rw [numeral_decimal] at hnum
      omega
    rw [formatYear, if_neg (by omega), formatYear.padded, if_neg (by omega),
      List.drop_append_of_le_length (by omega)] at hdash
    have hne : (decimal y.toNat).drop 4 ≠ [] := by
      rw [Ne, List.drop_eq_nil_iff]; omega
    rw [List.head?_append_of_ne_nil _ hne] at hdash
    have hmem : (45 : UInt8) ∈ decimal y.toNat :=
      List.mem_of_mem_drop (List.mem_of_mem_head? hdash)
    have := hd 45 hmem
    revert this; decide

theorem mem_formatSeconds {c : Civil} {b : UInt8} (h : b ∈ formatSeconds c) :
    isDigit b = true ∨ b ∈ ascii "-:.TZ" := by
  have hyear : ∀ y, b ∈ formatYear y → isDigit b = true ∨ b ∈ ascii "-:.TZ" := by
    intro y hb
    have hpad : ∀ n, b ∈ formatYear.padded n → isDigit b = true := by
      intro n hb
      unfold formatYear.padded at hb
      split_ifs at hb
      · exact isDigit_of_mem_fixed hb
      · exact isDigit_of_mem_decimal hb
    unfold formatYear at hb
    split_ifs at hb
    · rcases List.mem_append.1 hb with hb | hb
      · right; revert hb; simp only [ascii]; simp; tauto
      · exact Or.inl (hpad _ hb)
    · exact Or.inl (hpad _ hb)
  have hfix : ∀ w n, b ∈ fixed w n → isDigit b = true := fun w n hb => isDigit_of_mem_fixed hb
  have hmem : ∀ c : UInt8, c ∈ ascii "-:.TZ" → b = c → isDigit b = true ∨ b ∈ ascii "-:.TZ" :=
    fun c hc hb => Or.inr (hb ▸ hc)
  simp only [formatSeconds, List.mem_append, List.mem_cons] at h
  rcases h with h | h | h | h | h | h | h | h | h | h | h
  · exact hyear _ h
  · exact hmem 45 (by decide) h
  · exact Or.inl (hfix _ _ h)
  · exact hmem 45 (by decide) h
  · exact Or.inl (hfix _ _ h)
  · exact hmem 84 (by decide) h
  · exact Or.inl (hfix _ _ h)
  · exact hmem 58 (by decide) h
  · exact Or.inl (hfix _ _ h)
  · exact hmem 58 (by decide) h
  · exact Or.inl (hfix _ _ h)

theorem mem_formatRFC3339Nano {b : UInt8} (h : b ∈ formatRFC3339Nano t) :
    isDigit b = true ∨ b ∈ ascii "-:.TZ" := by
  rw [formatRFC3339Nano, List.mem_append, List.mem_append, List.mem_singleton] at h
  rcases h with h | h | rfl
  · exact mem_formatSeconds h
  · unfold formatFraction at h
    split_ifs at h
    · cases h
    · rcases List.mem_cons.1 h with rfl | h
      · exact Or.inr (by decide)
      · exact Or.inl (isDigit_of_mem_fixed ((List.rdropWhile_prefix _ _).mem h))
  · exact Or.inr (by decide)

theorem length_formatRFC3339Nano (h0 : 0 ≤ year t) (h1 : year t ≤ 9999) :
    20 ≤ (formatRFC3339Nano t).length ∧ (formatRFC3339Nano t).length ≤ 30 := by
  change 0 ≤ (civil t).year at h0
  change (civil t).year ≤ 9999 at h1
  have hy : (formatYear (civil t).year).length = 4 := by
    rw [formatYear, if_neg (by omega), formatYear.padded, if_pos (by omega), length_fixed]
  have hf : (formatFraction (civil t).nano).length ≤ 10 := by
    unfold formatFraction
    split_ifs
    · simp
    · have := (List.rdropWhile_prefix (· == 48) (fixed 9 (civil t).nano)).length_le
      simp only [length_fixed] at this
      simp only [List.length_cons]; omega
  simp only [formatRFC3339Nano, formatSeconds, List.length_append, List.length_cons, length_fixed,
    List.length_nil, hy]
  omega

/-! ## Order -/

/-- The fields of a printed timestamp, up to the given rest. -/
theorem field_lt_iff {m : ℕ} (hm : m < 10 ^ w) (hn : n < 10 ^ w) {sep : UInt8} {c d : Bytes} :
    fixed w m ++ sep :: c < fixed w n ++ sep :: d ↔ m < n ∨ m = n ∧ c < d := by
  have heq : fixed w m = fixed w n ↔ m = n := by
    constructor
    · intro h
      have := congrArg numeral h
      rwa [numeral_fixed hm, numeral_fixed hn] at this
    · intro h; rw [h]
  rw [append_lt_append_iff (by simp), fixed_lt_fixed_iff hm hn, heq, List.cons_lt_cons_iff]
  simp

theorem lt_of_formatNanos_lt (hs0 : 0 ≤ year s) (hs1 : year s ≤ 9999) (ht0 : 0 ≤ year t)
    (ht1 : year t ≤ 9999) (h : formatNanos s < formatNanos t) : s < t := by
  have hs := civil_wf s
  have ht := civil_wf t
  have hds := daysIn_le (civil s).year (civil s).month
  have hdt := daysIn_le (civil t).year (civil t).month
  have hys : formatYear (civil s).year = fixed 4 (civil s).year.toNat := by
    change 0 ≤ (civil s).year at hs0
    change (civil s).year ≤ 9999 at hs1
    rw [formatYear, if_neg (by omega), formatYear.padded, if_pos (by omega)]
  have hyt : formatYear (civil t).year = fixed 4 (civil t).year.toNat := by
    change 0 ≤ (civil t).year at ht0
    change (civil t).year ≤ 9999 at ht1
    rw [formatYear, if_neg (by omega), formatYear.padded, if_pos (by omega)]
  simp only [formatNanos, formatSeconds, hys, hyt, List.append_assoc, List.cons_append] at h
  have h1 := hs.month; have h2 := ht.month; have h3 := hs.day; have h4 := ht.day
  have h5 := hs.hour; have h6 := ht.hour; have h7 := hs.minute; have h8 := ht.minute
  have h9 := hs.second; have h10 := ht.second; have h11 := hs.nano; have h12 := ht.nano
  change 0 ≤ (civil s).year at hs0
  change (civil s).year ≤ 9999 at hs1
  change 0 ≤ (civil t).year at ht0
  change (civil t).year ≤ 9999 at ht1
  rw [field_lt_iff (by omega) (by omega), field_lt_iff (by omega) (by omega),
    field_lt_iff (by omega) (by omega), field_lt_iff (by omega) (by omega),
    field_lt_iff (by omega) (by omega), field_lt_iff (by omega) (by omega),
    field_lt_iff (by omega) (by omega)] at h
  apply lt_of_civil_lt
  simp only [List.lt_irrefl, and_false, or_false] at h
  have hy : (civil s).year.toNat < (civil t).year.toNat ↔ year s < year t := by
    change _ ↔ (civil s).year < (civil t).year
    omega
  have hye : (civil s).year.toNat = (civil t).year.toNat ↔ year s = year t := by
    change _ ↔ (civil s).year = (civil t).year
    omega
  rwa [hy, hye] at h

/-- **Printed timestamps sort as their instants.** -/
theorem formatNanos_lt_iff (hs0 : 0 ≤ year s) (hs1 : year s ≤ 9999) (ht0 : 0 ≤ year t)
    (ht1 : year t ≤ 9999) : formatNanos s < formatNanos t ↔ s < t := by
  refine ⟨lt_of_formatNanos_lt hs0 hs1 ht0 ht1, fun h => ?_⟩
  rcases lt_trichotomy (formatNanos s) (formatNanos t) with hlt | heq | hgt
  · exact hlt
  · have hparse := congrArg parseRFC3339 heq
    rw [parse_formatNanos hs0 hs1, parse_formatNanos ht0 ht1] at hparse
    exact absurd (Option.some.inj hparse) h.ne
  · exact absurd (lt_of_formatNanos_lt ht0 ht1 hs0 hs1 hgt) h.not_gt

end HomeLab
