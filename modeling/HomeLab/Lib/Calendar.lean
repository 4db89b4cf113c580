/-
  Instants and the proleptic Gregorian calendar.

  An instant is a number of nanoseconds since the start of year 1 (UTC), so
  that `0` is the zero time.  `civil` splits an instant into calendar fields
  and `Civil.instant` puts them together again; `instant_civil` says that
  nothing is lost, in any year.
-/
import Mathlib.Tactic

namespace HomeLab

/-- Nanoseconds since 0001-01-01T00:00:00Z. -/
abbrev Instant := ℤ

/-- A length of time in nanoseconds. -/
abbrev Duration := ℤ

def second : Duration := 1000000000
def minute : Duration := 60 * second
def hour : Duration := 60 * minute
def day : Duration := 24 * hour

/-- The largest and the smallest duration of 64 bits. -/
def maxDuration : Duration := 2 ^ 63 - 1
def minDuration : Duration := -2 ^ 63

/-- The time from `u` to `t`, cut off at the ends of the range. -/
def timeSub (t u : Instant) : Duration := max minDuration (min maxDuration (t - u))

theorem timeSub_eq {t u : Instant} (h0 : 0 ≤ t - u) (h1 : t - u ≤ maxDuration) :
    timeSub t u = t - u := by
  rw [timeSub, min_eq_right h1, max_eq_right]
  exact le_trans (by decide) h0

/-- A difference that is not at the bounds is exact. -/
theorem eq_of_timeSub {t u : Instant} {d : Duration} (h0 : minDuration < d) (h1 : d < maxDuration)
    (h : timeSub t u = d) : t = u + d := by
  have hexact : ∀ x : ℤ, max minDuration (min maxDuration x) = d → x = d := by
    intro x hx
    grind
  have := hexact _ h
  linarith

/-! ## Years -/

def isLeap (y : ℤ) : Bool := y % 4 = 0 ∧ (y % 100 ≠ 0 ∨ y % 400 = 0)

/-- The days between the start of year 1 and the start of year `y`. -/
def daysBeforeYear (y : ℤ) : ℤ :=
  365 * (y - 1) + (y - 1) / 4 - (y - 1) / 100 + (y - 1) / 400

theorem daysBeforeYear_succ (y : ℤ) :
    daysBeforeYear (y + 1) = daysBeforeYear y + 365 + (isLeap y).toNat := by
  have h4 : y / 4 = (y - 1) / 4 + if y % 4 = 0 then 1 else 0 := by split_ifs <;> omega
  have h100 : y / 100 = (y - 1) / 100 + if y % 100 = 0 then 1 else 0 := by split_ifs <;> omega
  have h400 : y / 400 = (y - 1) / 400 + if y % 400 = 0 then 1 else 0 := by split_ifs <;> omega
  have hl : ((isLeap y).toNat : ℤ) =
      (if y % 4 = 0 then 1 else 0) - (if y % 100 = 0 then 1 else 0) +
        (if y % 400 = 0 then 1 else 0) := by
    by_cases ha : y % 4 = 0 <;> by_cases hb : y % 100 = 0 <;> by_cases hc : y % 400 = 0 <;>
      simp [isLeap, ha, hb, hc] <;> omega
  simp only [daysBeforeYear, add_sub_cancel_right, h4, h100, h400, hl]
  ring

theorem daysBeforeYear_strictMono : StrictMono daysBeforeYear :=
  strictMono_int_of_lt_succ fun y => by rw [daysBeforeYear_succ]; omega

/-- The year of day `n`, by splitting off cycles of 400, 100, 4 and 1 years. -/
def yearOf (n : ℤ) : ℤ :=
  let n400 := n / 146097
  let r400 := n % 146097
  let n100 := min (r400 / 36524) 3
  let r100 := r400 - 36524 * n100
  let n4 := r100 / 1461
  let n1 := min (r100 % 1461 / 365) 3
  400 * n400 + 100 * n100 + 4 * n4 + n1 + 1

/-- The start of a year in terms of its cycles. -/
theorem daysBeforeYear_cycles {a b c d : ℤ} (hb : 0 ≤ b ∧ b ≤ 3) (hc : 0 ≤ c ∧ c ≤ 24)
    (hd : 0 ≤ d ∧ d ≤ 3) :
    daysBeforeYear (400 * a + 100 * b + 4 * c + d + 1) =
      146097 * a + 36524 * b + 1461 * c + 365 * d := by
  have h4 : (400 * a + 100 * b + 4 * c + d) / 4 = 100 * a + 25 * b + c := by omega
  have h100 : (400 * a + 100 * b + 4 * c + d) / 100 = 4 * a + b := by omega
  have h400 : (400 * a + 100 * b + 4 * c + d) / 400 = a := by omega
  simp only [daysBeforeYear, add_sub_cancel_right, h4, h100, h400]
  ring

theorem yearOf_spec (n : ℤ) : daysBeforeYear (yearOf n) ≤ n ∧ n < daysBeforeYear (yearOf n + 1) := by
  obtain ⟨b, hb⟩ : ∃ b, min (n % 146097 / 36524) 3 = b := ⟨_, rfl⟩
  obtain ⟨r, hr⟩ : ∃ r, n % 146097 - 36524 * b = r := ⟨_, rfl⟩
  obtain ⟨d, hd⟩ : ∃ d, min (r % 1461 / 365) 3 = d := ⟨_, rfl⟩
  have hb' : 0 ≤ b ∧ b ≤ 3 := by omega
  have hr' : 0 ≤ r ∧ r ≤ 36524 ∧ (b < 3 → r < 36524) := by omega
  have hc' : 0 ≤ r / 1461 ∧ r / 1461 ≤ 24 := by omega
  have hd' : 0 ≤ d ∧ d ≤ 3 := by omega
  have hy : yearOf n = 400 * (n / 146097) + 100 * b + 4 * (r / 1461) + d + 1 := by
    simp only [yearOf, hb, hr, hd]
  have hs := daysBeforeYear_cycles (a := n / 146097) hb' hc' hd'
  rw [daysBeforeYear_succ, hy, hs]
  refine ⟨by omega, ?_⟩
  by_cases hl : isLeap (400 * (n / 146097) + 100 * b + 4 * (r / 1461) + d + 1) = true
  · simp only [hl, Bool.toNat_true]; omega
  · simp only [hl, Bool.toNat_false]
    -- a 366th day would be the last one of a cycle of four years, whose last year is no leap
    -- year only at the end of a century, which is a day short
    rcases lt_or_ge (r % 1461) 1460 with h | h
    · omega
    · have h1460 : r % 1461 = 1460 := by omega
      have hd3 : d = 3 := by omega
      subst hd3
      have hrc : r = 1461 * (r / 1461) + 1460 := by omega
      have hcent : r / 1461 = 24 ∧ b ≠ 3 := by
        simp only [isLeap, decide_eq_true_eq] at hl
        generalize r / 1461 = c at *
        generalize n / 146097 = a at *
        omega
      have := hr'.2.2
      omega

/-! ## Months -/

/-- The days of a year before its month `m`. -/
def daysBeforeMonth (leap : Bool) : ℕ → ℕ
  | 0 | 1 => 0
  | 2 => 31
  | 3 => 59 + leap.toNat
  | 4 => 90 + leap.toNat
  | 5 => 120 + leap.toNat
  | 6 => 151 + leap.toNat
  | 7 => 181 + leap.toNat
  | 8 => 212 + leap.toNat
  | 9 => 243 + leap.toNat
  | 10 => 273 + leap.toNat
  | 11 => 304 + leap.toNat
  | 12 => 334 + leap.toNat
  | _ => 365 + leap.toNat

/-- The month of the `yd`-th day of a year. -/
def monthOf (leap : Bool) (yd : ℕ) : ℕ :=
  if yd < 31 then 1 else if yd < 59 + leap.toNat then 2 else if yd < 90 + leap.toNat then 3
  else if yd < 120 + leap.toNat then 4 else if yd < 151 + leap.toNat then 5
  else if yd < 181 + leap.toNat then 6 else if yd < 212 + leap.toNat then 7
  else if yd < 243 + leap.toNat then 8 else if yd < 273 + leap.toNat then 9
  else if yd < 304 + leap.toNat then 10 else if yd < 334 + leap.toNat then 11 else 12

theorem monthOf_spec {leap : Bool} {yd : ℕ} (h : yd < 365 + leap.toNat) :
    daysBeforeMonth leap (monthOf leap yd) ≤ yd ∧ yd < daysBeforeMonth leap (monthOf leap yd + 1) ∧
      1 ≤ monthOf leap yd ∧ monthOf leap yd ≤ 12 := by
  have hall : ∀ leap : Bool, ∀ yd < 365 + leap.toNat,
      daysBeforeMonth leap (monthOf leap yd) ≤ yd ∧
        yd < daysBeforeMonth leap (monthOf leap yd + 1) ∧
          1 ≤ monthOf leap yd ∧ monthOf leap yd ≤ 12 := by decide +kernel
  exact hall leap yd h

/-- The number of days of month `m` of year `y`. -/
def daysIn (y : ℤ) (m : ℕ) : ℕ := daysBeforeMonth (isLeap y) (m + 1) - daysBeforeMonth (isLeap y) m

theorem daysIn_le (y : ℤ) (m : ℕ) : daysIn y m ≤ 31 := by
  have hl : (isLeap y).toNat ≤ 1 := Bool.toNat_le _
  unfold daysIn
  rcases Nat.lt_or_ge m 13 with h | h
  · interval_cases m <;> simp only [daysBeforeMonth] <;> omega
  · obtain ⟨k, rfl⟩ := Nat.exists_eq_add_of_le' h
    simp only [daysBeforeMonth]; omega

theorem daysBeforeMonth_mono {leap : Bool} {m n : ℕ} (h : m ≤ n) :
    daysBeforeMonth leap m ≤ daysBeforeMonth leap n := by
  have hstep : ∀ m, daysBeforeMonth leap m ≤ daysBeforeMonth leap (m + 1) := by
    intro m
    rcases lt_or_ge m 13 with hm | hm
    · interval_cases m <;> simp only [daysBeforeMonth] <;> omega
    · obtain ⟨k, rfl⟩ := Nat.exists_eq_add_of_le' hm
      simp only [daysBeforeMonth]
      omega
  exact monotone_nat_of_le_succ hstep h

/-! ## Calendar fields -/

structure Civil where
  year : ℤ
  month : ℕ
  day : ℕ
  hour : ℕ
  minute : ℕ
  second : ℕ
  nano : ℕ
  deriving DecidableEq, Repr

/-- The calendar fields of an instant. -/
def civil (t : Instant) : Civil :=
  let n := t / day
  let r := (t % day).toNat
  let y := yearOf n
  let yd := (n - daysBeforeYear y).toNat
  let m := monthOf (isLeap y) yd
  { year := y
    month := m
    day := yd - daysBeforeMonth (isLeap y) m + 1
    hour := r / 3600000000000
    minute := r / 60000000000 % 60
    second := r / 1000000000 % 60
    nano := r % 1000000000 }

/-- The instant with the given calendar fields. -/
def Civil.instant (c : Civil) : Instant :=
  (daysBeforeYear c.year + daysBeforeMonth (isLeap c.year) c.month + (c.day - 1)) * HomeLab.day +
    c.hour * HomeLab.hour + c.minute * HomeLab.minute + c.second * HomeLab.second + c.nano

/-- The ranges of the fields of an instant. -/
structure Civil.Wf (c : Civil) : Prop where
  month : 1 ≤ c.month ∧ c.month ≤ 12
  day : 1 ≤ c.day ∧ c.day ≤ daysIn c.year c.month
  hour : c.hour < 24
  minute : c.minute < 60
  second : c.second < 60
  nano : c.nano < 1000000000

theorem yearDay_lt (n : ℤ) :
    (n - daysBeforeYear (yearOf n)).toNat < 365 + (isLeap (yearOf n)).toNat := by
  obtain ⟨h1, h2⟩ := yearOf_spec n
  rw [daysBeforeYear_succ] at h2
  omega

theorem civil_wf (t : Instant) : (civil t).Wf := by
  obtain ⟨h1, h2, hm⟩ := monthOf_spec (yearDay_lt (t / day))
  have hr : 0 ≤ t % day ∧ t % day < day := ⟨Int.emod_nonneg _ (by decide), Int.emod_lt_of_pos _ (by decide)⟩
  simp only [day, hour, minute, second] at hr
  constructor
  · exact hm
  · simp only [civil, daysIn] at h1 h2 ⊢; omega
  all_goals simp only [civil, day, hour, minute, second]; omega

/-- **The calendar fields determine the instant.** -/
theorem instant_civil (t : Instant) : (civil t).instant = t := by
  obtain ⟨h1, h2, -⟩ := monthOf_spec (yearDay_lt (t / day))
  obtain ⟨h3, h4⟩ := yearOf_spec (t / day)
  have hr : 0 ≤ t % day ∧ t % day < day := ⟨Int.emod_nonneg _ (by decide), Int.emod_lt_of_pos _ (by decide)⟩
  have hdiv := Int.mul_ediv_add_emod t day
  have hdays : daysBeforeYear (civil t).year +
      daysBeforeMonth (isLeap (civil t).year) (civil t).month + ((civil t).day - 1) = t / day := by
    simp only [civil] at *; omega
  have hclock : ((civil t).hour : ℤ) * HomeLab.hour + (civil t).minute * HomeLab.minute +
      (civil t).second * HomeLab.second + (civil t).nano = t % day := by
    simp only [civil, day, hour, minute, second] at *; omega
  unfold Civil.instant
  rw [hdays]
  linarith [mul_comm (t / day) day]

/-! ## Representable years -/

def year (t : Instant) : ℤ := (civil t).year

/-- The first instant of a year. -/
def yearStart (y : ℤ) : Instant := daysBeforeYear y * day

theorem year_eq (t : Instant) : year t = yearOf (t / day) := rfl

theorem le_year_iff (y : ℤ) (t : Instant) : y ≤ year t ↔ yearStart y ≤ t := by
  obtain ⟨h1, h2⟩ := yearOf_spec (t / day)
  have hd : (0 : ℤ) < day := by decide
  rw [year_eq, yearStart, ← Int.le_ediv_iff_mul_le hd]
  constructor
  · intro h; exact (daysBeforeYear_strictMono.monotone h).trans h1
  · intro h
    by_contra hlt
    have := daysBeforeYear_strictMono.monotone (show yearOf (t / day) + 1 ≤ y by omega)
    omega

theorem year_lt_iff (y : ℤ) (t : Instant) : year t < y ↔ t < yearStart y := by
  rw [← not_le, le_year_iff, not_le]

theorem instant_split (t : Instant) :
    ∃ clock : ℤ, 0 ≤ clock ∧ clock < day ∧
      clock = (civil t).hour * hour + (civil t).minute * minute + (civil t).second * second +
        (civil t).nano ∧
      t = (daysBeforeYear (civil t).year + daysBeforeMonth (isLeap (civil t).year) (civil t).month +
        ((civil t).day - 1)) * day + clock := by
  have hw := civil_wf t
  refine ⟨_, ?_, ?_, rfl, ?_⟩
  · simp only [hour, minute, second]; positivity
  · have h1 := hw.hour
    have h2 := hw.minute
    have h3 := hw.second
    have h4 := hw.nano
    simp only [hour, minute, second, day]
    omega
  · nth_rewrite 1 [← instant_civil t]
    rw [Civil.instant]
    ring

theorem lt_of_civil_lt {s t : Instant}
    (h : year s < year t ∨ year s = year t ∧ ((civil s).month < (civil t).month ∨
      (civil s).month = (civil t).month ∧ ((civil s).day < (civil t).day ∨
      (civil s).day = (civil t).day ∧ ((civil s).hour < (civil t).hour ∨
      (civil s).hour = (civil t).hour ∧ ((civil s).minute < (civil t).minute ∨
      (civil s).minute = (civil t).minute ∧ ((civil s).second < (civil t).second ∨
      (civil s).second = (civil t).second ∧ (civil s).nano < (civil t).nano)))))) : s < t := by
  have hs := civil_wf s
  have ht := civil_wf t
  rcases h with h | ⟨hyear, h⟩
  · have hle := (le_year_iff (year t) t).1 le_rfl
    exact lt_of_lt_of_le ((year_lt_iff (year t) s).1 h) hle
  obtain ⟨cs, hcs0, hcs1, hcs, hs'⟩ := instant_split s
  obtain ⟨ct, hct0, hct1, hct, ht'⟩ := instant_split t
  -- an earlier day comes first whatever the time of day
  have hday : ∀ {m n : ℤ}, m < n → m * day + cs < n * day + ct := by
    intro m n hmn
    have hd : (0 : ℤ) < day := by decide
    have : (m + 1) * day ≤ n * day := mul_le_mul_of_nonneg_right (by omega) hd.le
    linarith
  have hyear' : (civil s).year = (civil t).year := hyear
  rcases h with h | ⟨hmonth, h⟩
  · rw [hs', ht']
    apply hday
    have hmono : daysBeforeMonth (isLeap (civil t).year) (civil s).month.succ ≤
        daysBeforeMonth (isLeap (civil t).year) (civil t).month :=
      daysBeforeMonth_mono (Nat.succ_le_of_lt h)
    have hdays := hs.day.2
    rw [daysIn, hyear'] at hdays
    rw [hyear']
    have := hs.day.1
    have := ht.day.1
    rw [Nat.succ_eq_add_one] at hmono
    omega
  rcases h with h | ⟨hd, h⟩
  · rw [hs', ht', hyear', hmonth]
    apply hday
    omega
  · have hclock : cs < ct := by
      have h1 := hs.minute
      have h2 := hs.second
      have h3 := hs.nano
      rw [hcs, hct]
      simp only [hour, minute, second]
      omega
    rw [hs', ht', hyear', hmonth, hd]
    exact add_lt_add_of_le_of_lt le_rfl hclock

/-- The end of the last four-digit year. -/
def maxInstant : Instant := yearStart 10000

theorem yearStart_one : yearStart 1 = 0 := by decide

/-- A clock reading: a nonzero instant of years 1 to 9999. -/
def ClockReading (t : Instant) : Prop := 0 < t ∧ t < maxInstant

instance (t : Instant) : Decidable (ClockReading t) := inferInstanceAs (Decidable (_ ∧ _))

theorem clockReading_iff (t : Instant) :
    ClockReading t ↔ t ≠ 0 ∧ 1 ≤ year t ∧ year t ≤ 9999 := by
  have h9999 : year t ≤ 9999 ↔ t < maxInstant := by
    rw [maxInstant, ← year_lt_iff]; omega
  rw [le_year_iff, yearStart_one, h9999, ClockReading]
  constructor
  · rintro ⟨h0, h1⟩; exact ⟨h0.ne', h0.le, h1⟩
  · rintro ⟨h0, h1, h2⟩; exact ⟨lt_of_le_of_ne h1 (Ne.symm h0), h2⟩

end HomeLab
