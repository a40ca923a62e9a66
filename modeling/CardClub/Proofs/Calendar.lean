import CardClub.Instant.Calendar

/-!
# Dates of days

The day count of the date of a day is that day, and the date is one of the calendar. An era of 400
years has 146097 days. The year of an era is found by taking away the days that its leap years add,
and the month by the lengths of 31 and 30 days that repeat in groups of five from March on.
-/

namespace CardClub.Date

variable {n : Int}

/-- The year of a day of an era. -/
def yearOfEra (n : Int) : Int := (n - n / 1460 + n / 36524 - n / 146096) / 365

/-- The day within the year of a day of an era, from the first of March on. -/
def dayOfYear (n : Int) : Int :=
  n - (365 * yearOfEra n + yearOfEra n / 4 - yearOfEra n / 100)

theorem yearOfEra_bounds (h0 : 0 ≤ n) (h1 : n < 146097) :
    0 ≤ yearOfEra n ∧ yearOfEra n ≤ 399 := by
  unfold yearOfEra
  omega

theorem lastDay (h0 : 0 ≤ n) (h1 : n < 146097) : n / 146096 = 0 ∨ n / 146096 = 1 := by
  omega

/-- The leap days before a day are those before its year, and one more at the end of a leap year. -/
theorem leapDays (h0 : 0 ≤ n) (h1 : n < 146097) :
    yearOfEra n / 4 ≤ n / 1460 ∧ n / 1460 ≤ yearOfEra n / 4 + 1 ∧
      yearOfEra n / 100 ≤ n / 36524 ∧ n / 36524 ≤ yearOfEra n / 100 + n / 146096 := by
  obtain ⟨hy0, hy1⟩ := yearOfEra_bounds h0 h1
  have hlast := lastDay h0 h1
  have hdef : yearOfEra n = (n - n / 1460 + n / 36524 - n / 146096) / 365 := rfl
  generalize yearOfEra n = y at *
  refine ⟨?_, ?_, ?_, ?_⟩ <;> omega

theorem dayOfYear_bounds (h0 : 0 ≤ n) (h1 : n < 146097) :
    0 ≤ dayOfYear n ∧ dayOfYear n ≤ 365 := by
  obtain ⟨hfour, hfour', hcentury, hcentury'⟩ := leapDays h0 h1
  have hlast := lastDay h0 h1
  have hdef : yearOfEra n = (n - n / 1460 + n / 36524 - n / 146096) / 365 := rfl
  unfold dayOfYear
  generalize yearOfEra n = y at *
  omega

/-- Only leap years have a last day. -/
theorem leap_of_dayOfYear (h0 : 0 ≤ n) (h1 : n < 146097) (h : dayOfYear n = 365) :
    (yearOfEra n + 1) % 4 = 0 ∧ ((yearOfEra n + 1) % 100 = 0 → yearOfEra n = 399) := by
  obtain ⟨hy0, hy1⟩ := yearOfEra_bounds h0 h1
  obtain ⟨hfour, hfour', hcentury, hcentury'⟩ := leapDays h0 h1
  have hlast := lastDay h0 h1
  have hdef : yearOfEra n = (n - n / 1460 + n / 36524 - n / 146096) / 365 := rfl
  unfold dayOfYear at h
  generalize yearOfEra n = y at *
  have hleap : n / 1460 = y / 4 + 1 := by omega
  have hmod : y % 4 = 3 := by
    rcases (by omega : y % 4 = 0 ∨ y % 4 = 1 ∨ y % 4 = 2 ∨ y % 4 = 3) with hr | hr | hr | hr
    · omega
    · omega
    · omega
    · exact hr
  exact ⟨by omega, fun _ => by omega⟩

/-! ## The date of a day -/

/-- The month of a day within the year, from March on as 0. -/
def monthOf (day : Int) : Int := (5 * day + 2) / 153

theorem monthOf_bounds {day : Int} (h0 : 0 ≤ day) (h1 : day ≤ 365) :
    0 ≤ monthOf day ∧ monthOf day ≤ 11 ∧ (153 * monthOf day + 2) / 5 ≤ day ∧
      day < (153 * (monthOf day + 1) + 2) / 5 := by
  unfold monthOf
  omega

/-- The era of a day, and the day within it. -/
theorem era_split (days : Int) :
    days + 719468 = 146097 * ((days + 719468) / 146097) + (days + 719468) % 146097 ∧
      0 ≤ (days + 719468) % 146097 ∧ (days + 719468) % 146097 < 146097 := by
  omega

theorem ofDays_eq (days : Int) :
    let era := (days + 719468) / 146097
    let n := (days + 719468) % 146097
    let month := monthOf (dayOfYear n)
    let day := dayOfYear n - (153 * month + 2) / 5 + 1
    ofDays days = if month < 10 then ⟨yearOfEra n + era * 400, month + 3, day⟩
      else ⟨yearOfEra n + era * 400 + 1, month - 9, day⟩ := rfl

theorem toDays_ofDays (days : Int) : (ofDays days).toDays = days := by
  obtain ⟨hsplit, hn0, hn1⟩ := era_split days
  rw [ofDays_eq]
  generalize (days + 719468) / 146097 = era at *
  generalize (days + 719468) % 146097 = n at *
  obtain ⟨hy0, hy1⟩ := yearOfEra_bounds hn0 hn1
  obtain ⟨hd0, hd1⟩ := dayOfYear_bounds hn0 hn1
  obtain ⟨hm0, hm1, -, -⟩ := monthOf_bounds hd0 hd1
  have hday : dayOfYear n = n - (365 * yearOfEra n + yearOfEra n / 4 - yearOfEra n / 100) := rfl
  generalize dayOfYear n = day at *
  generalize monthOf day = month at *
  generalize yearOfEra n = y at *
  split
  · have hlate : ¬ month + 3 ≤ 2 := by omega
    have hmonth : (month + 3 + 9) % 12 = month := by omega
    have hyear : (y + era * 400) % 400 = y := by omega
    have hera : (y + era * 400) / 400 = era := by omega
    simp only [toDays, if_neg hlate, hmonth, hyear, hera]
    omega
  · have hearly : month - 9 ≤ 2 := by omega
    have hmonth : (month - 9 + 9) % 12 = month := by omega
    have hyear : (y + era * 400 + 1 - 1) % 400 = y := by omega
    have hera : (y + era * 400 + 1 - 1) / 400 = era := by omega
    simp only [toDays, if_pos hearly, hmonth, hyear, hera]
    omega

theorem isLeapYear_iff {year : Int} :
    isLeapYear year = true ↔ year % 4 = 0 ∧ (year % 100 = 0 → year % 400 = 0) := by
  by_cases hcentury : year % 100 = 0
  · simp [isLeapYear, hcentury]
  · simp [isLeapYear, hcentury]

theorem isValid_ofDays (days : Int) : (ofDays days).isValid = true := by
  obtain ⟨-, hn0, hn1⟩ := era_split days
  rw [ofDays_eq]
  generalize (days + 719468) / 146097 = era at *
  generalize (days + 719468) % 146097 = n at *
  obtain ⟨hd0, hd1⟩ := dayOfYear_bounds hn0 hn1
  obtain ⟨hm0, hm1, hfirst, hnext⟩ := monthOf_bounds hd0 hd1
  have hleap := leap_of_dayOfYear hn0 hn1
  generalize dayOfYear n = day at *
  generalize monthOf day = month at *
  generalize yearOfEra n = y at *
  split
  · simp only [isValid, daysInMonth, decide_eq_true_eq]
    refine ⟨by omega, by omega, by omega, ?_⟩
    split
    · omega
    · split <;> omega
  · simp only [isValid, daysInMonth, decide_eq_true_eq]
    refine ⟨by omega, by omega, by omega, ?_⟩
    split
    · split
      · omega
      · next hcommon =>
        -- the last day of the year exists in leap years only
        have hlast : day ≠ 365 := by
          intro hday
          obtain ⟨hfour, hcentury⟩ := hleap hday
          apply hcommon
          rw [isLeapYear_iff]
          omega
        omega
    · split <;> omega

theorem valid_ofDays (days : Int) :
    1 ≤ (ofDays days).month ∧ (ofDays days).month ≤ 12 ∧ 1 ≤ (ofDays days).day ∧
      (ofDays days).day ≤ 31 := by
  obtain ⟨hm1, hm12, hd1, hd31⟩ := of_decide_eq_true (isValid_ofDays days)
  refine ⟨hm1, hm12, hd1, Int.le_trans hd31 ?_⟩
  unfold daysInMonth
  split
  · split <;> omega
  · split <;> omega

/-- The years of the days from the first to the last that an instant can have. -/
theorem year_ofDays {days : Int} (hfirst : -96465292 ≤ days) (hlast : days ≤ 95026236) :
    -262143 ≤ (ofDays days).year ∧ (ofDays days).year ≤ 262142 := by
  obtain ⟨hsplit, hn0, hn1⟩ := era_split days
  rw [ofDays_eq]
  generalize (days + 719468) / 146097 = era at *
  generalize (days + 719468) % 146097 = n at *
  obtain ⟨hy0, hy1⟩ := yearOfEra_bounds hn0 hn1
  obtain ⟨hd0, hd1⟩ := dayOfYear_bounds hn0 hn1
  obtain ⟨hm0, hm1, hstart, hnext⟩ := monthOf_bounds hd0 hd1
  have hday : dayOfYear n = n - (365 * yearOfEra n + yearOfEra n / 4 - yearOfEra n / 100) := rfl
  generalize dayOfYear n = day at *
  generalize monthOf day = month at *
  generalize yearOfEra n = y at *
  -- only in the first and the last era the years of a whole era are too many
  rcases (by omega : era = -656 ∨ -655 ≤ era ∧ era ≤ 654 ∨ era = 655) with rfl | hera | rfl
  · have hlow : 256 ≤ y ∧ (y = 256 → 306 ≤ day) := by omega
    split <;> dsimp only <;> omega
  · split <;> dsimp only <;> omega
  · have hhigh : y ≤ 142 ∧ (y = 142 → day ≤ 305) := by omega
    split <;> dsimp only <;> omega

end CardClub.Date
