import FieldPost.Moment.Calendar

/-!
Day numbers and dates. Every day number has a date that exists, and that date has no
other day number, so a date that was written can be counted back. The years 0 to 9999 are the
dates with four digits.
-/

namespace FieldPost.Calendar

/-- A day of the 400 years as whole centuries, whole spans of four years, whole years and the days
left over. Only the last year of a span has a 366th day, and of the spans that end a century only
the last one. -/
structure CycleDay (day century span year ofYear : Int) : Prop where
  century_le : 0 ≤ century ∧ century ≤ 3
  span_le : 0 ≤ span ∧ span ≤ 24
  year_le : 0 ≤ year ∧ year ≤ 3
  ofYear_le : 0 ≤ ofYear ∧ ofYear ≤ 365
  leap : ofYear = 365 → year = 3 ∧ (span = 24 → century = 3)
  sum : day = 36524 * century + 1461 * span + 365 * year + ofYear

theorem cycle_day_exists (day : Int) (first : 0 ≤ day) (last : day < cycleDays) :
    ∃ century span year ofYear, CycleDay day century span year ofYear := by
  simp only [cycleDays] at last
  let century := day / 36524 - day / 146096
  let ofCentury := day - 36524 * century
  let ofSpan := ofCentury % 1461
  let year := ofSpan / 365 - ofSpan / 1460
  refine ⟨century, ofCentury / 1461, year, ofSpan - 365 * year, ?_, ?_, ?_, ?_, ?_, ?_⟩ <;>
    simp only [year, ofSpan, ofCentury, century] <;> omega

theorem CycleDay.year_of_cycle {day century span year ofYear : Int}
    (split : CycleDay day century span year ofYear) :
    yearOfCycle day = 100 * century + 4 * span + year := by
  rcases split with ⟨centuries, spans, years, days, leap, sum⟩
  have fourths : day / 1460 = 25 * century + span ∨
      day / 1460 = 25 * century + span + 1 ∧ 1364 ≤ 365 * year + ofYear := by omega
  have hundreds : day / 36524 = century ∨ day / 36524 = century + 1 ∧ day = 146096 := by omega
  have whole : day / 146096 = 0 ∧ day < 146096 ∨ day / 146096 = 1 ∧ day = 146096 := by omega
  unfold yearOfCycle
  omega

theorem CycleDay.days_before_year {day century span year ofYear : Int}
    (split : CycleDay day century span year ofYear) :
    daysBeforeYear (100 * century + 4 * span + year) =
      36524 * century + 1461 * span + 365 * year := by
  rcases split with ⟨centuries, spans, years, _, _, _⟩
  simp only [daysBeforeYear]
  omega

/-- The month of a year counted from March, and the day of that month. -/
theorem month_of_year_bounds (ofYear : Int) (first : 0 ≤ ofYear) (last : ofYear ≤ 365) :
    0 ≤ monthOfYear ofYear ∧ monthOfYear ofYear ≤ 11 ∧
      daysBeforeMonth (monthOfYear ofYear) ≤ ofYear ∧
      ofYear < daysBeforeMonth (monthOfYear ofYear + 1) := by
  simp only [monthOfYear, daysBeforeMonth]
  omega

/-- The date of a day number, from the parts of its day of the 400 years. -/
theorem date_of_split {days century span year ofYear : Int}
    (split : CycleDay ((days + epochShift) % cycleDays) century span year ofYear) :
    dateOfDays days =
      { year := 100 * century + 4 * span + year + (days + epochShift) / cycleDays * 400 +
          if monthOfYear ofYear < 10 then 0 else 1
        month := if monthOfYear ofYear < 10 then monthOfYear ofYear + 3
          else monthOfYear ofYear - 9
        day := ofYear - daysBeforeMonth (monthOfYear ofYear) + 1 } := by
  have ofCycle : (days + epochShift) % cycleDays -
      daysBeforeYear (100 * century + 4 * span + year) = ofYear := by
    rw [split.days_before_year, split.sum]
    omega
  have months := month_of_year_bounds ofYear split.ofYear_le.1 split.ofYear_le.2
  simp only [dateOfDays, split.year_of_cycle, ofCycle]
  by_cases early : monthOfYear ofYear < 10
  · have late : ¬ monthOfYear ofYear + 3 ≤ 2 := by omega
    simp [early, late]
  · have low : monthOfYear ofYear - 9 ≤ 2 := by omega
    simp [early, low]

theorem cycle_day_of (days : Int) : ∃ century span year ofYear,
    CycleDay ((days + epochShift) % cycleDays) century span year ofYear := by
  apply cycle_day_exists
  · exact Int.emod_nonneg _ (by decide)
  · exact Int.emod_lt_of_pos _ (by decide)

/-- Counting the days of a date back gives the day number that the date was made of. -/
theorem days_of_date_of_days (days : Int) : daysOfDate (dateOfDays days) = days := by
  obtain ⟨century, span, year, ofYear, split⟩ := cycle_day_of days
  have before := split.days_before_year
  have months := month_of_year_bounds ofYear split.ofYear_le.1 split.ofYear_le.2
  have divided := Int.emod_add_mul_ediv (days + epochShift) cycleDays
  rw [date_of_split split]
  rw [split.sum] at divided
  generalize (days + epochShift) / cycleDays = cycles at *
  generalize monthOfYear ofYear = month at *
  rcases split with ⟨centuries, spans, years, _, _, _⟩
  have ofMarch : (100 * century + 4 * span + year + cycles * 400) / 400 = cycles := by omega
  have ofCycle : (100 * century + 4 * span + year + cycles * 400) % 400 =
      100 * century + 4 * span + year := by omega
  simp only [cycleDays] at divided
  -- January and February are counted with the March before them.
  by_cases early : month < 10
  · have late : ¬ month + 3 ≤ 2 := by omega
    have named : month + 3 - 3 = month := by omega
    simp only [daysOfDate, if_pos early, if_neg late, Int.add_zero, named, ofMarch, ofCycle,
      before, cycleDays]
    omega
  · have low : month - 9 ≤ 2 := by omega
    have named : month - 9 + 9 = month := by omega
    have shifted : 100 * century + 4 * span + year + cycles * 400 + 1 - 1 =
        100 * century + 4 * span + year + cycles * 400 := by omega
    simp only [daysOfDate, if_neg early, if_pos low, shifted, named, ofMarch, ofCycle, before,
      cycleDays]
    omega

/-- The 366th day of a year that begins in March is the leap day of the year after. -/
theorem leap_year_of_long_year {century span year cycles : Int}
    (long : year = 3 ∧ (span = 24 → century = 3)) (spans : 0 ≤ span ∧ span ≤ 24) :
    isLeapYear (100 * century + 4 * span + year + cycles * 400 + 1) = true := by
  rcases long with ⟨rfl, hundreds⟩
  simp only [isLeapYear, Bool.and_eq_true, Bool.or_eq_true, beq_iff_eq, bne_iff_ne, ne_eq]
  omega

theorem exists_iff (date : Date) : date.exists = true ↔
    1 ≤ date.month ∧ date.month ≤ 12 ∧ 1 ≤ date.day ∧
      date.day ≤ daysInMonth date.year date.month := by
  simp only [Date.exists, Bool.and_eq_true, decide_eq_true_eq, and_assoc]

theorem date_of_days_exists (days : Int) : (dateOfDays days).exists = true := by
  obtain ⟨century, span, year, ofYear, split⟩ := cycle_day_of days
  have months := month_of_year_bounds ofYear split.ofYear_le.1 split.ofYear_le.2
  rw [date_of_split split, exists_iff]
  rcases split with ⟨_, spans, _, days, leap, _⟩
  generalize (_ + epochShift) / cycleDays = cycles
  have long : ofYear = 365 →
      isLeapYear (100 * century + 4 * span + year + cycles * 400 + 1) = true :=
    fun last => leap_year_of_long_year (leap last) spans
  generalize monthOfYear ofYear = month at *
  simp only [daysBeforeMonth] at months
  simp only [daysInMonth, daysBeforeMonth]
  by_cases early : month < 10
  · simp only [if_pos early, Int.add_zero]
    have notFebruary : month + 3 ≠ 2 := by omega
    simp only [if_neg notFebruary]
    split <;> omega
  · simp only [if_neg early]
    by_cases february : month - 9 = 2
    · simp only [if_pos february]
      by_cases last : ofYear = 365
      · simp only [long last, if_true]
        omega
      · split <;> omega
    · simp only [if_neg february]
      have long : ¬ (month - 9 = 4 ∨ month - 9 = 6 ∨ month - 9 = 9 ∨ month - 9 = 11) := by omega
      simp only [if_neg long]
      omega

/-- The bounds are the day numbers of 1 January of year 0 and of the first day after year 9999. -/
theorem four_digit_year_iff (days : Int) :
    0 ≤ (dateOfDays days).year ∧ (dateOfDays days).year ≤ 9999 ↔
      -719528 ≤ days ∧ days < 2932897 := by
  obtain ⟨century, span, year, ofYear, split⟩ := cycle_day_of days
  have months : monthOfYear ofYear < 10 ↔ ofYear < 306 := by
    simp only [monthOfYear]
    omega
  have divided := Int.emod_add_mul_ediv (days + epochShift) cycleDays
  rw [date_of_split split]
  rw [split.sum] at divided
  generalize (days + epochShift) / cycleDays = cycles at *
  rcases split with ⟨centuries, spans, years, days, _, _⟩
  simp only [epochShift, cycleDays] at divided
  by_cases early : ofYear < 306
  · have fromFirst : 0 ≤ 100 * century + 4 * span + year + cycles * 400 ↔ 0 ≤ cycles := by omega
    have upToLast : 100 * century + 4 * span + year + cycles * 400 ≤ 9999 ↔ cycles ≤ 24 := by
      omega
    simp only [months, if_pos early, Int.add_zero, fromFirst, upToLast]
    omega
  · simp only [months, if_neg early]
    omega

end FieldPost.Calendar
