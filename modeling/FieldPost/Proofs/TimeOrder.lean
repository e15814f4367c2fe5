import FieldPost.Proofs.Latest
import FieldPost.Proofs.TimeText

/-!
The order of times in their texts. Within the years 0 to 9999 the text of the earlier time comes
first, also where one of the two has a fraction of a second or lies in a leap second. So what the
tables put in the order of texts is in the order of time. Nothing of this holds for other years.
-/

namespace FieldPost

namespace Calendar

/-- Earlier by the year, then by the month, then by the day. -/
def Date.Precedes (early late : Date) : Prop :=
  early.year < late.year ∨ early.year = late.year ∧
    (early.month < late.month ∨ early.month = late.month ∧ early.day < late.day)

/-- The years that are counted from March, and the days within them. -/
theorem march_years_of_lt {cycles century span year ofYear : Int}
    {otherCycles otherCentury otherSpan otherYear otherOfYear early late : Int}
    (split : CycleDay early century span year ofYear)
    (other : CycleDay late otherCentury otherSpan otherYear otherOfYear)
    (before : early + cycleDays * cycles < late + cycleDays * otherCycles) :
    100 * century + 4 * span + year + cycles * 400 <
        100 * otherCentury + 4 * otherSpan + otherYear + otherCycles * 400 ∨
      100 * century + 4 * span + year + cycles * 400 =
          100 * otherCentury + 4 * otherSpan + otherYear + otherCycles * 400 ∧
        ofYear < otherOfYear := by
  rcases split with ⟨centuries, spans, years, days, leap, rfl⟩
  rcases other with ⟨otherCenturies, otherSpans, otherYears, otherDays, otherLeap, rfl⟩
  simp only [cycleDays] at before
  rcases Int.lt_trichotomy cycles otherCycles with less | rfl | greater
  · omega
  · rcases Int.lt_trichotomy century otherCentury with less | rfl | greater
    · omega
    · rcases Int.lt_trichotomy span otherSpan with less | rfl | greater
      · omega
      · omega
      · omega
    · omega
  · omega

theorem date_precedes_of_lt {early late : Int} (before : early < late) :
    (dateOfDays early).Precedes (dateOfDays late) := by
  obtain ⟨century, span, year, ofYear, split⟩ := cycle_day_of early
  obtain ⟨otherCentury, otherSpan, otherYear, otherOfYear, other⟩ := cycle_day_of late
  have divided := Int.emod_add_mul_ediv (early + epochShift) cycleDays
  have otherDivided := Int.emod_add_mul_ediv (late + epochShift) cycleDays
  have years := march_years_of_lt split other (by rw [divided, otherDivided]; omega)
  rw [date_of_split split, date_of_split other]
  have days := split.ofYear_le
  have otherDays := other.ofYear_le
  generalize (early + epochShift) / cycleDays = cycles at *
  generalize (late + epochShift) / cycleDays = otherCycles at *
  generalize 100 * century + 4 * span + year + cycles * 400 = march at *
  generalize 100 * otherCentury + 4 * otherSpan + otherYear + otherCycles * 400 = otherMarch at *
  unfold Date.Precedes
  simp only [monthOfYear, daysBeforeMonth]
  omega

end Calendar

namespace Rfc3339

open FieldPost.Calendar FieldPost.Text

/-! ### Digits -/

theorem code_of_digit {char : Char} (digit : char.isDigit = true) :
    '0'.toNat ≤ char.toNat ∧ char.toNat ≤ '9'.toNat := by
  simp only [Char.isDigit, Bool.and_eq_true, decide_eq_true_eq] at digit
  exact digit

theorem char_lt_iff (left right : Char) : left < right ↔ left.toNat < right.toNat := Iff.rfl

theorem value_lt (digits : List Char) (all : ∀ char ∈ digits, char.isDigit = true) :
    Nat.ofDigitChars 10 digits 0 < 10 ^ digits.length := by
  induction digits with
  | nil => decide
  | cons char rest induction =>
      have below := induction fun other member => all other (List.mem_cons_of_mem _ member)
      have code := code_of_digit (all char List.mem_cons_self)
      simp only [Char.reduceToNat] at code
      rw [Nat.ofDigitChars_cons, Nat.ofDigitChars_eq_ofDigitChars_zero, List.length_cons]
      simp only [Char.reduceToNat]
      have bound : 10 * 0 + (char.toNat - 48) ≤ 9 := by omega
      have scaled := Nat.mul_le_mul_left (10 ^ rest.length) bound
      rw [Nat.pow_succ]
      omega

/-- Of two numbers with as many digits the smaller one has the smaller text. -/
theorem digits_lt_of_value_lt {left right : List Char} (same : left.length = right.length)
    (left_digits : ∀ char ∈ left, char.isDigit = true)
    (right_digits : ∀ char ∈ right, char.isDigit = true)
    (less : Nat.ofDigitChars 10 left 0 < Nat.ofDigitChars 10 right 0) : left < right := by
  induction left generalizing right with
  | nil =>
      rw [List.length_eq_zero_iff.mp same.symm] at less
      exact absurd less (Nat.lt_irrefl _)
  | cons first rest induction =>
      cases right with
      | nil => cases same
      | cons other others =>
          have rest_digits : ∀ char ∈ rest, char.isDigit = true := fun char member =>
            left_digits char (List.mem_cons_of_mem _ member)
          have others_digits : ∀ char ∈ others, char.isDigit = true := fun char member =>
            right_digits char (List.mem_cons_of_mem _ member)
          have lengths : rest.length = others.length := Nat.succ.inj same
          have first_code := code_of_digit (left_digits first List.mem_cons_self)
          have other_code := code_of_digit (right_digits other List.mem_cons_self)
          have bound := value_lt others others_digits
          simp only [Nat.ofDigitChars_cons] at less
          rw [Nat.ofDigitChars_eq_ofDigitChars_zero (l := rest),
            Nat.ofDigitChars_eq_ofDigitChars_zero (l := others), lengths] at less
          apply List.cons_lt_cons_iff.mpr
          rw [char_lt_iff]
          rcases Nat.lt_trichotomy first.toNat other.toNat with smaller | equal | greater
          · exact .inl smaller
          · right
            have digit : first = other := Char.toNat_inj.mp equal
            refine ⟨digit, induction lengths rest_digits others_digits ?_⟩
            rw [digit] at less
            omega
          · exfalso
            have step : 10 * 0 + (other.toNat - '0'.toNat) + 1 ≤ 10 * 0 + (first.toNat - '0'.toNat) := by
              omega
            have scaled := Nat.mul_le_mul_left (10 ^ others.length) step
            rw [Nat.mul_add, Nat.mul_one] at scaled
            omega

/-- Texts whose first parts have one length are ordered by these, and by the rest then. -/
theorem append_lt_append {left right : List Char} (same : left.length = right.length)
    (less : left < right) (rest others : List Char) : left ++ rest < right ++ others := by
  induction left generalizing right with
  | nil =>
      rw [List.length_eq_zero_iff.mp same.symm] at less
      exact absurd less (List.not_lt_nil [])
  | cons first tail induction =>
      cases right with
      | nil => cases same
      | cons other others_tail =>
          rw [List.cons_append, List.cons_append]
          apply List.cons_lt_cons_iff.mpr
          rcases List.cons_lt_cons_iff.mp less with smaller | ⟨equal, later⟩
          · exact .inl smaller
          · exact .inr ⟨equal, induction (Nat.succ.inj same) later⟩

/-- A padded number decides, and where it is the same what follows it. -/
theorem padded_then_lt {width left right : Nat} (positive : 0 < width) (left_fits : left < 10 ^ width)
    (right_fits : right < 10 ^ width) {rest others : List Char}
    (less : left < right ∨ left = right ∧ rest < others) :
    (Numeral.padded width left).toList ++ rest < (Numeral.padded width right).toList ++ others := by
  rcases less with smaller | ⟨rfl, later⟩
  · have lengths := (padded_length positive left_fits).trans (padded_length positive right_fits).symm
    apply append_lt_append lengths
    apply digits_lt_of_value_lt lengths (padded_all_digits width left)
      (padded_all_digits width right)
    rw [padded_value, padded_value]
    exact smaller
  · exact List.append_left_lt later

theorem padded_then_mark_lt {width left right : Nat} (positive : 0 < width)
    (left_fits : left < 10 ^ width) (right_fits : right < 10 ^ width) {mark : Char}
    {rest others : List Char} (less : left < right ∨ left = right ∧ rest < others) :
    (Numeral.padded width left).toList ++ mark :: rest <
      (Numeral.padded width right).toList ++ mark :: others := by
  apply padded_then_lt positive left_fits right_fits
  exact less.imp_right fun later =>
    ⟨later.1, List.cons_lt_cons_iff.mpr (.inr ⟨rfl, later.2⟩)⟩

/-! ### Fractions -/

theorem zeros_first (digits : List Char) (all : ∀ char ∈ digits, char.isDigit = true) :
    ¬ digits < List.replicate digits.length '0' := by
  induction digits with
  | nil => exact List.not_lt_nil []
  | cons char rest induction =>
      have code := code_of_digit (all char List.mem_cons_self)
      rw [List.length_cons, List.replicate_succ]
      intro less
      rcases List.cons_lt_cons_iff.mp less with smaller | ⟨_, later⟩
      · rw [char_lt_iff] at smaller
        omega
      · exact induction (fun other member => all other (List.mem_cons_of_mem _ member)) later

/-- Zeros behind a fraction may be left out when a sign follows, for a sign comes before every
digit. -/
theorem stripped_lt {left right : List Char} {leftZeros rightZeros : Nat}
    (same : left.length + leftZeros = right.length + rightZeros)
    (left_digits : ∀ char ∈ left, char.isDigit = true)
    (right_digits : ∀ char ∈ right, char.isDigit = true)
    (less : left ++ List.replicate leftZeros '0' < right ++ List.replicate rightZeros '0')
    (rest others : List Char) : left ++ '+' :: rest < right ++ '+' :: others := by
  induction left generalizing right with
  | nil =>
      cases right with
      | nil =>
          rw [List.length_nil, Nat.zero_add, Nat.zero_add] at same
          rw [same] at less
          exact absurd less (List.lt_irrefl _)
      | cons other tail =>
          have code := code_of_digit (right_digits other List.mem_cons_self)
          apply List.cons_lt_cons_iff.mpr
          left
          rw [char_lt_iff]
          simp only [Char.reduceToNat] at code ⊢
          omega
  | cons first tail induction =>
      cases right with
      | nil =>
          exfalso
          have zeros : rightZeros = (first :: tail ++ List.replicate leftZeros '0').length := by
            rw [List.length_append, List.length_replicate, same, List.length_nil, Nat.zero_add]
          rw [List.nil_append, zeros] at less
          apply zeros_first _ _ less
          intro char member
          rcases List.mem_append.mp member with digit | zero
          · exact left_digits char digit
          · rw [List.eq_of_mem_replicate zero]
            rfl
      | cons other others_tail =>
          rw [List.cons_append, List.cons_append] at less ⊢
          apply List.cons_lt_cons_iff.mpr
          rcases List.cons_lt_cons_iff.mp less with smaller | ⟨equal, later⟩
          · exact .inl smaller
          · right
            rw [List.length_cons, List.length_cons] at same
            refine ⟨equal, induction (by omega) ?_ ?_ later⟩
            · exact fun char member => left_digits char (List.mem_cons_of_mem _ member)
            · exact fun char member => right_digits char (List.mem_cons_of_mem _ member)

/-- What is written of a fraction is its nine digits without some of the zeros behind them. -/
theorem fraction_digits {nanos : Nat} (fits : nanos < 1000000000) (some : nanos ≠ 0) :
    ∃ digits zeros, (writeFraction nanos).toList = '.' :: digits ∧
      (∀ char ∈ digits, char.isDigit = true) ∧ digits.length + zeros = 9 ∧
      Nat.ofDigitChars 10 (digits ++ List.replicate zeros '0') 0 = nanos := by
  have point : ".".toList = ['.'] := rfl
  have shown : ∃ width zeros, 0 < width ∧ width + zeros = 9 ∧
      10 ^ zeros * (nanos / 10 ^ zeros) = nanos ∧ nanos / 10 ^ zeros < 10 ^ width ∧
      (writeFraction nanos).toList =
        '.' :: (Numeral.padded width (nanos / 10 ^ zeros)).toList := by
    unfold writeFraction
    rw [if_neg some]
    split
    · exact ⟨3, 6, by decide, rfl, by omega, by omega, by
        rw [String.toList_append, point, List.singleton_append]; rfl⟩
    · split
      · exact ⟨6, 3, by decide, rfl, by omega, by omega, by
          rw [String.toList_append, point, List.singleton_append]; rfl⟩
      · exact ⟨9, 0, by decide, rfl, by omega, by omega, by
          rw [String.toList_append, point, List.singleton_append, Nat.pow_zero, Nat.div_one]⟩
  obtain ⟨width, zeros, positive, nine, whole, small, text⟩ := shown
  refine ⟨_, zeros, text, padded_all_digits _ _, ?_, ?_⟩
  · rw [padded_length positive small]
    exact nine
  · rw [Nat.ofDigitChars_append, padded_value, Nat.ofDigitChars_replicate_zero]
    exact whole

theorem fraction_lt {left right : Nat} (fits : right < 1000000000) (less : left < right)
    (rest others : List Char) :
    (writeFraction left).toList ++ '+' :: rest < (writeFraction right).toList ++ '+' :: others := by
  obtain ⟨digits, zeros, text, all, nine, value⟩ :=
    fraction_digits fits (Nat.ne_zero_of_lt less)
  rw [text]
  by_cases none : left = 0
  · have empty : (writeFraction left).toList = [] := by
      rw [none]
      rfl
    rw [empty]
    exact List.cons_lt_cons_iff.mpr (.inl (by decide))
  · obtain ⟨others_digits, others_zeros, others_text, others_all, others_nine, others_value⟩ :=
      fraction_digits (Nat.lt_trans less fits) none
    rw [others_text]
    apply List.cons_lt_cons_iff.mpr
    refine .inr ⟨rfl, stripped_lt (others_nine.trans nine.symm) others_all all ?_ rest others⟩
    have filled : ∀ (digits : List Char) (zeros : Nat), (∀ char ∈ digits, char.isDigit = true) →
        ∀ char ∈ digits ++ List.replicate zeros '0', char.isDigit = true := by
      intro digits zeros all char member
      rcases List.mem_append.mp member with digit | zero
      · exact all char digit
      · rw [List.eq_of_mem_replicate zero]
        rfl
    apply digits_lt_of_value_lt _ (filled _ _ others_all) (filled _ _ all)
    · rw [others_value, value]
      exact less
    · rw [List.length_append, List.length_append, List.length_replicate, List.length_replicate]
      omega

/-! ### Times -/

theorem day_le (days : Int) : (dateOfDays days).day ≤ 31 := by
  have month := ((exists_iff _).mp (date_of_days_exists days)).2.2.2
  simp only [daysInMonth] at month
  split at month <;> try split at month
  all_goals omega

/-- The parts of the earlier time that are written come first, each after the ones before it. -/
theorem parts_precede {left right : Moment} (before : left.before right = true) :
    (dateOfDays (left.seconds / 86400)).Precedes (dateOfDays (right.seconds / 86400)) ∨
    left.seconds / 86400 = right.seconds / 86400 ∧
      ((left.seconds % 86400).toNat / 3600 < (right.seconds % 86400).toNat / 3600 ∨
      (left.seconds % 86400).toNat / 3600 = (right.seconds % 86400).toNat / 3600 ∧
        ((left.seconds % 86400).toNat / 60 % 60 < (right.seconds % 86400).toNat / 60 % 60 ∨
        (left.seconds % 86400).toNat / 60 % 60 = (right.seconds % 86400).toNat / 60 % 60 ∧
          (writtenSecond left < writtenSecond right ∨
          writtenSecond left = writtenSecond right ∧
            left.nanos % 1000000000 < right.nanos % 1000000000))) := by
  rw [Moment.before_iff] at before
  by_cases earlier : left.seconds / 86400 < right.seconds / 86400
  · exact .inl (date_precedes_of_lt earlier)
  · right
    have left_second := written_second_leap left
    have right_second := written_second_leap right
    have left_small := left.nanos_lt
    have right_small := right.nanos_lt
    omega

/-- Within the years 0 to 9999 the earlier time has the earlier text. -/
theorem write_lt_of_before {left right : Moment} (left_common : left.InFourDigitYears)
    (right_common : right.InFourDigitYears) (before : left.before right = true) :
    write left < write right := by
  have left_year := left_common.year
  have right_year := right_common.year
  have left_date := (exists_iff _).mp (date_of_days_exists (left.seconds / 86400))
  have right_date := (exists_iff _).mp (date_of_days_exists (right.seconds / 86400))
  have left_day := day_le (left.seconds / 86400)
  have right_day := day_le (right.seconds / 86400)
  have left_second := written_second_leap left
  have right_second := written_second_leap right
  have offset : "+00:00".toList = '+' :: "00:00".toList := rfl
  rw [String.lt_iff, write_chars left left_common, write_chars right right_common, offset]
  apply padded_then_mark_lt (by decide) (by omega) (by omega)
  rcases parts_precede before with (year | ⟨year, month | ⟨month, day⟩⟩) | ⟨sameDay, clock⟩
  · exact .inl (by omega)
  · exact .inr ⟨by rw [year], padded_then_mark_lt (by decide) (by omega) (by omega)
      (.inl (by omega))⟩
  · refine .inr ⟨by rw [year], padded_then_mark_lt (by decide) (by omega) (by omega)
      (.inr ⟨by rw [month], ?_⟩)⟩
    exact padded_then_mark_lt (by decide) (by omega) (by omega) (.inl (by omega))
  · -- On one day the hours, minutes and seconds decide, and then the fraction does.
    rw [sameDay]
    refine .inr ⟨rfl, padded_then_mark_lt (by decide) (by omega) (by omega) (.inr ⟨rfl, ?_⟩)⟩
    apply padded_then_mark_lt (by decide) (by omega) (by omega)
    refine .inr ⟨rfl, padded_then_mark_lt (by decide) (by omega) (by omega) ?_⟩
    apply clock.imp_right
    apply And.imp_right
    intro minutes
    apply padded_then_mark_lt (by decide) (by omega) (by omega)
    apply minutes.imp_right
    apply And.imp_right
    intro seconds
    apply padded_then_lt (by decide) (by omega) (by omega)
    apply seconds.imp_right
    apply And.imp_right
    intro nanos
    exact fraction_lt (Nat.mod_lt _ (by decide)) nanos _ _

/-- Within the years 0 to 9999 texts are in the order of their times. -/
theorem write_lt_iff {left right : Moment} (left_common : left.InFourDigitYears)
    (right_common : right.InFourDigitYears) :
    write left < write right ↔ left.before right = true := by
  constructor
  · intro less
    rcases Moment.before_total left right with same | before | after
    · rw [same] at less
      exact absurd less (String.lt_irrefl _)
    · exact before
    · have greater := write_lt_of_before right_common left_common after
      exact absurd (String.lt_trans less greater) (String.lt_irrefl _)
  · exact write_lt_of_before left_common right_common

theorem write_injective {left right : Moment} (left_common : left.InFourDigitYears)
    (right_common : right.InFourDigitYears) (same : write left = write right) : left = right := by
  have read := read_write left left_common
  rw [same, read_write right right_common] at read
  exact (Except.ok.inj read).symm

end Rfc3339

end FieldPost
