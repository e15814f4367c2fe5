import FieldPost.Moment.Rfc3339
import FieldPost.Proofs.Calendar
import Mathlib.Algebra.Group.Nat.Defs

/-!
Times as texts. A time of the years 0 to 9999 is read back from its text as the same
time, to the nanosecond and within leap seconds. The texts of all other years begin with a sign
and are not read.
-/

namespace FieldPost

/-- Within the years 0 to 9999. -/
def Moment.InFourDigitYears (moment : Moment) : Prop :=
  -62167219200 ≤ moment.seconds ∧ moment.seconds < 253402300800

theorem Moment.year_iff (moment : Moment) :
    0 ≤ (Calendar.dateOfDays (moment.seconds / 86400)).year ∧
        (Calendar.dateOfDays (moment.seconds / 86400)).year ≤ 9999 ↔ moment.InFourDigitYears := by
  have bounds := Calendar.four_digit_year_iff (moment.seconds / 86400)
  rw [bounds]
  unfold InFourDigitYears
  omega

theorem Moment.InFourDigitYears.year {moment : Moment} (common : moment.InFourDigitYears) :
    0 ≤ (Calendar.dateOfDays (moment.seconds / 86400)).year ∧
      (Calendar.dateOfDays (moment.seconds / 86400)).year ≤ 9999 :=
  moment.year_iff.mpr common

/-- So many readings of this clock, one after the other, are within the years 0 to 9999. -/
def Moment.ReadsFourDigitYears (clock : Moment) (readings : Nat) : Prop :=
  -62167219200 ≤ clock.seconds ∧ clock.seconds + readings < 253402300800

theorem Moment.ReadsFourDigitYears.now {clock : Moment} {readings : Nat}
    (reads : clock.ReadsFourDigitYears (readings + 1)) : clock.InFourDigitYears := by
  rcases reads with ⟨low, high⟩
  exact ⟨low, by omega⟩

theorem Moment.ReadsFourDigitYears.fewer {clock : Moment} {readings fewer : Nat}
    (reads : clock.ReadsFourDigitYears readings) (few : fewer ≤ readings) :
    clock.ReadsFourDigitYears fewer := by
  rcases reads with ⟨low, high⟩
  exact ⟨low, by omega⟩

theorem Moment.ReadsFourDigitYears.later {clock : Moment} {readings : Nat}
    (reads : clock.ReadsFourDigitYears (readings + 1)) :
    clock.succMicro.ReadsFourDigitYears readings := by
  rcases reads with ⟨low, high⟩
  unfold Moment.succMicro
  split
  · exact ⟨low, by dsimp only; omega⟩
  · exact ⟨by simp only [Moment.ofSeconds]; omega, by simp only [Moment.ofSeconds]; omega⟩

namespace Rfc3339

open FieldPost.Calendar FieldPost.Text

theorem digit_of_isDigit {char : Char} (digit : char.isDigit = true) :
    Numeral.digit? 10 char = some (char.toNat - '0'.toNat) := by
  have bounds : '0' ≤ char ∧ char ≤ '9' := by
    simp only [Char.isDigit, Bool.and_eq_true, decide_eq_true_eq] at digit
    exact digit
  have high : char.toNat ≤ 57 := bounds.2
  have small : char.toNat - '0'.toNat < 10 := by
    simp only [Char.reduceToNat]
    omega
  simp only [Numeral.digit?, if_pos bounds]
  rw [Option.filter_some_pos (by simpa using small)]

theorem read_digits_append (digits rest : List Char) (value : Nat)
    (all : ∀ char ∈ digits, char.isDigit = true) :
    readDigits digits.length value (digits ++ rest) =
      .ok (Nat.ofDigitChars 10 digits value, rest) := by
  induction digits generalizing value with
  | nil => simp [readDigits]
  | cons char digits induction =>
      have later := induction (10 * value + (char.toNat - '0'.toNat))
        (fun other member => all other (List.mem_cons_of_mem _ member))
      simp only [List.length_cons, List.cons_append, readDigits,
        digit_of_isDigit (all char (by simp)), Nat.ofDigitChars_cons]
      rw [Nat.mul_comm value 10]
      exact later

theorem padded_digits (width value : Nat) :
    (Numeral.padded width value).toList =
      List.replicate (width - (Nat.toDigits 10 value).length) '0' ++ Nat.toDigits 10 value := by
  simp [Numeral.padded, Nat.repr_eq_ofList_toDigits]

theorem padded_all_digits (width value : Nat) :
    ∀ char ∈ (Numeral.padded width value).toList, char.isDigit = true := by
  intro char member
  rw [padded_digits, List.mem_append] at member
  rcases member with zero | digit
  · rw [List.eq_of_mem_replicate zero]
    rfl
  · exact Nat.isDigit_of_mem_toDigits (by decide) (by decide) digit

theorem padded_length {width value : Nat} (positive : 0 < width) (fits : value < 10 ^ width) :
    (Numeral.padded width value).toList.length = width := by
  have short := (Nat.length_toDigits_le_iff (b := 10) (by decide) positive).mpr fits
  rw [padded_digits, List.length_append, List.length_replicate]
  omega

theorem le_padded_length (width value : Nat) :
    width ≤ (Numeral.padded width value).toList.length := by
  rw [padded_digits, List.length_append, List.length_replicate]
  omega

theorem padded_value (width value : Nat) :
    Nat.ofDigitChars 10 (Numeral.padded width value).toList 0 = value := by
  rw [padded_digits, Nat.ofDigitChars_append]
  simp

theorem read_padded {width value : Nat} (positive : 0 < width) (fits : value < 10 ^ width)
    (rest : List Char) :
    readDigits width 0 ((Numeral.padded width value).toList ++ rest) = .ok (value, rest) := by
  have read := read_digits_append (Numeral.padded width value).toList rest 0
    (padded_all_digits width value)
  rwa [padded_length positive fits, padded_value] at read

/-- Zeros behind a padded number multiply it. -/
theorem read_padded_zeros {width value : Nat} (zeros : Nat) (positive : 0 < width)
    (fits : value < 10 ^ width) :
    readDigits (width + zeros) 0
        ((Numeral.padded width value).toList ++ List.replicate zeros '0') =
      .ok (10 ^ zeros * value, []) := by
  have read := read_digits_append
    ((Numeral.padded width value).toList ++ List.replicate zeros '0') [] 0 (by
      intro char member
      rcases List.mem_append.mp member with digit | zero
      · exact padded_all_digits width value char digit
      · rw [List.eq_of_mem_replicate zero]
        rfl)
  rwa [List.append_nil, List.length_append, padded_length positive fits, List.length_replicate,
    Nat.ofDigitChars_append, padded_value, Nat.ofDigitChars_replicate_zero] at read

/-- A fraction with so many digits is read as nanoseconds, up to the sign of the offset. -/
theorem read_fraction_digits (width zeros value : Nat) (positive : 0 < width)
    (nine : width + zeros = 9) (fits : value < 10 ^ width) (rest : List Char) :
    readFraction ('.' :: ((Numeral.padded width value).toList ++ '+' :: rest)) =
      .ok (10 ^ zeros * value, '+' :: rest) := by
  have length := padded_length positive fits
  have digits : ((Numeral.padded width value).toList ++ '+' :: rest).takeWhile
      (fun char => (Numeral.digit? 10 char).isSome) = (Numeral.padded width value).toList := by
    rw [List.takeWhile_append_of_pos]
    · simp [Numeral.digit?]
    · intro char member
      rw [digit_of_isDigit (padded_all_digits width value char member)]
      rfl
  have filled : ((Numeral.padded width value).toList ++ List.replicate 9 '0').take 9 =
      (Numeral.padded width value).toList ++ List.replicate zeros '0' := by
    rw [List.take_append, length, List.take_of_length_le (by omega), List.take_replicate,
      show min (9 - width) 9 = zeros by omega]
  have read := read_padded_zeros zeros positive fits
  rw [nine] at read
  have some : (Numeral.padded width value).toList.isEmpty = false := by
    rw [← length] at positive
    simpa [List.isEmpty_eq_false_iff] using List.length_pos_iff.mp positive
  have dropped : ((Numeral.padded width value).toList ++ '+' :: rest).drop
      (Numeral.padded width value).toList.length = '+' :: rest := List.drop_left
  unfold readFraction
  simp only [digits, some, filled, read, dropped, Bool.false_eq_true, if_false, Except.map]

theorem read_fraction (nanos : Nat) (fits : nanos < 1000000000) (rest : List Char) :
    readFraction ((writeFraction nanos).toList ++ '+' :: rest) = .ok (nanos, '+' :: rest) := by
  by_cases none : nanos = 0
  · subst none
    rfl
  by_cases thousandths : nanos % 1000000 = 0
  · have read := read_fraction_digits 3 6 (nanos / 1000000) (by decide) rfl (by omega) rest
    rw [show 10 ^ 6 * (nanos / 1000000) = nanos by omega] at read
    simpa [writeFraction, none, thousandths] using read
  by_cases millionths : nanos % 1000 = 0
  · have read := read_fraction_digits 6 3 (nanos / 1000) (by decide) rfl (by omega) rest
    rw [show 10 ^ 3 * (nanos / 1000) = nanos by omega] at read
    simpa [writeFraction, none, thousandths, millionths] using read
  · have read := read_fraction_digits 9 0 nanos (by decide) rfl fits rest
    rw [show 10 ^ 0 * nanos = nanos by omega] at read
    simpa [writeFraction, none, thousandths, millionths] using read

def writtenSecond (moment : Moment) : Nat :=
  (moment.seconds % 86400).toNat % 60 + if 1000000000 ≤ moment.nanos then 1 else 0

theorem write_chars (moment : Moment) (common : moment.InFourDigitYears) :
    (write moment).toList =
      (Numeral.padded 4 (dateOfDays (moment.seconds / 86400)).year.toNat).toList ++ '-' ::
      ((Numeral.padded 2 (dateOfDays (moment.seconds / 86400)).month.toNat).toList ++ '-' ::
      ((Numeral.padded 2 (dateOfDays (moment.seconds / 86400)).day.toNat).toList ++ 'T' ::
      ((Numeral.padded 2 ((moment.seconds % 86400).toNat / 3600)).toList ++ ':' ::
      ((Numeral.padded 2 ((moment.seconds % 86400).toNat / 60 % 60)).toList ++ ':' ::
      ((Numeral.padded 2 (writtenSecond moment)).toList ++
      ((writeFraction (moment.nanos % 1000000000)).toList ++ "+00:00".toList)))))) := by
  have year := common.year
  have dash : "-".toList = ['-'] := rfl
  have tee : "T".toList = ['T'] := rfl
  have colon : ":".toList = [':'] := rfl
  simp only [write, writeYear, if_pos year, writtenSecond, String.toList_append,
    List.append_assoc, dash, tee, colon, List.cons_append, List.nil_append]

theorem read_mark {allowed : List Char} {char : Char} (member : allowed.contains char = true)
    (rest : List Char) : readMark allowed (char :: rest) = .ok rest := by
  simp only [readMark, member, if_true]

/-- A leap second is written as the sixtieth second of its minute, and no other second is. -/
theorem written_second_leap (moment : Moment) :
    writtenSecond moment = 60 ∧ (moment.seconds % 86400).toNat % 60 = 59 ∧
        1000000000 ≤ moment.nanos ∨
      writtenSecond moment = (moment.seconds % 86400).toNat % 60 ∧
        writtenSecond moment < 60 ∧ moment.nanos < 1000000000 := by
  by_cases leap : 1000000000 ≤ moment.nanos
  · have last := moment.leap_at_minute_end leap
    left
    simp only [writtenSecond, if_pos leap]
    omega
  · right
    simp only [writtenSecond, if_neg leap]
    omega

/-- The parts that are written make up the time again. -/
theorem parts_of_written (moment : Moment) :
    Moment.ofParts?
        (moment.seconds / 86400 * 86400 +
            (((moment.seconds % 86400).toNat / 3600 : Nat) * 3600 +
              ((moment.seconds % 86400).toNat / 60 % 60 : Nat) * 60 +
              ((if writtenSecond moment = 60 then 59 else writtenSecond moment : Nat) : Int)) - 0)
        (moment.nanos % 1000000000 + if writtenSecond moment = 60 then 1000000000 else 0) =
      some moment := by
  have small := moment.nanos_lt
  have seconds : moment.seconds / 86400 * 86400 +
      (((moment.seconds % 86400).toNat / 3600 : Nat) * 3600 +
        ((moment.seconds % 86400).toNat / 60 % 60 : Nat) * 60 +
        ((if writtenSecond moment = 60 then 59 else writtenSecond moment : Nat) : Int)) - 0 =
      moment.seconds := by
    rcases written_second_leap moment with ⟨written, last, _⟩ | ⟨written, below, _⟩
    · simp only [written, if_true]
      omega
    · rw [if_neg (by omega), written]
      omega
  have nanos : moment.nanos % 1000000000 +
      (if writtenSecond moment = 60 then 1000000000 else 0) = moment.nanos := by
    rcases written_second_leap moment with ⟨written, _, leap⟩ | ⟨_, below, noLeap⟩
    · rw [if_pos written]
      omega
    · rw [if_neg (by omega)]
      omega
  rw [seconds, nanos]
  simp only [Moment.ofParts?, dif_pos small, dif_pos moment.leap_at_minute_end]

theorem read_offset_utc : readOffset "+00:00".toList = .ok (0, []) := rfl

theorem write_long_enough (moment : Moment) (common : moment.InFourDigitYears) :
    19 ≤ (Utf8.encode (write moment)).length := by
  have chars := congrArg List.length (write_chars moment common)
  have encoded := Utf8.length_le_encodeChars (write moment).toList
  have offset : "+00:00".toList.length = 6 := rfl
  have wide := le_padded_length 4 (dateOfDays (moment.seconds / 86400)).year.toNat
  have narrow := le_padded_length 2
  have month := narrow (dateOfDays (moment.seconds / 86400)).month.toNat
  have day := narrow (dateOfDays (moment.seconds / 86400)).day.toNat
  have hour := narrow ((moment.seconds % 86400).toNat / 3600)
  simp only [List.length_append, List.length_cons, offset] at chars
  simp only [Utf8.encode]
  omega

/-- A time with a four-digit year is read back from its text. -/
theorem read_write (moment : Moment) (common : moment.InFourDigitYears) :
    read (write moment) = .ok moment := by
  have chars := write_chars moment common
  have year := common.year
  have real := date_of_days_exists (moment.seconds / 86400)
  have counted := days_of_date_of_days (moment.seconds / 86400)
  have parts := (exists_iff _).mp real
  have long := write_long_enough moment common
  have back := parts_of_written moment
  have second := written_second_leap moment
  unfold read
  rw [chars]
  generalize dateOfDays (moment.seconds / 86400) = date at *
  have days : date.day ≤ 31 := by
    have month := parts.2.2.2
    simp only [daysInMonth] at month
    split at month <;> try split at month
    all_goals omega
  have same : (⟨date.year.toNat, date.month.toNat, date.day.toNat⟩ : Date) = date := by
    simp only [Int.toNat_of_nonneg year.1, Int.toNat_of_nonneg (show 0 ≤ date.month by omega),
      Int.toNat_of_nonneg (show 0 ≤ date.day by omega)]
  simp only [bind, Except.bind]
  -- The parts are taken off the front of the text in the order in which they were written.
  rw [if_neg (by omega), read_padded (by decide) (by omega)]
  simp only [read_mark (by decide : ['-'].contains '-' = true)]
  rw [read_padded (by decide) (by omega)]
  simp only [read_mark (by decide : ['-'].contains '-' = true)]
  rw [read_padded (by decide) (by omega)]
  simp only [same, real, Bool.not_true, Bool.false_eq_true, if_false,
    read_mark (by decide : ['T', 't', ' '].contains 'T' = true)]
  rw [read_padded (by decide) (by omega)]
  simp only [read_mark (by decide : [':'].contains ':' = true)]
  rw [read_padded (by decide) (by omega)]
  simp only [read_mark (by decide : [':'].contains ':' = true)]
  rw [read_padded (by decide) (by omega)]
  dsimp only
  rw [show "+00:00".toList = '+' :: "00:00".toList from rfl, read_fraction _ (by omega)]
  dsimp only
  rw [if_neg (by omega), show '+' :: "00:00".toList = "+00:00".toList from rfl, read_offset_utc]
  simp only [List.isEmpty_nil, Bool.not_true, Bool.false_eq_true, if_false, counted, back]

theorem write_sign (moment : Moment) (uncommon : ¬ moment.InFourDigitYears) :
    ∃ sign rest, (sign = '-' ∨ sign = '+') ∧ (write moment).toList = sign :: rest := by
  have signed := mt moment.year_iff.mp uncommon
  by_cases before : (dateOfDays (moment.seconds / 86400)).year < 0
  · simp only [write, writeYear, if_neg signed, if_pos before, String.toList_append,
      List.append_assoc]
    exact ⟨'-', _, .inl rfl, rfl⟩
  · simp only [write, writeYear, if_neg signed, if_neg before, String.toList_append,
      List.append_assoc]
    exact ⟨'+', _, .inr rfl, rfl⟩

/-- A time is read back from its text exactly when its year has four digits. -/
theorem read_write_iff (moment : Moment) :
    (∃ back, read (write moment) = .ok back) ↔ moment.InFourDigitYears := by
  constructor
  · rintro ⟨back, answered⟩
    refine Classical.byContradiction fun uncommon => ?_
    obtain ⟨sign, rest, signs, chars⟩ := write_sign moment uncommon
    have unread : readDigits 4 0 (sign :: rest) = .error .invalid := by
      rcases signs with rfl | rfl <;> rfl
    unfold read at answered
    rw [chars] at answered
    simp only [bind, Except.bind, unread] at answered
    split at answered <;> cases answered
  · intro common
    exact ⟨moment, read_write moment common⟩

end Rfc3339

end FieldPost
