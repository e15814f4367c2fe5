import FieldPost.Moment.Calendar

/-!
Moments in time: whole seconds since the beginning of 1970 in UTC, and nanoseconds
within the second. A leap second is written as more than a full second of
nanoseconds after the last second of a minute, so moments are ordered by seconds and
then by nanoseconds also across one.
-/

namespace FieldPost

structure Moment where
  seconds : Int
  nanos : Nat
  nanos_lt : nanos < 2000000000 := by decide
  leap_at_minute_end : 1000000000 ≤ nanos → seconds % 60 = 59 := by decide
deriving DecidableEq, Repr

namespace Moment

/-- The moment with these parts, when a leap second stands at the end of a minute. -/
def ofParts? (seconds : Int) (nanos : Nat) : Option Moment :=
  if small : nanos < 2000000000 then
    if leap : 1000000000 ≤ nanos → seconds % 60 = 59 then
      some ⟨seconds, nanos, small, leap⟩
    else none
  else none

def ofSeconds (seconds : Int) : Moment := ⟨seconds, 0, by decide, by simp⟩

/-- Earlier in time, a leap second being later than the second before it. -/
def before (left right : Moment) : Bool :=
  left.seconds < right.seconds || (left.seconds == right.seconds && left.nanos < right.nanos)

/-- The next microsecond after a moment outside leap seconds. -/
def succMicro (moment : Moment) : Moment :=
  if room : moment.nanos + 1000 < 1000000000 then
    ⟨moment.seconds, moment.nanos + 1000, by omega, by omega⟩
  else ofSeconds (moment.seconds + 1)

end Moment

end FieldPost
