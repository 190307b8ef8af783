import Mathlib.Algebra.Group.Int.Defs
import PipelineOperator.Api.Externals

/-!
# Schedule dates

A schedule date is a cron line or a date string such as `1h30m`; `Duration`
says how far away the next execution is.  Durations are 64-bit counts of
nanoseconds and wrap around, except in `time.Time.Sub`, which saturates.
One clock reading `now` stands for all the calls of `time.Now` on the way.
-/

namespace PipelineOperator.Api

def maxDuration : Duration := 2 ^ 63 - 1

def minDuration : Duration := -(2 ^ 63)

/-- The value of a 64-bit signed integer after it has wrapped around. -/
def wrap (d : Int) : Duration := (d + 2 ^ 63) % 2 ^ 64 - 2 ^ 63

/-- `t.Sub(u)` -/
def Time.sub (t u : Time) : Duration := max minDuration (min maxDuration (t - u))

/-! ## `durationFromDateString` -/

/-- The matches of `(\d+)([smhdMy])` from left to right, as digits and unit.
`digits` holds the run of digits that ends right before the text. -/
def findAllTokens (digits : List Char) : List Char → List (List Char × Char)
  | [] => []
  | c :: text =>
      if c.isDigit then findAllTokens (digits ++ [c]) text
      else if digits ≠ [] ∧ c ∈ ['s', 'm', 'h', 'd', 'M', 'y'] then
        (digits, c) :: findAllTokens [] text
      else findAllTokens [] text

/-- `strconv.Atoi` on a run of digits; it fails on what exceeds 64 bits. -/
def atoi (digits : List Char) : Except String Int :=
  let value : Int := Nat.ofDigitChars 10 digits 0
  if value ≤ maxDuration then .ok value else .error "value out of range"

/-- The length of a unit.  The switch knows weeks, which the pattern never
matches. -/
def unitDuration : Char → Option Duration
  | 's' => some Time.second
  | 'm' => some (60 * Time.second)
  | 'h' => some (3600 * Time.second)
  | 'd' => some (24 * 3600 * Time.second)
  | 'w' => some (7 * 24 * 3600 * Time.second)
  | 'M' => some (30 * 24 * 3600 * Time.second)
  | 'y' => some (365 * 24 * 3600 * Time.second)
  | _ => none

/-- The loop over the matches. -/
def addTokens : Duration → List (List Char × Char) → Except String Duration
  | duration, [] => .ok duration
  | duration, (digits, unit) :: tokens =>
      match atoi digits with
      | .error e => .error e
      | .ok value =>
          match unitDuration unit with
          | none => .error ("unknown date string: " ++ String.ofList (digits ++ [unit]))
          | some length => addTokens (wrap (duration + wrap (value * length))) tokens

def durationFromDateString (scheduleDate : String) (start now : Time) :
    Except String Duration :=
  let waiting := if now < start then wrap (0 + start.sub now) else 0
  addTokens waiting (findAllTokens [] scheduleDate.toList)

/-! ## Cron lines and the choice between the two -/

def durationFromCron (lib : Externals) (scheduleDate : String) (start now : Time) :
    Except String Duration :=
  match lib.parseCron scheduleDate with
  | .error e => .error e
  | .ok next => .ok ((next start).sub now)

/-- `ScheduleDate.Duration`.  The test `start.Before(now)` is made on the
variable that still holds the zero time, as in the source. -/
def scheduleDuration (lib : Externals) (scheduleDate : String) (startDate : Option Time)
    (now : Time) : Except String Duration :=
  let start := match startDate with
    | none => now
    | some date => if Time.zero < now then now else date
  match durationFromCron lib scheduleDate start now,
      durationFromDateString scheduleDate start now with
  | .error e, .error e2 =>
      .error ("unknown format schedule: cron parsing error is " ++ e
        ++ ", date parsing error is " ++ e2)
  | .error _, .ok dateDuration => .ok dateDuration
  | .ok cronDuration, _ => .ok cronDuration

end PipelineOperator.Api
