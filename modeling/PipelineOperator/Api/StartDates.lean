import PipelineOperator.Api.DateSums

/-!
# Start dates

Scheduling is to begin with the start date.  `Duration` compares the clock with
the variable that it is about to set, which is still the zero time, and so takes
the clock for the start whenever the clock has gone past that.  The next
execution then comes after the start date only by chance: the period, or the
next tick of the cron line, has to reach that far.

## Main results

* `scheduleDuration_inRange`: what an in-range date string says, wrapped around.
* `reaches_iff`: when waiting for the start date, and then the period, does not
  wrap around.
* `respectsStart_iff`: which start dates are respected.
-/

namespace PipelineOperator.Api

/-- The next execution is not before a start date that is still to come, and a
start date that has come is as good as none. -/
structure RespectsStart (lib : Externals) (scheduleDate : String) (date now : Time) : Prop where
  reaches : now < date →
    ∀ d, scheduleDuration lib scheduleDate (some date) now = .ok d → date ≤ now + d
  ignored : date ≤ now →
    scheduleDuration lib scheduleDate (some date) now =
      scheduleDuration lib scheduleDate none now

/-- The next tick, or the period, reaches the start date.  The start date only
matters to a clock that has not gone past the zero time. -/
def StartReached (lib : Externals) (scheduleDate : String) (date now : Time) : Prop :=
  match lib.parseCron scheduleDate with
  | .ok next =>
      (now < date → date ≤ next (scheduleStart (some date) now) ∧ date - now ≤ maxDuration) ∧
        (date ≤ now → Time.zero < now ∨ (next date).sub now = (next now).sub now)
  | .error _ =>
      now < date →
        if Time.zero < now then date - now ≤ matchedDuration scheduleDate
        else date - now + matchedDuration scheduleDate ≤ maxDuration

/-- Before the zero time, the start date is the start. -/
theorem scheduleStart_of_not_clock {now : Time} (hclock : ¬ Time.zero < now) (date : Time) :
    scheduleStart (some date) now = date :=
  if_neg hclock

/-- What an in-range date string says, after the waiting time. -/
theorem scheduleDuration_inRange {lib : Externals} {scheduleDate e : String}
    (hcron : lib.parseCron scheduleDate = .error e)
    (hrange : matchedDuration scheduleDate ≤ maxDuration) (startDate : Option Time) (now : Time) :
    scheduleDuration lib scheduleDate startDate now =
      .ok (wrap (min maxDuration (waitingTime (scheduleStart startDate now) now) +
        matchedDuration scheduleDate)) := by
  refine (scheduleDuration_of_date hcron startDate now).1 _ (durationFromDateString_eq ?_ _ now)
  exact fun hlarge => absurd (tooLarge_sum hlarge) (Int.not_lt.mpr hrange)

/-- Without a wait, it is the period. -/
theorem scheduleDuration_noWait {lib : Externals} {scheduleDate e : String}
    (hcron : lib.parseCron scheduleDate = .error e)
    (hrange : matchedDuration scheduleDate ≤ maxDuration) {startDate : Option Time} {now : Time}
    (hstart : scheduleStart startDate now ≤ now) :
    scheduleDuration lib scheduleDate startDate now = .ok (matchedDuration scheduleDate) := by
  have hnone : (min maxDuration (waitingTime (scheduleStart startDate now) now) : Int) = 0 := by
    rw [waitingTime_of_le hstart]
    rfl
  rw [scheduleDuration_inRange hcron hrange, hnone, Int.zero_add,
    wrap_of_fits (matchedDuration_nonneg scheduleDate) hrange]

/-- Waiting for the start date, and then the period, reaches the start date
unless it wraps around. -/
theorem reaches_iff {waiting period : Int} (hwaiting : 0 < waiting) (hnonneg : 0 ≤ period)
    (hrange : period ≤ maxDuration) :
    waiting ≤ wrap (min maxDuration waiting + period) ↔ waiting + period ≤ maxDuration := by
  have hbound : period ≤ 2 ^ 63 - 1 := hrange
  show waiting ≤ (min (2 ^ 63 - 1) waiting + period + 2 ^ 63) % 2 ^ 64 - 2 ^ 63 ↔
    waiting + period ≤ 2 ^ 63 - 1
  omega

/-- A difference that saturates reaches what lies ahead if it did so before, and
if that is not too far away. -/
theorem sub_reaches_iff {date now : Int} (hlater : now < date) (tick : Time) :
    date ≤ now + (tick.sub now : Int) ↔ date ≤ tick ∧ date - now ≤ maxDuration := by
  show date ≤ now + max (-(2 ^ 63)) (min (2 ^ 63 - 1) ((tick : Int) - now)) ↔
    date ≤ (tick : Int) ∧ date - now ≤ 2 ^ 63 - 1
  omega

/-- Cron lines: the next tick has to reach the start date. -/
theorem respectsStart_cron_iff {lib : Externals} {scheduleDate : String} {next : Time → Time}
    (hcron : lib.parseCron scheduleDate = .ok next) (date now : Time) :
    RespectsStart lib scheduleDate date now ↔
      (now < date → date ≤ next (scheduleStart (some date) now) ∧ date - now ≤ maxDuration) ∧
        (date ≤ now → Time.zero < now ∨ (next date).sub now = (next now).sub now) := by
  have hsame : date ≤ now →
      (scheduleDuration lib scheduleDate (some date) now =
          scheduleDuration lib scheduleDate none now ↔
        Time.zero < now ∨ (next date).sub now = (next now).sub now) := by
    intro _
    have hnone : scheduleStart none now = now := rfl
    rw [scheduleDuration_of_cron hcron, scheduleDuration_of_cron hcron, hnone, Except.ok.injEq]
    by_cases hclock : Time.zero < now
    · simp [scheduleStart_of_clock _ hclock, hclock]
    · rw [scheduleStart_of_not_clock hclock, or_iff_right hclock]
  constructor
  · intro hrespects
    refine ⟨fun hlater => ?_, fun hpast => (hsame hpast).mp (hrespects.ignored hpast)⟩
    exact (sub_reaches_iff hlater _).mp
      (hrespects.reaches hlater _ (scheduleDuration_of_cron hcron _ now))
  · rintro ⟨hreaches, hignored⟩
    refine ⟨fun hlater d hd => ?_, fun hpast => (hsame hpast).mpr (hignored hpast)⟩
    rw [scheduleDuration_of_cron hcron, Except.ok.injEq] at hd
    rw [← hd]
    exact (sub_reaches_iff hlater _).mpr (hreaches hlater)

/-- Date strings: the period has to reach the start date. -/
theorem respectsStart_date_iff {lib : Externals} {scheduleDate e : String}
    (hcron : lib.parseCron scheduleDate = .error e)
    (hrange : matchedDuration scheduleDate ≤ maxDuration) (date now : Time) :
    RespectsStart lib scheduleDate date now ↔
      (now < date →
        if Time.zero < now then date - now ≤ matchedDuration scheduleDate
        else date - now + matchedDuration scheduleDate ≤ maxDuration) := by
  have hreaches : now < date →
      ((∀ d, scheduleDuration lib scheduleDate (some date) now = .ok d → date ≤ now + d) ↔
        if Time.zero < now then date - now ≤ matchedDuration scheduleDate
        else date - now + matchedDuration scheduleDate ≤ maxDuration) := by
    intro hlater
    split
    · next hclock =>
        have hstart : scheduleStart (some date) now ≤ now :=
          Int.le_of_eq (scheduleStart_of_clock _ hclock)
        simp only [scheduleDuration_noWait hcron hrange hstart, Except.ok.injEq, forall_eq']
        exact ⟨Int.sub_left_le_of_le_add, Int.le_add_of_sub_left_le⟩
    · next hclock =>
        have hnonneg := matchedDuration_nonneg scheduleDate
        simp only [scheduleDuration_inRange hcron hrange, scheduleStart_of_not_clock hclock,
          waitingTime_of_lt hlater, Except.ok.injEq, forall_eq']
        rw [← reaches_iff (Int.sub_pos_of_lt hlater) hnonneg hrange]
        exact ⟨Int.sub_left_le_of_le_add, Int.le_add_of_sub_left_le⟩
  constructor
  · intro hrespects hlater
    exact (hreaches hlater).mp (hrespects.reaches hlater)
  · intro hreached
    refine ⟨fun hlater => (hreaches hlater).mpr (hreached hlater), fun hpast => ?_⟩
    have hstart : scheduleStart (some date) now ≤ now := by
      by_cases hclock : Time.zero < now
      · exact Int.le_of_eq (scheduleStart_of_clock _ hclock)
      · rw [scheduleStart_of_not_clock hclock]
        exact hpast
    rw [scheduleDuration_noWait hcron hrange hstart,
      scheduleDuration_noWait hcron hrange (Int.le_refl now)]

/-- Which start dates are respected. -/
theorem respectsStart_iff (lib : Externals) (scheduleDate : String) (date now : Time)
    (hrange : ∀ e, lib.parseCron scheduleDate = .error e →
      matchedDuration scheduleDate ≤ maxDuration) :
    RespectsStart lib scheduleDate date now ↔ StartReached lib scheduleDate date now := by
  unfold StartReached
  cases hcron : lib.parseCron scheduleDate with
  | ok next => exact respectsStart_cron_iff hcron date now
  | error e => exact respectsStart_date_iff hcron (hrange e hcron) date now

/-- A start date in half an hour is respected by a period of an hour. -/
theorem respectsStart_halfHour :
    RespectsStart Externals.plain "1h" (1800 * Time.second) 0 := by
  refine (respectsStart_iff _ _ _ _ ?_).mpr ?_
  · intro e _
    decide
  · intro _
    decide

/-- A start date in two hours is not respected by a period of an hour, nor by a
cron line for every hour. -/
theorem start_not_reached :
    ¬ RespectsStart Externals.plain "1h" (7200 * Time.second) 0 ∧
      ¬ RespectsStart { Externals.plain with
          parseCron := fun _ => .ok fun t => t + (3600 * Time.second - t % (3600 * Time.second)) }
        "0 * * * *" (7200 * Time.second) 0 := by
  constructor
  · intro hrespects
    exact absurd (hrespects.reaches (by decide) (3600 * Time.second) (by decide)) (by decide)
  · intro hrespects
    exact absurd (hrespects.reaches (by decide) (3600 * Time.second) (by decide)) (by decide)

end PipelineOperator.Api
