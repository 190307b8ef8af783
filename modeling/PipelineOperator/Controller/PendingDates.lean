import PipelineOperator.Api.DateSums
import PipelineOperator.Controller.Schedule

/-!
# Pending dates and the clock

An execution is armed for the time of arming and the duration of the schedule.
Nothing looks at the sign of that duration.  A date string is added up in 64
bits, and only a single number that does not fit is an error, so that a large
sum wraps around to before the clock.  The tick of a cron line without any
matching date is the zero time, which no clock is before.

## Main results

* `sub_nonneg_iff`: a difference that saturates keeps its sign.
* `scheduleDuration_nonneg_iff`: which schedules have a duration that is not
  negative.
* `aimsAhead_iff`: which schedules are armed for now or later.
-/

namespace PipelineOperator.Controller

open PipelineOperator.Api

/-- The execution is armed for a date that has not passed.  The two dates in the
status, which lose what is less than a second, are in that order, too. -/
structure ArmedAhead (now : Time) (status : PipelineStatus) : Prop where
  start : status.scheduleStartDate = some now.stored
  pending : ∃ date, now ≤ date ∧ status.schedulePendingExecuctionDate = some (Time.stored date)
  ordered : ∀ start ∈ status.scheduleStartDate, ∀ pending ∈ status.schedulePendingExecuctionDate,
    start ≤ pending

/-- The duration is at least zero, and a pass over a pipeline with the schedule
arms it for a date that has not passed. -/
structure AimsAhead (lib : Externals) (scheduleDate : String) (startDate : Option Time)
    (now : Time) : Prop where
  duration : ∀ d, scheduleDuration lib scheduleDate startDate now = .ok d → 0 ≤ d
  armed : ∀ pipeline schedule, pipeline.spec.schedule = some schedule →
    schedule.scheduleDate = scheduleDate → schedule.startDate = startDate →
    ∀ status reset, ensureScheduleExecution lib pipeline now = .armed status reset →
      ArmedAhead now status

/-- The next tick of the cron line is not in the past; the date string is an
error, or what it adds up to, with the wait for the start, is in the lower half
of the 64-bit numbers. -/
def LiesAhead (lib : Externals) (scheduleDate : String) (startDate : Option Time)
    (now : Time) : Prop :=
  match lib.parseCron scheduleDate with
  | .ok next => now ≤ next (scheduleStart startDate now)
  | .error _ =>
      HoldsTooLarge scheduleDate.toList ∨
        (min maxDuration (waitingTime (scheduleStart startDate now) now) +
          matchedDuration scheduleDate) % 2 ^ 64 < 2 ^ 63

/-- A difference that saturates keeps its sign. -/
theorem sub_nonneg_iff (t u : Int) : 0 ≤ Time.sub t u ↔ u ≤ t := by
  show 0 ≤ max (-(2 ^ 63)) (min (2 ^ 63 - 1) (t - u)) ↔ u ≤ t
  omega

/-- Which schedules have a duration that is not negative. -/
theorem scheduleDuration_nonneg_iff (lib : Externals) (scheduleDate : String)
    (startDate : Option Time) (now : Time) :
    (∀ d, scheduleDuration lib scheduleDate startDate now = .ok d → 0 ≤ d) ↔
      LiesAhead lib scheduleDate startDate now := by
  unfold LiesAhead
  cases hcron : lib.parseCron scheduleDate with
  | ok next =>
      simp only [scheduleDuration_of_cron hcron, Except.ok.injEq, forall_eq']
      exact sub_nonneg_iff _ now
  | error e =>
      obtain ⟨hok, hfails⟩ := scheduleDuration_of_date hcron startDate now
      by_cases hlarge : HoldsTooLarge scheduleDate.toList
      · obtain ⟨e', herror⟩ := hfails ((durationFromDateString_error_iff _ _ now).mpr hlarge)
        simp [herror, hlarge]
      · simp only [hok _ (durationFromDateString_eq hlarge _ now), Except.ok.injEq, forall_eq',
          or_iff_right hlarge]
        exact wrap_nonneg_iff _

/-- Dates stay in order when they are stored. -/
theorem stored_le_stored {t u : Int} (hle : t ≤ u) : Time.stored t ≤ Time.stored u :=
  Int.mul_le_mul_of_nonneg_right (Int.ediv_le_ediv (by decide) hle) (by decide)

/-- A pass arms for the clock and the duration. -/
theorem armedAhead_of_nonneg {lib : Externals} {pipeline : Pipeline} {schedule : Schedule}
    {now : Time} (hschedule : pipeline.spec.schedule = some schedule)
    (hnonneg : ∀ d, scheduleDuration lib schedule.scheduleDate schedule.startDate now = .ok d →
      0 ≤ d)
    {status : PipelineStatus} {reset : Bool}
    (harmed : ensureScheduleExecution lib pipeline now = .armed status reset) :
    ArmedAhead now status := by
  rcases ensureScheduleExecution_of_schedule lib hschedule now with
    hrequeued | hpanicked | ⟨read, -, hpassed⟩
  · rw [hrequeued] at harmed
    cases harmed
  · rw [hpanicked] at harmed
    cases harmed
  · obtain ⟨duration, hduration, -, -, rfl⟩ := armSchedule_armed (hpassed.symm.trans harmed)
    have hle : (now : Int) ≤ now + duration :=
      Int.le_add_of_nonneg_right (hnonneg duration hduration)
    refine ⟨rfl, ⟨now + duration, hle, rfl⟩, ?_⟩
    rintro start ⟨⟩ pending ⟨⟩
    exact stored_le_stored hle

/-- Which schedules are armed for now or later. -/
theorem aimsAhead_iff (lib : Externals) (scheduleDate : String) (startDate : Option Time)
    (now : Time) :
    AimsAhead lib scheduleDate startDate now ↔ LiesAhead lib scheduleDate startDate now := by
  rw [← scheduleDuration_nonneg_iff]
  constructor
  · intro haims
    exact haims.duration
  · intro hnonneg
    refine ⟨hnonneg, ?_⟩
    rintro pipeline schedule hschedule rfl rfl status reset harmed
    exact armedAhead_of_nonneg hschedule hnonneg harmed

/-- Externals for which one cron line has no matching date. -/
def Externals.noSuchDay : Externals :=
  { Externals.plain with
    parseCron := fun s => if s = "0 0 30 2 *" then .ok fun _ => Time.zero else .error s }

/-- A sum beyond 64 bits and a day that does not exist are both in the past. -/
theorem armed_for_the_past :
    ¬ AimsAhead Externals.plain "9223372037s" none 0 ∧
      ¬ AimsAhead Externals.noSuchDay "0 0 30 2 *" none 0 := by
  constructor
  · intro haims
    exact absurd (haims.duration (9223372037 * Time.second - 2 ^ 64) (by decide)) (by decide)
  · intro haims
    exact absurd (haims.duration minDuration (by decide)) (by decide)

end PipelineOperator.Controller
