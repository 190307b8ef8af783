import PipelineOperator.Controller.Fence
import PipelineOperator.Controller.Overlap
import PipelineOperator.Controller.PendingDates
import PipelineOperator.Controller.ScheduleCount
import PipelineOperator.Lib.Spaced

/-!
# The pace of a schedule

A schedule is armed and executed no more often than its period allows, whatever
happens to its goroutines: they may break off, lose their record, be overtaken
by another arming or be late.  What keeps the pace is the pending date in the
status.  A pass before it is only requeued, and it is removed by a record, whose
goroutine has slept until then, or by a pass that comes later.

The clock is kept beside the state: the latest reading that the schedule status
has been written with, and the latest of all.

## Main results

* `InPace.step`: every step keeps the pace.
* `starts_spaced`: two armings are at least a period apart, and the runs that
  have been created have taken at least a period each.
-/

namespace PipelineOperator.Controller

open PipelineOperator.Lib
open PipelineOperator.Api

/-! ## The clock -/

/-- Readings of the clock: the latest that a write of the schedule is based on,
and the latest of all. -/
structure Clock where
  written : Time
  latest : Time
  deriving Repr, DecidableEq

def Clock.read (now : Time) (clock : Clock) : Clock :=
  { clock with latest := max clock.latest now }

def Clock.write (now : Time) (clock : Clock) : Clock where
  written := max clock.written now
  latest := max clock.latest now

/-- The readings of a step.  A record carries the time at which its goroutine
has created the run. -/
def tick (s : ScheduleWorld) (a : ScheduleAction) (_ : ScheduleWorld) (clock : Clock) : Clock :=
  match a with
  | .edit _ | .touch | .wake _ | .breakOff _ | .setRuns _ | .setKJobs _ => clock
  | .countRuns now | .finishRun _ now | .create _ _ now => clock.read now
  | .reconcile now accepted => if accepted then clock.write now else clock.read now
  | .record i =>
      match s.goroutines[i]? with
      | some ⟨_, .created read now⟩ =>
          if read.version = s.pipeline.version then clock.write now else clock
      | _ => clock

/-! ## The guard -/

/-- The schedule lasts at least the period from now on. -/
def LastsAtLeast (lib : Externals) (period : Duration) (schedule : Schedule) (now : Time) : Prop :=
  match scheduleDuration lib schedule.scheduleDate schedule.startDate now with
  | .ok duration => period ≤ duration
  | .error _ => True

instance (lib : Externals) (period : Duration) (schedule : Schedule) (now : Time) :
    Decidable (LastsAtLeast lib period schedule now) := by
  unfold LastsAtLeast
  cases scheduleDuration lib schedule.scheduleDate schedule.startDate now with
  | ok duration => exact inferInstanceAs (Decidable (period ≤ duration))
  | error _ => exact inferInstanceAs (Decidable True)

/-- The pipeline has a schedule with the date. -/
def HasDate (scheduleDate : String) (spec : PipelineSpec) : Prop :=
  spec.schedule.map Schedule.scheduleDate = some scheduleDate

instance (scheduleDate : String) (spec : PipelineSpec) : Decidable (HasDate scheduleDate spec) := by
  unfold HasDate
  infer_instance

/-- Users keep the schedule date; a pass that is accepted has read the clock
after the writes before it, and has found that the schedule lasts for the
period; and a goroutine has slept until its pending date. -/
def Paced (lib : Externals) (period : Duration) (scheduleDate : String)
    (x : ScheduleWorld × Clock) : ScheduleAction → Prop
  | .edit spec => HasDate scheduleDate spec
  | .reconcile now true => x.2.written ≤ now ∧
      ∀ schedule ∈ x.1.pipeline.val.spec.schedule, LastsAtLeast lib period schedule now
  | .create i _ now => ∀ g ∈ x.1.goroutines[i]?,
      ∀ pending ∈ g.copy.status.schedulePendingExecuctionDate, pending ≤ now
  | .touch | .countRuns _ | .reconcile _ false | .finishRun _ _ | .wake _ | .breakOff _
  | .record _ | .setRuns _ | .setKJobs _ => True

instance (lib : Externals) (period : Duration) (scheduleDate : String)
    (x : ScheduleWorld × Clock) :
    (a : ScheduleAction) → Decidable (Paced lib period scheduleDate x a)
  | .edit spec => inferInstanceAs (Decidable (HasDate scheduleDate spec))
  | .reconcile now true => inferInstanceAs (Decidable (x.2.written ≤ now ∧
      ∀ schedule ∈ x.1.pipeline.val.spec.schedule, LastsAtLeast lib period schedule now))
  | .create i _ now => inferInstanceAs (Decidable (∀ g ∈ x.1.goroutines[i]?,
      ∀ pending ∈ g.copy.status.schedulePendingExecuctionDate, pending ≤ now))
  | .touch | .countRuns _ | .reconcile _ false | .finishRun _ _ | .wake _ | .breakOff _
  | .record _ | .setRuns _ | .setKJobs _ => .isTrue trivial

/-- The machine of a schedule with its clock. -/
def clockedMachine (lib : Externals) (scheduleDate : String) (clock : Clock) :
    Machine (ScheduleWorld × Clock) ScheduleAction :=
  (scheduleMachine lib fun pipeline => HasDate scheduleDate pipeline.spec).withHistory clock tick

/-- A date string that adds up to the period lasts for it, if the wait for the
start date does not overflow. -/
theorem lastsAtLeast_of_date {lib : Externals} {schedule : Schedule} {e : String} {now : Time}
    (hcron : lib.parseCron schedule.scheduleDate = .error e)
    (hfits : waitingTime (scheduleStart schedule.startDate now) now +
      matchedDuration schedule.scheduleDate ≤ maxDuration) :
    LastsAtLeast lib (matchedDuration schedule.scheduleDate) schedule now := by
  have hduration := (scheduleDuration_of_date hcron schedule.startDate now).1 _
    (durationFromDateString_of_fits hfits)
  have hwaiting := waitingTime_nonneg (scheduleStart schedule.startDate now) now
  rw [LastsAtLeast, hduration]
  show (matchedDuration schedule.scheduleDate : Int) ≤
    waitingTime (scheduleStart schedule.startDate now) now + matchedDuration schedule.scheduleDate
  omega

/-! ## Stored dates -/

section Stored

variable {period : Int} {t u : Int}

theorem second_dvd_stored (t : Int) : Time.second ∣ Time.stored t := Dvd.intro_left _ rfl

/-- A date of whole seconds is not after the stored one of a later time. -/
theorem le_stored (hwhole : Time.second ∣ t) (hle : t ≤ u) : t ≤ Time.stored u := by
  have hsame : Time.stored t = t := Int.ediv_mul_cancel hwhole
  rw [← hsame]
  exact stored_le_stored hle

/-- A stored date and a period of whole seconds. -/
theorem stored_add_le {duration : Int} (hwhole : Time.second ∣ period)
    (hle : period ≤ duration) : Time.stored t + period ≤ Time.stored (t + duration) := by
  have hbefore : (Time.stored t : Int) ≤ t := Int.ediv_mul_le t (by decide)
  have hdvd : Time.second ∣ Time.stored t + period := Dvd.dvd.add (second_dvd_stored t) hwhole
  exact le_stored hdvd (Int.add_le_add hbefore hle)

end Stored

section Pace

variable {lib : Externals} {period : Duration} {scheduleDate : String} {s t : ScheduleWorld}
  {a : ScheduleAction} {clock : Clock}

/-! ## What a step does to clock, armings and goroutines -/

/-- A step reads the clock, perhaps for a write, or it does not. -/
theorem tick_cases (s : ScheduleWorld) (a : ScheduleAction) (t : ScheduleWorld) (clock : Clock) :
    tick s a t clock = clock ∨ (∃ now, tick s a t clock = clock.read now) ∨
      ∃ now, tick s a t clock = clock.write now := by
  cases a with
  | edit _ => exact Or.inl rfl
  | touch => exact Or.inl rfl
  | countRuns now => exact Or.inr (Or.inl ⟨now, rfl⟩)
  | reconcile now accepted =>
      cases accepted with
      | true => exact Or.inr (Or.inr ⟨now, rfl⟩)
      | false => exact Or.inr (Or.inl ⟨now, rfl⟩)
  | finishRun name now => exact Or.inr (Or.inl ⟨now, rfl⟩)
  | wake _ => exact Or.inl rfl
  | create _ _ now => exact Or.inr (Or.inl ⟨now, rfl⟩)
  | breakOff _ => exact Or.inl rfl
  | record i =>
      simp only [tick]
      split
      · next now _ =>
          split
          · exact Or.inr (Or.inr ⟨now, rfl⟩)
          · exact Or.inl rfl
      · exact Or.inl rfl
  | setRuns _ => exact Or.inl rfl
  | setKJobs _ => exact Or.inl rfl

theorem written_le_tick (s : ScheduleWorld) (a : ScheduleAction) (t : ScheduleWorld)
    (clock : Clock) : clock.written ≤ (tick s a t clock).written := by
  rcases tick_cases s a t clock with hsame | ⟨now, hread⟩ | ⟨now, hwrite⟩
  · simp only [hsame, le_refl]
  · simp only [hread, Clock.read, le_refl]
  · rw [hwrite]
    exact Int.le_max_left _ _

theorem latest_le_tick (s : ScheduleWorld) (a : ScheduleAction) (t : ScheduleWorld)
    (clock : Clock) : clock.latest ≤ (tick s a t clock).latest := by
  rcases tick_cases s a t clock with hsame | ⟨now, hread⟩ | ⟨now, hwrite⟩
  · simp only [hsame, le_refl]
  · rw [hread]
    exact Int.le_max_left _ _
  · rw [hwrite]
    exact Int.le_max_left _ _

/-- What an arming writes. -/
theorem written_of_armed {pipeline : Pipeline} {schedule : Schedule} {now : Time}
    (hschedule : pipeline.spec.schedule = some schedule) {status : PipelineStatus} {reset : Bool}
    (harmed : ensureScheduleExecution lib pipeline now = .armed status reset) :
    status.schedule = some schedule ∧
      ∃ duration, scheduleDuration lib schedule.scheduleDate schedule.startDate now =
          .ok duration ∧
        status.schedulePendingExecuctionDate = some (Time.stored (now + duration)) := by
  rcases ensureScheduleExecution_of_schedule lib hschedule now with
    hrequeued | hpanicked | ⟨read, -, hpassed⟩
  · rw [hrequeued] at harmed
    cases harmed
  · rw [hpanicked] at harmed
    cases harmed
  · obtain ⟨duration, hduration, -, -, rfl⟩ := armSchedule_armed (hpassed.symm.trans harmed)
    exact ⟨rfl, duration, hduration, rfl⟩

/-- A step that arms, and what it starts. -/
structure ArmsAt (lib : Externals) (s t : ScheduleWorld) (a : ScheduleAction) (now : Time)
    (schedule : Schedule) (status : PipelineStatus) : Prop where
  action : a = .reconcile now true
  spec : s.pipeline.val.spec.schedule = some schedule
  armed : ∃ reset, ensureScheduleExecution lib s.pipeline.val now = .armed status reset
  wrote : t.status = status
  times : armedTimes t.log = now.stored :: armedTimes s.log
  goroutines : t.goroutines = s.goroutines ++ [{ copy := { s.pipeline.val with status := status } }]

/-- Only such a step adds a start date or a goroutine. -/
theorem ScheduleEffect.armings (h : ScheduleEffect lib s t a) :
    (armedTimes t.log = armedTimes s.log ∧ t.goroutines.length = s.goroutines.length) ∨
      ∃ now schedule status, ArmsAt lib s t a now schedule status := by
  cases h with
  | kept _ _ _ _ hgoroutines hlog => exact Or.inl ⟨by rw [hlog], by rw [hgoroutines]⟩
  | removed _ _ ht => exact Or.inl (by subst ht; exact ⟨rfl, rfl⟩)
  | cleared _ ht => exact Or.inl (by subst ht; exact ⟨rfl, rfl⟩)
  | @armed now schedule status duration hspec _ _ _ houtcome ht =>
      subst ht
      refine Or.inr ⟨now, schedule, _, rfl, hspec, ⟨_, houtcome⟩, ?_, rfl, rfl⟩
      exact status_writeStatus s _
  | ended _ ht => exact Or.inl (by subst ht; exact ⟨rfl, rfl⟩)
  | stopped _ _ ht => exact Or.inl (by subst ht; exact ⟨rfl, List.length_set⟩)
  | passed _ _ ht => exact Or.inl (by subst ht; exact ⟨rfl, List.length_set⟩)
  | created _ _ _ ht => exact Or.inl (by subst ht; exact ⟨rfl, List.length_set⟩)
  | recorded _ _ ht => exact Or.inl (by subst ht; exact ⟨rfl, List.length_set⟩)
  | refused _ _ ht => exact Or.inl (by subst ht; exact ⟨rfl, List.length_set⟩)

/-- Goroutines keep their copies. -/
theorem ScheduleEffect.copy_before (h : ScheduleEffect lib s t a) {j : Nat} {g' : Goroutine}
    (hg' : t.goroutines[j]? = some g') (hj : j < s.goroutines.length) :
    ∃ g, s.goroutines[j]? = some g ∧ g'.copy = g.copy := by
  cases h.goroutines with
  | same hsame =>
      rw [hsame] at hg'
      exact ⟨g', hg', rfl⟩
  | started copy _ hstarted =>
      rw [hstarted, List.getElem?_append_left hj] at hg'
      exact ⟨g', hg', rfl⟩
  | moved i g phase hmoves =>
      rw [hmoves.getElem? j] at hg'
      by_cases hij : i = j
      · rw [if_pos hij] at hg'
        cases hg'
        subst hij
        exact ⟨g, hmoves.before, rfl⟩
      · rw [if_neg hij] at hg'
        exact ⟨g', hg', rfl⟩

/-- A goroutine that has created a run has done so before, or does now. -/
theorem ScheduleEffect.creators (h : ScheduleEffect lib s t a) {i : Nat}
    (hi : i ∈ createdBy t.log) :
    i ∈ createdBy s.log ∨
      (i < s.goroutines.length ∧ ∃ address now, a = .create i address now) := by
  rcases h.log with hlog | ⟨event, hlog, -, -⟩
  · rw [hlog] at hi
    exact Or.inl hi
  · rw [hlog, createdBy_cons] at hi
    rcases List.mem_append.mp hi with hnew | hold
    · cases event with
      | created j run =>
          have hij : i = j := by
            simpa [ScheduleEvent.creator, ScheduleEvent.creation] using hnew
          subst hij
          obtain ⟨address, now, _, _, ha, hchecked, -⟩ := h.creation hlog
          exact Or.inr ⟨(List.getElem?_eq_some_iff.mp hchecked).1, address, now, ha⟩
      | _ => simp [ScheduleEvent.creator, ScheduleEvent.creation] at hnew
    · exact Or.inl hold

/-! ## The pace -/

/-- The pass is before the pending date of the schedule. -/
def Early (s : ScheduleWorld) (now : Time) : Prop :=
  ∃ schedule current pending, s.pipeline.val.spec.schedule = some schedule ∧
    s.status.schedule = some current ∧ s.status.schedulePendingExecuctionDate = some pending ∧
    schedule.scheduleDate = current.scheduleDate ∧ now < pending

/-- Such a pass changes nothing. -/
theorem step_of_early {now : Time} (hearly : Early s now)
    (hstep : s.step lib (.reconcile now true) = some t) : t = s := by
  obtain ⟨schedule, current, pending, hspec, hcurrent, hpending, hdate, hlt⟩ := hearly
  simp only [ScheduleWorld.step, if_true,
    requeued_of_pending hspec hcurrent hpending hdate hlt] at hstep
  exact (Option.some.inj hstep).symm

/-- The next arming has to wait for a period after this start date: it is over,
or the status has a pending date that holds passes back for so long. -/
def KeepsDistance (period : Duration) (scheduleDate : String) (s : ScheduleWorld) (clock : Clock)
    (start : Time) : Prop :=
  start + period ≤ clock.written ∨
    ∃ pending, s.status.schedulePendingExecuctionDate = some pending ∧
      start + period ≤ pending ∧
      s.status.schedule.map Schedule.scheduleDate = some scheduleDate

/-- The armings so far keep the pace, and the next one will. -/
structure InPace (period : Duration) (scheduleDate : String) (s : ScheduleWorld) (clock : Clock) :
    Prop where
  date : HasDate scheduleDate s.pipeline.val.spec
  informed : AllInformed s
  whole : ∀ start ∈ armedTimes s.log, Time.second ∣ start
  spaced : Spaced period (armedTimes s.log)
  next : ∀ start ∈ (armedTimes s.log).head?, KeepsDistance period scheduleDate s clock start
  slept : ∀ (i : Nat) (g : Goroutine), s.goroutines[i]? = some g → ∀ read now,
    g.phase = .created read now → ∀ pending ∈ g.copy.status.schedulePendingExecuctionDate,
      pending ≤ now

/-- A pass that is not early comes a period after the latest start date. -/
theorem InPace.due (hinv : InPace period scheduleDate s clock) {now : Time}
    (hwritten : clock.written ≤ now) (hearly : ¬ Early s now) :
    ∀ start ∈ (armedTimes s.log).head?, start + period ≤ now := by
  intro start hstart
  rcases hinv.next start hstart with hover | ⟨pending, hpending, hle, hdate⟩
  · exact Int.le_trans hover hwritten
  · apply Int.le_trans hle
    by_contra hnot
    obtain ⟨schedule, hspec, hscheduleDate⟩ := Option.map_eq_some_iff.mp hinv.date
    obtain ⟨current, hcurrent, hcurrentDate⟩ := Option.map_eq_some_iff.mp hdate
    exact hearly ⟨schedule, current, pending, hspec, hcurrent, hpending,
      hscheduleDate.trans hcurrentDate.symm, Int.not_le.mp hnot⟩

/-- The spec keeps its date. -/
theorem HasDate.step (hdate : HasDate scheduleDate s.pipeline.val.spec)
    (hpaced : Paced lib period scheduleDate (s, clock) a) (h : ScheduleEffect lib s t a)
    (hstep : s.step lib a = some t) : HasDate scheduleDate t.pipeline.val.spec := by
  by_cases hedit : ∃ spec, a = .edit spec
  · obtain ⟨spec, rfl⟩ := hedit
    cases hstep
    show HasDate scheduleDate (s.pipeline.write { s.pipeline.val with spec := spec }).val.spec
    rw [Versioned.write_val]
    exact hpaced
  · have hkeeps : KeepsSpec s a := by
      cases a with
      | edit spec => exact absurd ⟨spec, rfl⟩ hedit
      | _ => trivial
    rw [h.spec hkeeps]
    exact hdate

/-- A goroutine has slept until the pending date of its copy, as it had before
its run was created. -/
theorem slept_step (hinv : InPace period scheduleDate s clock)
    (hpaced : Paced lib period scheduleDate (s, clock) a) (h : ScheduleEffect lib s t a) :
    ∀ (i : Nat) (g : Goroutine), t.goroutines[i]? = some g → ∀ read now,
      g.phase = .created read now → ∀ pending ∈ g.copy.status.schedulePendingExecuctionDate,
        pending ≤ now := by
  intro i g hg read now hphase
  have hrank : g.phase.rank = 2 := by
    rw [hphase]
    rfl
  rcases h.inFlight_before hg hrank with hbefore | ⟨run, hlog⟩
  · exact hinv.slept i g hbefore read now hphase
  · obtain ⟨address, wake, copy, read', rfl, hchecked, hgoroutines, -, -⟩ := h.creation hlog
    rw [hgoroutines, getElem?_setPhase hchecked, if_pos rfl] at hg
    cases hg
    cases hphase
    exact hpaced ⟨copy, .checked read⟩ hchecked

/-- A step that arms comes at its time, and holds the next one back. -/
private theorem InPace.armed (hinv : InPace period scheduleDate s clock)
    (hwhole : Time.second ∣ period) (hpaced : Paced lib period scheduleDate (s, clock) a)
    {now : Time} {schedule : Schedule} {status : PipelineStatus}
    (harms : ArmsAt lib s t a now schedule status) (hearly : ¬ Early s now) :
    Spaced period (armedTimes t.log) ∧
      ∀ start ∈ (armedTimes t.log).head?, KeepsDistance period scheduleDate t (tick s a t clock)
        start := by
  obtain ⟨rfl, hspec, ⟨reset, harmed⟩, hstatus, htimes, -⟩ := harms
  obtain ⟨hwritten, hlasts⟩ := hpaced
  obtain ⟨hschedule, duration, hduration, hpending⟩ := written_of_armed hspec harmed
  have hperiod : period ≤ duration := by
    have hlast := hlasts schedule hspec
    rw [LastsAtLeast, hduration] at hlast
    exact hlast
  have hdue := hinv.due hwritten hearly
  rw [htimes]
  constructor
  · apply hinv.spaced.cons
    intro start hstart
    have hstored := hinv.whole start (List.mem_of_mem_head? hstart)
    exact le_stored (hstored.add hwhole) (hdue start hstart)
  · rintro start ⟨⟩
    right
    refine ⟨_, by rw [hstatus, hpending], stored_add_le hwhole hperiod, ?_⟩
    have hdate := hinv.date
    rw [HasDate, hspec] at hdate
    rw [hstatus, hschedule]
    exact hdate

/-- A step that does not arm keeps the next arming back, too. -/
private theorem InPace.keepsDistance (hinv : InPace period scheduleDate s clock)
    (hpaced : Paced lib period scheduleDate (s, clock) a) (h : ScheduleEffect lib s t a)
    (hearly : ∀ now, a = .reconcile now true → ¬ Early s now)
    (htimes : armedTimes t.log = armedTimes s.log) {start : Time}
    (hstart : start ∈ (armedTimes s.log).head?) :
    KeepsDistance period scheduleDate t (tick s a t clock) start := by
  have hwritten := written_le_tick s a t clock
  have hnext := hinv.next start hstart
  have hkept : t.status.schedulePendingExecuctionDate = s.status.schedulePendingExecuctionDate →
      t.status.schedule = s.status.schedule →
      KeepsDistance period scheduleDate t (tick s a t clock) start := by
    intro hpending hschedule
    rw [KeepsDistance, hpending, hschedule]
    exact hnext.imp (fun hover => Int.le_trans hover hwritten) id
  cases h with
  | kept hfields _ _ _ _ _ =>
      exact hkept (congrArg ScheduleFields.pending hfields)
        (congrArg ScheduleFields.schedule hfields)
  | removed hspec _ _ =>
      have hdate := hinv.date
      rw [HasDate, hspec] at hdate
      cases hdate
  | @cleared now status _ ht =>
      -- The pass has not been stopped by a pending date, so that it is over.
      left
      exact Int.le_trans (hinv.due hpaced.1 (hearly now rfl) start hstart) (Int.le_max_right _ _)
  | armed _ _ _ _ _ ht =>
      subst ht
      have hlength := congrArg List.length htimes
      simp [armedTimes, ScheduleWorld.applyOutcome, ScheduleWorld.addEvent,
        ScheduleWorld.writeStatus] at hlength
  | ended _ ht =>
      subst ht
      exact hkept (by simp) (by simp)
  | stopped _ _ ht =>
      subst ht
      exact hkept rfl rfl
  | passed _ _ ht =>
      subst ht
      exact hkept rfl rfl
  | created _ _ _ ht =>
      subst ht
      exact hkept rfl rfl
  | @recorded i now copy read hg hversion ht =>
      left
      have htick : tick s (.record i) t clock = clock.write now := by
        simp only [tick, hg, hversion, if_true]
      rw [htick]
      rcases hnext with hover | ⟨pending, hpending, hle, -⟩
      · exact Int.le_trans hover (Int.le_max_left _ _)
      · -- What was read is what is stored, and agrees with the copy.
        have hcurrent : read = s.pipeline :=
          ((hinv.informed i _ hg).snapshot read rfl).eq_of_version hversion
        have hsame := ((hinv.informed i _ hg).unchanged read rfl).pending
        rw [hcurrent] at hsame
        have hslept := hinv.slept i _ hg read now rfl pending (hsame.symm.trans hpending)
        exact Int.le_trans hle (Int.le_trans hslept (Int.le_max_right _ _))
  | refused _ _ ht =>
      subst ht
      exact hkept rfl rfl

/-- Every step keeps the pace. -/
theorem InPace.step (hinv : InPace period scheduleDate s clock) (hwhole : Time.second ∣ period)
    (hpaced : Paced lib period scheduleDate (s, clock) a) (hstep : s.step lib a = some t) :
    InPace period scheduleDate t (tick s a t clock) := by
  have h := ScheduleWorld.step_effect hstep
  by_cases hearly : ∃ now, a = .reconcile now true ∧ Early s now
  · obtain ⟨now, rfl, hbefore⟩ := hearly
    have hsame := step_of_early hbefore hstep
    subst hsame
    refine { hinv with next := ?_ }
    intro start hstart
    exact (hinv.next start hstart).imp
      (fun hover => Int.le_trans hover (written_le_tick _ _ _ _)) id
  · have hlate : ∀ now, a = .reconcile now true → ¬ Early s now :=
      fun now ha hbefore => hearly ⟨now, ha, hbefore⟩
    have hdate := hinv.date.step hpaced h hstep
    have hinformed := hinv.informed.step h
    have hslept := slept_step hinv hpaced h
    rcases h.armings with ⟨htimes, -⟩ | ⟨now, schedule, status, harms⟩
    · refine ⟨hdate, hinformed, ?_, ?_, ?_, hslept⟩
      · rw [htimes]
        exact hinv.whole
      · rw [htimes]
        exact hinv.spaced
      · intro start hstart
        rw [htimes] at hstart
        exact hinv.keepsDistance hpaced h hlate htimes hstart
    · obtain ⟨hspaced, hnext⟩ := hinv.armed hwhole hpaced harms (hlate now harms.action)
      refine ⟨hdate, hinformed, ?_, hspaced, hnext, hslept⟩
      rw [harms.times]
      exact List.forall_mem_cons.mpr ⟨second_dvd_stored now, hinv.whole⟩

/-! ## The count of executions -/

/-- Every goroutine has a start date, and waits for as many periods as have
been armed; one that has created its run has waited for them. -/
structure Tallied (period : Duration) (s : ScheduleWorld) (clock : Clock) : Prop where
  numbered : Numbered s
  count : (armedTimes s.log).length = s.goroutines.length
  started : ∀ start ∈ armedTimes s.log, start ≤ clock.latest
  due : ∀ (i : Nat) (g : Goroutine), s.goroutines[i]? = some g →
    ∃ pending, g.copy.status.schedulePendingExecuctionDate = some pending ∧
      ∀ first ∈ (armedTimes s.log).getLast?, first + (i + 1 : Nat) * period ≤ pending
  created : ∀ i ∈ createdBy s.log, ∀ g ∈ s.goroutines[i]?,
    ∀ pending ∈ g.copy.status.schedulePendingExecuctionDate, pending ≤ clock.latest

/-- What the goroutines wait for, after a step that starts one. -/
private theorem Tallied.due_armed (hinv : Tallied period s clock)
    (hwhole : Time.second ∣ period) (hpaced : Paced lib period scheduleDate (s, clock) a)
    (h : ScheduleEffect lib s t a) {now : Time} {schedule : Schedule} {status : PipelineStatus}
    (harms : ArmsAt lib s t a now schedule status) (hspaced : Spaced period (armedTimes t.log)) :
    ∀ (i : Nat) (g : Goroutine), t.goroutines[i]? = some g →
      ∃ pending, g.copy.status.schedulePendingExecuctionDate = some pending ∧
        ∀ first ∈ (armedTimes t.log).getLast?, first + (i + 1 : Nat) * period ≤ pending := by
  intro i g hg
  rw [harms.times] at hspaced ⊢
  by_cases hi : i < s.goroutines.length
  · obtain ⟨before, hbefore, hcopy⟩ := h.copy_before hg hi
    obtain ⟨pending, hpending, hdue⟩ := hinv.due i before hbefore
    refine ⟨pending, by rw [hcopy, hpending], ?_⟩
    intro first hfirst
    apply hdue
    -- The first start date stays the first.
    cases htimes : armedTimes s.log with
    | nil =>
        have hcount := hinv.count
        rw [htimes, List.length_nil] at hcount
        omega
    | cons time times => rwa [htimes, List.getLast?_cons_cons] at hfirst
  · obtain ⟨rfl, hspec, ⟨reset, harmed⟩, -, -, hgoroutines⟩ := harms
    obtain ⟨-, duration, hduration, hpending⟩ := written_of_armed hspec harmed
    have hperiod : period ≤ duration := by
      have hlast := hpaced.2 schedule hspec
      rw [LastsAtLeast, hduration] at hlast
      exact hlast
    have hlength := (List.getElem?_eq_some_iff.mp hg).1
    rw [hgoroutines, List.length_append, List.length_singleton] at hlength
    have hlast : i = s.goroutines.length := by omega
    subst hlast
    rw [hgoroutines, List.getElem?_concat_length] at hg
    cases hg
    refine ⟨_, hpending, ?_⟩
    intro first hfirst
    have hbound := hspaced.length_mul_le hfirst
    rw [hinv.count] at hbound
    have hpendingLe := stored_add_le (t := now) hwhole hperiod
    have hsum : ((s.goroutines.length + 1 : Nat) : Int) * period =
        s.goroutines.length * period + period := by
      rw [Int.natCast_succ, Int.add_mul, Int.one_mul]
    rw [hsum, ← Int.add_assoc]
    exact Int.le_trans (Int.add_le_add_right hbound period) hpendingLe

/-- The readings of a creation. -/
private theorem Tallied.created_step (hinv : Tallied period s clock)
    (hpaced : Paced lib period scheduleDate (s, clock) a) (h : ScheduleEffect lib s t a) :
    ∀ i ∈ createdBy t.log, ∀ g ∈ t.goroutines[i]?,
      ∀ pending ∈ g.copy.status.schedulePendingExecuctionDate,
        pending ≤ (tick s a t clock).latest := by
  intro i hi g hg pending hpending
  have hlatest := latest_le_tick s a t clock
  rcases h.creators hi with hold | ⟨hlt, address, now, rfl⟩
  · obtain ⟨before, hbefore, -⟩ := hinv.numbered.created.rank_le i hold
    have hlt := (List.getElem?_eq_some_iff.mp hbefore).1
    obtain ⟨g', hg', hcopy⟩ := h.copy_before hg hlt
    rw [hcopy] at hpending
    exact Int.le_trans (hinv.created i hold g' hg' pending hpending) hlatest
  · obtain ⟨g', hg', hcopy⟩ := h.copy_before hg hlt
    rw [hcopy] at hpending
    exact Int.le_trans (hpaced g' hg' pending hpending) (Int.le_max_right _ _)

theorem Tallied.step (hinv : Tallied period s clock) (hwhole : Time.second ∣ period)
    (hpaced : Paced lib period scheduleDate (s, clock) a) (h : ScheduleEffect lib s t a)
    (hspaced : Spaced period (armedTimes t.log)) : Tallied period t (tick s a t clock) := by
  have hlatest := latest_le_tick s a t clock
  have hstarted : ∀ start ∈ armedTimes s.log, start ≤ (tick s a t clock).latest :=
    fun start hstart => Int.le_trans (hinv.started start hstart) hlatest
  refine
    { numbered := hinv.numbered.step h
      count := ?_
      started := ?_
      due := ?_
      created := hinv.created_step hpaced h }
  · rcases h.armings with ⟨htimes, hlength⟩ | ⟨now, schedule, status, harms⟩
    · rw [htimes, hlength, hinv.count]
    · rw [harms.times, harms.goroutines, List.length_cons, List.length_append, hinv.count,
        List.length_singleton]
  · rcases h.armings with ⟨htimes, -⟩ | ⟨now, schedule, status, harms⟩
    · rw [htimes]
      exact hstarted
    · rw [harms.times]
      refine List.forall_mem_cons.mpr ⟨?_, hstarted⟩
      have hstored : (now.stored : Int) ≤ now := Int.ediv_mul_le now (by decide)
      rw [harms.action]
      exact Int.le_trans hstored (Int.le_max_right _ _)
  · rcases h.armings with ⟨htimes, hlength⟩ | ⟨now, schedule, status, harms⟩
    · intro i g hg
      have hlt := (List.getElem?_eq_some_iff.mp hg).1
      obtain ⟨before, hbefore, hcopy⟩ := h.copy_before hg (by omega)
      rw [htimes, hcopy]
      exact hinv.due i before hbefore
    · exact hinv.due_armed hwhole hpaced h harms hspaced

/-- One of so many different numbers is not less than their count, less one. -/
private theorem exists_length_le {l : List Nat} (hnodup : l.Nodup) (hne : l ≠ []) :
    ∃ i ∈ l, l.length ≤ i + 1 := by
  by_contra hnone
  have hsub : l ⊆ List.range (l.length - 1) := by
    intro i hi
    rw [List.mem_range]
    by_contra hlt
    exact hnone ⟨i, hi, by omega⟩
  have hle := (hnodup.subperm hsub).length_le
  have hpos := List.length_pos_iff.mpr hne
  rw [List.length_range] at hle
  omega

/-- So many runs have been created in at least so many periods. -/
theorem Tallied.created_mul_le (hinv : Tallied period s clock) (hperiod : 0 ≤ (period : Int)) :
    ∀ first ∈ (armedTimes s.log).getLast?,
      first + (createdBy s.log).length * period ≤ clock.latest := by
  intro first hfirst
  by_cases hnone : createdBy s.log = []
  · have hstarted := hinv.started first (List.mem_of_getLast? hfirst)
    rw [hnone, List.length_nil, Int.natCast_zero, Int.zero_mul, Int.add_zero]
    exact hstarted
  · obtain ⟨i, hi, hle⟩ := exists_length_le hinv.numbered.created.nodup hnone
    obtain ⟨g, hg, -⟩ := hinv.numbered.created.rank_le i hi
    obtain ⟨pending, hpending, hdue⟩ := hinv.due i g hg
    have hcount : ((createdBy s.log).length : Int) * period ≤ (i + 1 : Nat) * period :=
      Int.mul_le_mul_of_nonneg_right (Int.ofNat_le.mpr hle) hperiod
    exact Int.le_trans (Int.add_le_add_left hcount first)
      (Int.le_trans (hdue first hfirst) (hinv.created i hi g hg pending hpending))

/-! ## The rate limit -/

/-- In every run of the machine in which the schedule keeps its date and lasts
for the period whenever a pass looks at it, any two armings are at least a
period apart, and with the first of them taken for the start, the runs that
have been created have taken at least a period each. -/
theorem starts_spaced {start : Clock} (hwhole : Time.second ∣ period) (hperiod : 0 ≤ (period : Int))
    (h : (clockedMachine lib scheduleDate start).Reach (Paced lib period scheduleDate)
      (s, clock)) :
    (armedTimes s.log).Pairwise (fun later earlier => earlier + period ≤ later) ∧
      ∀ first ∈ (armedTimes s.log).getLast?,
        first + (createdBy s.log).length * period ≤ clock.latest := by
  have hinv : InPace period scheduleDate s clock ∧ Tallied period s clock := by
    refine h.invariant (I := fun x => InPace period scheduleDate x.1 x.2 ∧ Tallied period x.1 x.2)
      ?_ ?_
    · rintro ⟨s, clock⟩ ⟨⟨hdate, hgoroutines, hlog⟩, -⟩
      dsimp only at hdate hgoroutines hlog ⊢
      have hempty : armedTimes s.log = [] := by
        rw [hlog]
        rfl
      constructor
      · exact
          { date := hdate
            informed := by simp [AllInformed, hgoroutines]
            whole := by simp [hempty]
            spaced := by rw [hempty]; exact .nil
            next := by simp [hempty]
            slept := by simp [hgoroutines] }
      · exact
          { numbered := ⟨⟨by simp [hlog, createdBy], by simp [hlog, createdBy]⟩,
              ⟨by simp [hlog, recordedBy], by simp [hlog, recordedBy]⟩⟩
            count := by simp [hempty, hgoroutines]
            started := by simp [hempty]
            due := by simp [hgoroutines]
            created := by simp [hlog, createdBy] }
    · rintro ⟨s, clock⟩ a ⟨t, clock'⟩ ⟨hpace, htallied⟩ hpaced hstep
      obtain ⟨u, hu, hpair⟩ := Option.map_eq_some_iff.mp hstep
      cases hpair
      have hnext := hpace.step hwhole hpaced hu
      exact ⟨hnext, htallied.step hwhole hpaced (ScheduleWorld.step_effect hu) hnext.spaced⟩
  exact ⟨hinv.1.spaced.pairwise hperiod, hinv.2.created_mul_le hperiod⟩

end Pace

/-! ## An hourly schedule -/

/-- The first goroutine is late, so that the schedule is armed again; the
second creates a run. -/
def lateExecution : List ScheduleAction :=
  [ .reconcile 0 true, .reconcile (60 * Time.second) true
  , .reconcile (3601 * Time.second) true, .wake 0, .wake 1
  , .create 1 someAddress (7201 * Time.second), .record 1 ]

def lateExecutionWorld : ScheduleWorld × Clock :=
  ((clockedMachine Externals.plain "1h" ⟨0, 0⟩).exec
    (Paced Externals.plain (3600 * Time.second) "1h") (hourlyWorld true, ⟨0, 0⟩)
    lateExecution).getD (hourlyWorld true, ⟨0, 0⟩)

theorem starts_spaced_lateExecution :
    (armedTimes lateExecutionWorld.1.log).Pairwise
        (fun later earlier => earlier + 3600 * Time.second ≤ later) ∧
      (∀ first ∈ (armedTimes lateExecutionWorld.1.log).getLast?,
        first + (createdBy lateExecutionWorld.1.log).length * (3600 * Time.second) ≤
          lateExecutionWorld.2.latest) ∧
      armedTimes lateExecutionWorld.1.log = [3601 * Time.second, 0] ∧
      createdBy lateExecutionWorld.1.log = [1] := by
  have hinit : (clockedMachine Externals.plain "1h" ⟨0, 0⟩).init (hourlyWorld true, ⟨0, 0⟩) :=
    ⟨⟨rfl, rfl, rfl⟩, rfl⟩
  have hexec : (clockedMachine Externals.plain "1h" ⟨0, 0⟩).exec
      (Paced Externals.plain (3600 * Time.second) "1h") (hourlyWorld true, ⟨0, 0⟩)
      lateExecution = some lateExecutionWorld := by decide +kernel
  have hreach := Machine.reach_of_exec _ hinit hexec
  obtain ⟨hspaced, hcreated⟩ := starts_spaced (Dvd.intro_left _ rfl) (by decide) hreach
  exact ⟨hspaced, hcreated, by decide +kernel, by decide +kernel⟩

end PipelineOperator.Controller
