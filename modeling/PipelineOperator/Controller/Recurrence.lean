import PipelineOperator.Controller.NilAccess
import PipelineOperator.Controller.Operator
import PipelineOperator.Controller.Pacing
import PipelineOperator.Controller.Rearm
import PipelineOperator.Lib.Eventually
import PipelineOperator.Lib.Lasso

/-!
# A schedule drives itself

The reconciler of pipelines is called when a pipeline has changed, and when a
reconcile has asked to be called again.  Nothing else keeps a schedule going, so
a pass that did neither could be the last one.  A pass over a schedule without
an end is not: it leaves the guard of an execution in force, or it asks to be
called again, and the guard is lifted by a change.

So a schedule without an end is armed again and again if every execution that
has been recorded comes to its end.  Nothing is asked of the goroutines: a
pending date that its goroutine has not kept is overtaken by a later pass.

## Main results

* `outcome_of_unguarded`: a pass that no guard stops arms, or is too early.
* `Driven.to_come`: a pass is to come, or an execution is in progress.
* `armed_without_end`: the schedule is armed any number of times.
-/

namespace PipelineOperator.Controller

open Filter
open PipelineOperator.Lib
open PipelineOperator.Api

/-- The next execution can be computed at the time, and is not in the past. -/
def Ahead (lib : Externals) (schedule : Schedule) (now : Time) : Prop :=
  ∃ duration, 0 ≤ duration ∧
    scheduleDuration lib schedule.scheduleDate schedule.startDate now = .ok duration

/-- A pass is accepted at the step, at the given time. -/
def PassAt (a : Nat → ScheduleAction) (i : Nat) (now : Time) : Prop := a i = .reconcile now true

/-- The schedule repeats without an end date, and the next execution is ahead
whenever a pass looks at the clock. -/
structure Endless (lib : Externals) (schedule : Schedule) (a : Nat → ScheduleAction) : Prop where
  repeats : schedule.repeats = true
  no_end : schedule.endDate = none
  date : schedule.scheduleDate ≠ ""
  ahead : ∀ i now, PassAt a i now → Ahead lib schedule now

/-- An endless run of a pipeline that keeps its schedule.  The guard of an
execution is lifted at some time.  The manager has a first pass made; it has
one made after each change of the pipeline; and it has one made when a pass has
asked for it, at the time it has asked for or later. -/
structure Driven (lib : Externals) (schedule : Schedule) (s : Nat → ScheduleWorld)
    (a : Nat → ScheduleAction) : Prop where
  trace : (scheduleMachine lib fun pipeline =>
    pipeline.spec.schedule = some schedule ∧ Grounded pipeline.status).Trace s a
  kept : ∀ i spec, a i = .edit spec → spec.schedule = some schedule
  ends : ∀ i, GuardInForce (s i).status → ∃ j, i ≤ j ∧ ¬ GuardInForce (s j).status
  first : ∃ i now, PassAt a i now
  changed : ∀ i, (s i).pipeline.version ≠ (s (i + 1)).pipeline.version →
    ∃ j now, i < j ∧ PassAt a j now
  called : ∀ i now, PassAt a i now →
    let wait := requeueAfter now (ensureScheduleExecution lib (s i).pipeline.val now)
    0 < wait → ∃ j now', i < j ∧ PassAt a j now' ∧ now + wait ≤ now'

section Recurrence

variable {lib : Externals} {schedule : Schedule}

/-! ## A pass that arms -/

section Pass

variable {a : Nat → ScheduleAction} {s t : ScheduleWorld} {now : Time}

theorem armSchedule_of_endless (hendless : Endless lib schedule a) {status : PipelineStatus}
    (hguard : ¬ GuardInForce status) (hahead : Ahead lib schedule now) :
    (armSchedule lib schedule status now).arms = true := by
  obtain ⟨duration, -, hduration⟩ := hahead
  have hend : ∀ P : Time → Prop, ¬ ∃ endDate ∈ schedule.endDate, P endDate := by
    rintro P ⟨endDate, hendDate, -⟩
    rw [hendless.no_end] at hendDate
    cases hendDate
  have hrepeats : ¬ (¬ schedule.repeats ∧ 0 < status.scheduleRepeated) :=
    fun hstops => hstops.1 hendless.repeats
  rw [armSchedule, if_neg hguard, if_neg hendless.date, hduration]
  simp only [if_neg (hend _), if_neg hrepeats]
  rfl

/-- A pass that no guard stops arms, or is too early. -/
theorem outcome_of_unguarded (hendless : Endless lib schedule a)
    (hschedule : s.pipeline.val.spec.schedule = some schedule) (hgrounded : Grounded s.status)
    (hguard : ¬ GuardInForce s.status) (hahead : Ahead lib schedule now) :
    Arms lib s now ∨ (ensureScheduleExecution lib s.pipeline.val now = .requeued ∧
      ∃ pending ∈ s.status.schedulePendingExecuctionDate, now < pending) := by
  have hdropped : ¬ GuardInForce
      { s.pipeline.val.status with schedulePendingExecuctionDate := none } := hguard
  unfold Arms ensureScheduleExecution
  simp only [hschedule]
  split
  · exact Or.inl (armSchedule_of_endless hendless hguard hahead)
  · next pending hpending hnone =>
      have hsome : s.status.schedule.isSome :=
        hgrounded (by rw [ScheduleWorld.status, hpending]; rfl)
      rw [ScheduleWorld.status, hnone] at hsome
      cases hsome
  · next pending current hpending _ =>
      split
      · split
        · next hearly => exact Or.inr ⟨rfl, pending, hpending, hearly⟩
        · left
          split
          · exact armSchedule_of_endless hendless hdropped hahead
          · exact armSchedule_of_endless hendless hguard hahead
      · exact Or.inl (armSchedule_of_endless hendless hguard hahead)

theorem minute_pos : 0 < minute := by decide

/-- A pass that arms asks to be called again. -/
theorem requeueAfter_of_arms (hschedule : s.pipeline.val.spec.schedule = some schedule)
    (hahead : Ahead lib schedule now) (harms : Arms lib s now) :
    0 < requeueAfter now (ensureScheduleExecution lib s.pipeline.val now) := by
  rw [Arms] at harms
  cases houtcome : ensureScheduleExecution lib s.pipeline.val now with
  | armed status reset =>
      obtain ⟨-, duration, hduration, hpending⟩ := written_of_armed hschedule houtcome
      obtain ⟨duration', hnonneg, hduration'⟩ := hahead
      cases hduration.symm.trans hduration'
      rw [requeueAfter, hpending, Option.getD_some]
      have hstored : ∀ t d : Int, 0 ≤ d →
          0 < (t + d) / 1000000000 * 1000000000 - t + 3 * 1000000000 := by
        intro t d hd
        omega
      exact hstored now duration hnonneg
  | _ =>
      rw [houtcome] at harms
      cases harms

/-- It starts a goroutine. -/
theorem length_of_arms (harms : Arms lib s now)
    (hstep : s.step lib (.reconcile now true) = some t) :
    t.goroutines.length = s.goroutines.length + 1 := by
  cases hstep
  show (s.applyOutcome now (ensureScheduleExecution lib s.pipeline.val now)).goroutines.length = _
  rw [Arms] at harms
  cases houtcome : ensureScheduleExecution lib s.pipeline.val now with
  | armed status reset => simp [ScheduleWorld.applyOutcome]
  | _ =>
      rw [houtcome] at harms
      cases harms

end Pass

/-! ## A step that does not arm -/

section Step

variable {s t : ScheduleWorld} {a : ScheduleAction}

/-- A pipeline keeps its schedule. -/
theorem schedule_step (hkept : ∀ spec, a = .edit spec → spec.schedule = some schedule)
    (hschedule : s.pipeline.val.spec.schedule = some schedule) (hstep : s.step lib a = some t) :
    t.pipeline.val.spec.schedule = some schedule := by
  by_cases hedit : ∃ spec, a = .edit spec
  · obtain ⟨spec, rfl⟩ := hedit
    cases hstep
    show (s.pipeline.write { s.pipeline.val with spec := spec }).val.spec.schedule = some schedule
    rw [Versioned.write_val]
    exact hkept spec rfl
  · have hkeeps : KeepsSpec s a := by
      cases a with
      | edit spec => exact absurd ⟨spec, rfl⟩ hedit
      | _ => trivial
    rw [(ScheduleWorld.step_effect hstep).spec hkeeps]
    exact hschedule

/-- A goroutine is started with every arming, and there are no other ones. -/
theorem ScheduleEffect.started (h : ScheduleEffect lib s t a) :
    (armedTimes t.log = armedTimes s.log ∧ t.goroutines.length = s.goroutines.length) ∨
      ((armedTimes t.log).length = (armedTimes s.log).length + 1 ∧
        t.goroutines.length = s.goroutines.length + 1) := by
  rcases h.armings with hsame | ⟨now, schedule, status, harms⟩
  · exact Or.inl hsame
  · right
    rw [harms.times, harms.goroutines, List.length_append]
    exact ⟨rfl, rfl⟩

/-- Without an arming or a record no guard is put in force and no pending date
is written. -/
theorem ScheduleEffect.unarmed (h : ScheduleEffect lib s t a)
    (hschedule : s.pipeline.val.spec.schedule = some schedule)
    (hstarted : t.goroutines.length = s.goroutines.length)
    (hrecorded : (recordedBy t.log).length = (recordedBy s.log).length) :
    (GuardInForce t.status → GuardInForce s.status) ∧
      (t.status.schedulePendingExecuctionDate = s.status.schedulePendingExecuctionDate ∨
        t.status.schedulePendingExecuctionDate = none) := by
  cases h with
  | kept hfields _ _ _ _ _ =>
      exact ⟨(guardInForce_of_fields hfields).mp, Or.inl (congrArg ScheduleFields.pending hfields)⟩
  | removed hspec _ _ =>
      rw [hspec] at hschedule
      cases hschedule
  | cleared hcleared ht =>
      subst ht
      simp only [status_addEvent, status_writeStatus]
      exact ⟨hcleared.guardInForce.mp, hcleared.pending⟩
  | armed _ _ _ _ _ ht =>
      subst ht
      simp [ScheduleWorld.applyOutcome] at hstarted
  | ended _ ht =>
      subst ht
      rw [status_writeStatus]
      exact ⟨fun hforce => absurd hforce.2 (by simp), Or.inl rfl⟩
  | stopped _ _ ht => subst ht; exact ⟨id, Or.inl rfl⟩
  | passed _ _ ht => subst ht; exact ⟨id, Or.inl rfl⟩
  | created _ _ _ ht => subst ht; exact ⟨id, Or.inl rfl⟩
  | recorded _ _ ht =>
      subst ht
      simp [ScheduleWorld.addEvent, ScheduleWorld.setPhase, ScheduleWorld.writeStatus,
        recordedBy_cons, ScheduleEvent.recorder] at hrecorded
  | refused _ _ ht => subst ht; exact ⟨id, Or.inl rfl⟩

/-- Records are only added. -/
theorem ScheduleEffect.recorded_le (h : ScheduleEffect lib s t a) :
    (recordedBy s.log).length ≤ (recordedBy t.log).length := by
  rcases h.log with hlog | ⟨event, hlog, -⟩
  · rw [hlog]
  · rw [hlog, recordedBy_cons, List.length_append]
    exact Nat.le_add_left _ _

end Step

/-! ## Endless runs -/

section Endless

variable {s : Nat → ScheduleWorld} {a : Nat → ScheduleAction}

theorem Driven.effect (h : Driven lib schedule s a) (i : Nat) :
    ScheduleEffect lib (s i) (s (i + 1)) (a i) :=
  ScheduleWorld.step_effect (h.trace.step i)

theorem Driven.spec (h : Driven lib schedule s a) (i : Nat) :
    (s i).pipeline.val.spec.schedule = some schedule := by
  induction i with
  | zero => exact h.trace.init.1.1
  | succ i ih => exact schedule_step (h.kept i) ih (h.trace.step i)

theorem Driven.grounded (h : Driven lib schedule s a) (i : Nat) : Grounded (s i).status :=
  h.trace.invariant (I := fun s => Grounded s.status) (fun _ hinit => hinit.1.2)
    (fun _ _ _ hinv hstep => hinv.step hstep) i

/-- As many goroutines as armings, and no more records. -/
theorem Driven.lengths (h : Driven lib schedule s a) (i : Nat) :
    (armedTimes (s i).log).length = (s i).goroutines.length ∧
      (recordedBy (s i).log).length ≤ (s i).goroutines.length := by
  constructor
  · induction i with
    | zero => rw [h.trace.init.2.1, h.trace.init.2.2]; rfl
    | succ i ih =>
        rcases (h.effect i).started with ⟨htimes, hlength⟩ | ⟨htimes, hlength⟩
        · rw [htimes, hlength, ih]
        · rw [htimes, hlength, ih]
  · have hnumbered : Numbered (s i) := by
      refine h.trace.invariant (I := Numbered) ?_ ?_ i
      · intro s hinit
        exact ⟨⟨by simp [hinit.2.2, createdBy], by simp [hinit.2.2, createdBy]⟩,
          ⟨by simp [hinit.2.2, recordedBy], by simp [hinit.2.2, recordedBy]⟩⟩
      · intro s a t hinv hstep
        exact hinv.step (ScheduleWorld.step_effect hstep)
    have hsub : recordedBy (s i).log ⊆ List.range (s i).goroutines.length := by
      intro j hj
      obtain ⟨g, hg, -⟩ := hnumbered.recorded.rank_le j hj
      exact List.mem_range.mpr (List.getElem?_eq_some_iff.mp hg).1
    have hle := (hnumbered.recorded.nodup.subperm hsub).length_le
    rwa [List.length_range] at hle

/-- If the armings stay below a bound, a moment comes after which the guard is
lifted for good and no pending date is written. -/
theorem Driven.quiet (h : Driven lib schedule s a) {bound : Nat}
    (hbound : ∀ i, (armedTimes (s i).log).length ≤ bound) :
    ∃ n, ∀ i, n ≤ i → ¬ GuardInForce (s i).status ∧
      (∀ pending ∈ (s i).status.schedulePendingExecuctionDate,
        (s n).status.schedulePendingExecuctionDate = some pending) ∧
      (s (i + 1)).goroutines.length = (s i).goroutines.length := by
  have hstarted : ∀ i, (s i).goroutines.length ≤ bound := by
    intro i
    rw [← (h.lengths i).1]
    exact hbound i
  have hstarts : ∀ᶠ i in atTop, (s (i + 1)).goroutines.length = (s i).goroutines.length := by
    refine eventually_still (f := fun i => (s i).goroutines.length) (fun i => ?_) hstarted
    rcases (h.effect i).started with ⟨-, hlength⟩ | ⟨-, hlength⟩
    · exact hlength.ge
    · omega
  have hrecorded : ∀ i, (recordedBy (s i).log).length ≤ bound :=
    fun i => Nat.le_trans (h.lengths i).2 (hstarted i)
  have hrecords : ∀ᶠ i in atTop,
      (recordedBy (s (i + 1)).log).length = (recordedBy (s i).log).length :=
    eventually_still (fun i => (h.effect i).recorded_le) hrecorded
  obtain ⟨n, hn⟩ := eventually_atTop.mp (hstarts.and hrecords)
  -- The guard is lifted at some moment after the last record.
  have hlifted : ∃ m, n ≤ m ∧ ¬ GuardInForce (s m).status := by
    by_cases hforce : GuardInForce (s n).status
    · exact h.ends n hforce
    · exact ⟨n, Nat.le_refl n, hforce⟩
  obtain ⟨m, hm, hguard⟩ := hlifted
  have hunarmed := fun i (hi : m ≤ i) =>
    (h.effect i).unarmed (h.spec i) (hn i (Nat.le_trans hm hi)).1 (hn i (Nat.le_trans hm hi)).2
  refine ⟨m, fun i hi => ⟨?_, ?_, (hn i (Nat.le_trans hm hi)).1⟩⟩
  · exact kept_from (P := fun i => ¬ GuardInForce (s i).status) hguard
      (fun j hj hlifted hforce => hlifted ((hunarmed j hj).1 hforce)) i hi
  · refine kept_from (P := fun i => ∀ pending ∈ (s i).status.schedulePendingExecuctionDate,
      (s m).status.schedulePendingExecuctionDate = some pending) (fun _ hpending => hpending)
      (fun j hj hkept pending hpending => ?_) i hi
    rcases (hunarmed j hj).2 with hsame | hnone
    · rw [hsame] at hpending
      exact hkept pending hpending
    · rw [hnone] at hpending
      cases hpending

/-- A step that lifts the guard changes the pipeline. -/
theorem Driven.version_of_lifted (h : Driven lib schedule s a) {i : Nat}
    (hforce : GuardInForce (s i).status) (hlifted : ¬ GuardInForce (s (i + 1)).status) :
    (s i).pipeline.version ≠ (s (i + 1)).pipeline.version := by
  intro hversion
  have hsnapshot := (h.effect i).snapshot (Versioned.Snapshot.refl (s i).pipeline)
  apply hlifted
  rw [ScheduleWorld.status, ← hsnapshot.eq_of_version hversion]
  exact hforce

/-- No pass is the last one, unless an execution is in progress. -/
theorem Driven.to_come (h : Driven lib schedule s a) (hendless : Endless lib schedule a) (i : Nat) :
    GuardInForce (s i).status ∨ ∃ j now, i ≤ j ∧ PassAt a j now := by
  induction i with
  | zero =>
      obtain ⟨j, now, hpass⟩ := h.first
      exact Or.inr ⟨j, now, Nat.zero_le j, hpass⟩
  | succ i ih =>
      by_cases hforce : GuardInForce (s i).status
      · by_cases hlifted : GuardInForce (s (i + 1)).status
        · exact Or.inl hlifted
        · exact Or.inr (h.changed i (h.version_of_lifted hforce hlifted))
      · obtain ⟨j, now, hj, hpass⟩ := ih.resolve_left hforce
        right
        rcases Nat.eq_or_lt_of_le hj with rfl | hlt
        · -- The pass of this step asks for another one.
          have hwait : 0 < requeueAfter now
              (ensureScheduleExecution lib (s i).pipeline.val now) := by
            have hahead := hendless.ahead i now hpass
            rcases outcome_of_unguarded hendless (h.spec i) (h.grounded i) hforce hahead with
              harms | ⟨hrequeued, -⟩
            · exact requeueAfter_of_arms (h.spec i) hahead harms
            · rw [hrequeued]
              exact minute_pos
          obtain ⟨j, now', hj, hpass', -⟩ := h.called i now hpass hwait
          exact ⟨j, now', hj, hpass'⟩
        · exact ⟨j, now, hlt, hpass⟩

/-- Passes that are too early come ever later. -/
private theorem Driven.later (h : Driven lib schedule s a) {n : Nat}
    (hearly : ∀ j now, n ≤ j → PassAt a j now →
      ensureScheduleExecution lib (s j).pipeline.val now = .requeued)
    {first : Nat} {start : Time} (hfirst : n ≤ first) (hpass : PassAt a first start) (k : Nat) :
    ∃ j now, n ≤ j ∧ PassAt a j now ∧ start + k * minute ≤ now := by
  induction k with
  | zero => exact ⟨first, start, hfirst, hpass, by simp⟩
  | succ k ih =>
      obtain ⟨j, now, hj, hpass, hle⟩ := ih
      have hcalled := h.called j now hpass
      rw [hearly j now hj hpass] at hcalled
      obtain ⟨j', now', hlt, hpass', hlater⟩ := hcalled minute_pos
      refine ⟨j', now', Nat.le_trans hj (Nat.le_of_lt hlt), hpass', ?_⟩
      have hsum : start + ((k + 1 : Nat) : Int) * minute = start + k * minute + minute := by
        rw [Int.natCast_succ, Int.add_mul, Int.one_mul, Int.add_assoc]
      rw [hsum]
      exact Int.le_trans (Int.add_le_add_right hle minute) hlater

/-- Armings stay below no bound. -/
theorem Driven.exceeds (h : Driven lib schedule s a) (hendless : Endless lib schedule a)
    (bound : Nat) : ∃ i, bound < (armedTimes (s i).log).length := by
  by_contra hnone
  have hbound : ∀ i, (armedTimes (s i).log).length ≤ bound := by
    intro i
    by_contra hlt
    exact hnone ⟨i, by omega⟩
  obtain ⟨n, hn⟩ := h.quiet hbound
  -- No pass arms any more, so each is too early.
  have hoften : ∀ j now, n ≤ j → PassAt a j now →
      ensureScheduleExecution lib (s j).pipeline.val now = .requeued ∧
        ∃ pending ∈ (s n).status.schedulePendingExecuctionDate, now < pending := by
    intro j now hj hpass
    obtain ⟨hguard, hpending, hstill⟩ := hn j hj
    rcases outcome_of_unguarded hendless (h.spec j) (h.grounded j) hguard
        (hendless.ahead j now hpass) with
      harms | ⟨hrequeued, pending, hstored, hearly⟩
    · have hstep := h.trace.step j
      rw [hpass] at hstep
      have hstarted := length_of_arms harms hstep
      omega
    · exact ⟨hrequeued, pending, hpending pending hstored, hearly⟩
  obtain ⟨first, start, hfirst, hpass⟩ := (h.to_come hendless n).resolve_left (hn n le_rfl).1
  obtain ⟨-, pending, hpending, -⟩ := hoften first start hfirst hpass
  obtain ⟨j, now, hj, hpass', hlate⟩ := h.later (fun j now hj hpass => (hoften j now hj hpass).1)
    hfirst hpass (Int.toNat (pending - start))
  obtain ⟨-, pending', hpending', hearly⟩ := hoften j now hj hpass'
  rw [hpending] at hpending'
  cases hpending'
  have hover : ∀ t u v : Int, u + (t - u).toNat * 60000000000 ≤ v → ¬ v < t := by
    intro t u v hle
    omega
  exact hover pending start now hlate hearly

/-- In every run in which the manager keeps its word and executions end, a pass
is always to come unless an execution is in progress, and the schedule is armed
any number of times. -/
theorem armed_without_end (h : Driven lib schedule s a) (hendless : Endless lib schedule a) :
    (∀ i, GuardInForce (s i).status ∨ ∃ j now, i ≤ j ∧ PassAt a j now) ∧
      ∀ n, ∀ᶠ i in atTop, n ≤ (armedTimes (s i).log).length := by
  refine ⟨h.to_come hendless, fun n => ?_⟩
  have hgrows : Monotone fun i => (armedTimes (s i).log).length := by
    refine monotone_nat_of_le_succ fun i => ?_
    rcases (h.effect i).started with ⟨htimes, -⟩ | ⟨htimes, -⟩
    · rw [htimes]
    · omega
  obtain ⟨i, hi⟩ := h.exceeds hendless n
  exact eventually_atTop.mpr ⟨i, fun j hj => Nat.le_trans (Nat.le_of_lt hi) (hgrows hj)⟩

end Endless

end Recurrence

/-! ## An hourly schedule -/

/-- When the passes look at the clock. -/
def hourlyTime (i : Nat) : Time := Int.mul i (3601 * Time.second)

/-- The first execution comes to its end.  Then there are passes whose goroutines
never come to anything. -/
def hourlyAction (i : Nat) : ScheduleAction :=
  firstExecution.getD i (.reconcile (hourlyTime i) true)

def hourlyStates : Nat → ScheduleWorld :=
  (scheduleMachine Externals.plain fun pipeline =>
    pipeline.spec.schedule = some (hourlySchedule true) ∧ Grounded pipeline.status).follow
      (hourlyWorld true) hourlyAction

theorem hourlyAction_pass {i : Nat} (hi : 6 ≤ i) :
    hourlyAction i = .reconcile (hourlyTime i) true :=
  List.getD_eq_default _ _ hi

/-- Nobody edits the spec. -/
theorem hourlyAction_ne_edit (i : Nat) (spec : PipelineSpec) : hourlyAction i ≠ .edit spec := by
  by_cases hi : i < 6
  · have hall : ∀ a ∈ firstExecution, a ≠ .edit spec := by simp [firstExecution]
    have hmem : hourlyAction i ∈ firstExecution := by
      rw [hourlyAction, List.getD_eq_getElem _ _ hi]
      exact List.getElem_mem hi
    exact hall _ hmem
  · rw [hourlyAction_pass (Nat.not_lt.mp hi)]
    intro hedit
    cases hedit

theorem hourlySchedule_endless :
    Endless Externals.plain (hourlySchedule true) hourlyAction where
  repeats := rfl
  no_end := rfl
  date := by simp [hourlySchedule]
  ahead := by
    intro _ now _
    have hwaiting : waitingTime (scheduleStart none now) now = 0 :=
      waitingTime_of_le (Int.le_refl now)
    have hduration : waitingTime (scheduleStart none now) now + matchedDuration "1h" =
        3600 * Time.second := by
      rw [hwaiting]
      decide +kernel
    have hfits : waitingTime (scheduleStart none now) now + matchedDuration "1h" ≤ maxDuration := by
      rw [hduration]
      decide
    refine ⟨_, ?_, (scheduleDuration_of_date (e := "1h") rfl none now).1 _
      (durationFromDateString_of_fits hfits)⟩
    show 0 ≤ waitingTime (scheduleStart none now) now + matchedDuration "1h"
    rw [hduration]
    decide

/-- No pass puts the guard in force. -/
theorem ScheduleEffect.guardInForce_of_pass {lib : Externals} {s t : ScheduleWorld} {now : Time}
    (h : ScheduleEffect lib s t (.reconcile now true)) (hforce : GuardInForce t.status) :
    GuardInForce s.status := by
  cases h with
  | kept hfields _ _ _ _ _ => exact (guardInForce_of_fields hfields).mp hforce
  | removed _ _ ht =>
      subst ht
      simp [GuardInForce, removedStatus] at hforce
  | cleared hcleared ht =>
      subst ht
      simp only [status_addEvent, status_writeStatus] at hforce
      exact hcleared.guardInForce.mp hforce
  | @armed _ schedule status duration _ _ hguard _ _ ht =>
      subst ht
      have harmed : GuardInForce (armedStatus schedule duration now status) := by
        rw [← status_writeStatus s (armedStatus schedule duration now status)]
        exact hforce
      by_cases hreset : NeedsReset schedule status
      · simp [GuardInForce, armedStatus, resetStatus, hreset] at harmed
      · simp only [GuardInForce, armedStatus, resetStatus, if_neg hreset] at harmed
        exact absurd harmed hguard
  | stopped _ _ ht =>
      subst ht
      exact hforce

theorem hourlyStates_step (i : Nat) :
    (hourlyStates i).step Externals.plain (hourlyAction i) = some (hourlyStates (i + 1)) := by
  by_cases hi : i < 6
  · have hsome : ((scheduleMachine Externals.plain fun pipeline =>
        pipeline.spec.schedule = some (hourlySchedule true) ∧ Grounded pipeline.status).exec
          (fun _ _ => True) (hourlyWorld true) firstExecution).isSome = true := by decide +kernel
    obtain ⟨t, ht⟩ := Option.isSome_iff_exists.mp hsome
    have hsteps := (Machine.follow_of_exec (i := 0) (a := hourlyAction) (fun j hj => by
      rw [Nat.zero_add, hourlyAction, List.getD_eq_getElem _ _ hj, List.getElem?_eq_getElem hj])
      ht).2 i hi
    rw [Nat.zero_add] at hsteps
    exact hsteps
  · have hpass := hourlyAction_pass (Nat.not_lt.mp hi)
    have hstep : (hourlyStates i).step Externals.plain (hourlyAction i) =
        some ((hourlyStates i).pass Externals.plain (hourlyTime i)) := by
      rw [hpass]
      rfl
    rw [hstep]
    exact congrArg some (congrArg (Option.getD · (hourlyStates i)) hstep).symm

/-- After the first execution no guard is in force. -/
theorem hourlyStates_unguarded (i : Nat) (hi : 6 ≤ i) :
    ¬ GuardInForce (hourlyStates i).status := by
  refine kept_from (P := fun i => ¬ GuardInForce (hourlyStates i).status) (by decide +kernel)
    (fun k hk hlifted hforce => hlifted ?_) i hi
  have hstep := hourlyStates_step k
  rw [hourlyAction_pass hk] at hstep
  exact (ScheduleWorld.step_effect hstep).guardInForce_of_pass hforce

/-- There is a pass later than any time. -/
theorem exists_hourlyTime (i : Nat) (time : Time) :
    ∃ j, i < j ∧ PassAt hourlyAction j (hourlyTime j) ∧ time ≤ hourlyTime j := by
  have hlate : ∀ (n : Nat) (t : Int), t ≤ ((n + 6 + t.toNat : Nat) : Int) * 3601000000000 := by
    intro n t
    omega
  exact ⟨i + 6 + time.toNat, by omega, hourlyAction_pass (by omega), hlate i time⟩

theorem hourlyStates_driven :
    Driven Externals.plain (hourlySchedule true) hourlyStates hourlyAction where
  trace :=
    { init := ⟨⟨rfl, by simp [Grounded, hourlyStates, Machine.follow, hourlyWorld, hourly]⟩,
        rfl, rfl⟩
      step := hourlyStates_step }
  kept := fun i spec hedit => absurd hedit (hourlyAction_ne_edit i spec)
  ends := fun i _ => ⟨i + 6, Nat.le_add_right i 6, hourlyStates_unguarded (i + 6) (by omega)⟩
  first := ⟨0, 0, rfl⟩
  changed := by
    intro i _
    obtain ⟨j, hlt, hpass, -⟩ := exists_hourlyTime i 0
    exact ⟨j, _, hlt, hpass⟩
  called := by
    intro i now _ wait _
    obtain ⟨j, hlt, hpass, hle⟩ := exists_hourlyTime i (now + wait)
    exact ⟨j, _, hlt, hpass, hle⟩

/-- The record of the first execution puts the guard in force. -/
theorem armed_without_end_hourly :
    GuardInForce (hourlyStates 4).status ∧
      ∀ᶠ i in atTop, 100 ≤ (armedTimes (hourlyStates i).log).length :=
  ⟨by decide +kernel, (armed_without_end hourlyStates_driven hourlySchedule_endless).2 100⟩

end PipelineOperator.Controller
