import PipelineOperator.Controller.InFlight
import PipelineOperator.Controller.RunExists

/-!
# Counting executions

A goroutine creates its run and records the execution in two writes.  The
second is refused when somebody else has written the pipeline in between, and
unlike the other writers the goroutine does not try again: the run exists and
is not counted.  The count is exact as long as this does not happen.

## Main results

* `Counted.step`: the count is that of the recorded executions, always.
* `counts_exactly`: it is that of the created runs in every run of the machine
  in which no goroutine loses its record.
* `lost_record`: it is not where one does, and a schedule that does not repeat
  is then executed again.
-/

namespace PipelineOperator.Controller

open PipelineOperator.Lib
open PipelineOperator.Api

/-! ## Reading the log -/

/-- The events after the latest reset. -/
def sinceReset (log : List ScheduleEvent) : List ScheduleEvent :=
  log.takeWhile fun event => !event.resets

/-- The goroutine that creates a run in this event. -/
def ScheduleEvent.creator (event : ScheduleEvent) : Option Nat := event.creation.map Prod.fst

/-- The goroutine that records its execution in this event. -/
def ScheduleEvent.recorder : ScheduleEvent → Option Nat
  | .armed _ _ _ => none
  | .cleared _ => none
  | .created _ _ => none
  | .recorded i => some i

def createdBy (log : List ScheduleEvent) : List Nat := log.filterMap ScheduleEvent.creator

def recordedBy (log : List ScheduleEvent) : List Nat := log.filterMap ScheduleEvent.recorder

/-- The number of runs created since the count was last reset. -/
def createdSinceReset (log : List ScheduleEvent) : Nat := (createdBy (sinceReset log)).length

theorem sinceReset_cons (event : ScheduleEvent) (log : List ScheduleEvent) :
    sinceReset (event :: log) = if event.resets then [] else event :: sinceReset log := by
  cases hresets : event.resets <;> simp [sinceReset, hresets]

theorem createdBy_cons (event : ScheduleEvent) (log : List ScheduleEvent) :
    createdBy (event :: log) = event.creator.toList ++ createdBy log := by
  cases hcreator : event.creator <;> simp [createdBy, hcreator]

theorem recordedBy_cons (event : ScheduleEvent) (log : List ScheduleEvent) :
    recordedBy (event :: log) = event.recorder.toList ++ recordedBy log := by
  cases hrecorder : event.recorder <;> simp [recordedBy, hrecorder]

/-- What was created since the reset was created. -/
theorem createdBy_sinceReset_sublist (log : List ScheduleEvent) :
    (createdBy (sinceReset log)).Sublist (createdBy log) :=
  (List.takeWhile_sublist _).filterMap _

theorem recordedBy_sinceReset_sublist (log : List ScheduleEvent) :
    (recordedBy (sinceReset log)).Sublist (recordedBy log) :=
  (List.takeWhile_sublist _).filterMap _

/-! ## Lost records -/

/-- A goroutine loses its record: its write is refused, and the count has not
been reset since it has created its run. -/
def LosesRecord (s : ScheduleWorld) (i : Nat) : Prop :=
  i ∈ createdBy (sinceReset s.log) ∧ Refused s i

instance (s : ScheduleWorld) (i : Nat) : Decidable (LosesRecord s i) := by
  unfold LosesRecord
  infer_instance

/-- The goroutine that writes the status. -/
def ScheduleAction.recorder : ScheduleAction → Option Nat
  | .record i => some i
  | _ => none

/-- No goroutine loses its record. -/
def RecordsInTime (s : ScheduleWorld) (a : ScheduleAction) : Prop :=
  ∀ i ∈ a.recorder, ¬ LosesRecord s i

instance (s : ScheduleWorld) (a : ScheduleAction) : Decidable (RecordsInTime s a) := by
  unfold RecordsInTime
  infer_instance

/-- While no goroutine is between its two writes, the count is the number of
runs created since its last reset, and a schedule that does not repeat has
created at most one. -/
def CountsExactly (s : ScheduleWorld) : Prop :=
  (∀ i < s.goroutines.length, ¬ InFlight s i) →
    s.status.scheduleRepeated = createdSinceReset s.log ∧
      ∀ schedule ∈ s.status.schedule, schedule.repeats = false → createdSinceReset s.log ≤ 1

instance (s : ScheduleWorld) : Decidable (CountsExactly s) := by
  unfold CountsExactly
  infer_instance

section Count

variable {lib : Externals} {s t : ScheduleWorld} {a : ScheduleAction}

/-! ## Who has created and who has recorded -/

/-- The goroutines of a list are all different and have got at least to the
phase with the given rank. -/
structure Ranked (s : ScheduleWorld) (ids : List Nat) (rank : Nat) : Prop where
  nodup : ids.Nodup
  rank_le : ∀ i ∈ ids, ∃ g, s.goroutines[i]? = some g ∧ rank ≤ g.phase.rank

private theorem Ranked.forward {ids : List Nat} {rank : Nat} (hinv : Ranked s ids rank)
    (h : ScheduleEffect lib s t a) : Ranked t ids rank := by
  refine ⟨hinv.nodup, ?_⟩
  intro i hi
  obtain ⟨before, hbefore, hrank⟩ := hinv.rank_le i hi
  obtain ⟨after, hafter, hle⟩ := h.forward hbefore
  exact ⟨after, hafter, Nat.le_trans hrank hle⟩

/-- A goroutine that has not got there is none of the list, and joins it when
it gets there. -/
private theorem Ranked.cons {ids : List Nat} {rank : Nat} (hinv : Ranked s ids rank)
    (hforward : Ranked t ids rank) {i : Nat} {before after : Goroutine}
    (hbefore : s.goroutines[i]? = some before) (hlt : before.phase.rank < rank)
    (hafter : t.goroutines[i]? = some after) (hle : rank ≤ after.phase.rank) :
    Ranked t (i :: ids) rank := by
  have hnew : i ∉ ids := by
    intro hi
    obtain ⟨g, hg, hrank⟩ := hinv.rank_le i hi
    rw [hbefore] at hg
    cases hg
    omega
  refine ⟨List.nodup_cons.mpr ⟨hnew, hforward.nodup⟩, ?_⟩
  intro j hj
  rcases List.mem_cons.mp hj with rfl | hj
  · exact ⟨after, hafter, hle⟩
  · exact hforward.rank_le j hj

/-- A goroutine creates one run and records it once, in this order. -/
structure Numbered (s : ScheduleWorld) : Prop where
  created : Ranked s (createdBy s.log) 2
  recorded : Ranked s (recordedBy s.log) 3

theorem Numbered.step (hinv : Numbered s) (h : ScheduleEffect lib s t a) : Numbered t := by
  have hcreated := hinv.created.forward h
  have hrecorded := hinv.recorded.forward h
  cases h with
  | kept _ _ _ _ _ hlog => exact ⟨by rwa [hlog], by rwa [hlog]⟩
  | removed _ _ ht => subst ht; exact ⟨hcreated, hrecorded⟩
  | cleared _ ht => subst ht; exact ⟨hcreated, hrecorded⟩
  | armed _ _ _ _ _ ht => subst ht; exact ⟨hcreated, hrecorded⟩
  | ended _ ht => subst ht; exact ⟨hcreated, hrecorded⟩
  | stopped _ _ ht => subst ht; exact ⟨hcreated, hrecorded⟩
  | passed _ _ ht => subst ht; exact ⟨hcreated, hrecorded⟩
  | created hg _ _ ht =>
      subst ht
      refine ⟨?_, hrecorded⟩
      refine hinv.created.cons hcreated hg (by simp)
        ((getElem?_setPhase hg _ _ _).trans (if_pos rfl)) (by simp)
  | recorded hg hversion ht =>
      subst ht
      refine ⟨hcreated, ?_⟩
      refine hinv.recorded.cons hrecorded hg (by simp)
        ((getElem?_setPhase hg _ _ _).trans (if_pos rfl)) (by simp)
  | refused _ _ ht => subst ht; exact ⟨hcreated, hrecorded⟩

/-! ## The count -/

/-- A goroutine in flight whose write would be accepted has created its run
after the latest reset. -/
def CreatedSince (s : ScheduleWorld) : Prop :=
  ∀ (i : Nat) (g : Goroutine), s.goroutines[i]? = some g → g.phase.rank = 2 →
    ∀ read ∈ g.phase.read, read.version = s.pipeline.version →
      i ∈ createdBy (sinceReset s.log)

theorem CreatedSince.step (hinv : CreatedSince s) (hinformed : AllInformed s)
    (h : ScheduleEffect lib s t a) : CreatedSince t := by
  intro i g hg hrank read hread hversion
  rcases h.inFlight_before hg hrank with hbefore | ⟨run, hlog⟩
  · have hcurrent := h.current ((hinformed i g hbefore).snapshot read hread) hversion
    have hmem := hinv i g hbefore hrank read hread hcurrent
    rcases h.log with hlog | ⟨event, hlog, hreset, -⟩
    · rw [hlog]
      exact hmem
    · rw [hlog, sinceReset_cons]
      split
      · next hresets =>
          have hlt := hreset hresets
          omega
      · rw [createdBy_cons]
        exact List.mem_append_right _ hmem
  · rw [hlog, sinceReset_cons]
    simp [ScheduleEvent.resets, createdBy_cons, ScheduleEvent.creator, ScheduleEvent.creation]

/-- The count is that of the executions recorded since the latest reset. -/
structure Counted (s : ScheduleWorld) : Prop where
  repeated : s.status.scheduleRepeated = (recordedBy (sinceReset s.log)).length
  created : ∀ i ∈ recordedBy (sinceReset s.log), i ∈ createdBy (sinceReset s.log)
  once : ∀ schedule ∈ s.status.schedule, schedule.repeats = false →
    s.status.scheduleRepeated ≤ 1

/-- An event that neither resets nor records keeps what has been recorded. -/
private theorem recordedBy_sinceReset_cons {event : ScheduleEvent} (log : List ScheduleEvent)
    (hresets : event.resets = false) (hrecorder : event.recorder = none) :
    recordedBy (sinceReset (event :: log)) = recordedBy (sinceReset log) := by
  simp [sinceReset_cons, hresets, recordedBy_cons, hrecorder]

/-- An event that does not reset keeps what has been created. -/
private theorem mem_createdBy_sinceReset_cons {event : ScheduleEvent} {log : List ScheduleEvent}
    (hresets : event.resets = false) {i : Nat} (hi : i ∈ createdBy (sinceReset log)) :
    i ∈ createdBy (sinceReset (event :: log)) := by
  simp only [sinceReset_cons, hresets, createdBy_cons, Bool.false_eq_true, if_false]
  exact List.mem_append_right _ hi

/-- A step that keeps the count and writes nothing to the log. -/
private theorem Counted.keep (hinv : Counted s) (hlog : t.log = s.log)
    (hrepeated : t.status.scheduleRepeated = s.status.scheduleRepeated)
    (hschedule : t.status.schedule = s.status.schedule) : Counted t := by
  refine
    { repeated := by rw [hrepeated, hlog, hinv.repeated]
      created := by rw [hlog]; exact hinv.created
      once := ?_ }
  rw [hrepeated, hschedule]
  exact hinv.once

/-- A step that keeps the count and writes an event that changes none. -/
private theorem Counted.event (hinv : Counted s) {event : ScheduleEvent}
    (hlog : t.log = event :: s.log) (hresets : event.resets = false)
    (hrecorder : event.recorder = none)
    (hrepeated : t.status.scheduleRepeated = s.status.scheduleRepeated)
    (honce : ∀ schedule ∈ t.status.schedule, schedule.repeats = false →
      t.status.scheduleRepeated ≤ 1) : Counted t := by
  have hrecorded : recordedBy (sinceReset t.log) = recordedBy (sinceReset s.log) := by
    rw [hlog]
    exact recordedBy_sinceReset_cons s.log hresets hrecorder
  refine
    { repeated := by rw [hrepeated, hrecorded, hinv.repeated]
      created := ?_
      once := honce }
  intro i hi
  rw [hrecorded] at hi
  rw [hlog]
  exact mem_createdBy_sinceReset_cons hresets (hinv.created i hi)

/-- A reset sets everything to zero. -/
private theorem Counted.reset {event : ScheduleEvent} (hlog : t.log = event :: s.log)
    (hresets : event.resets = true) (hrepeated : t.status.scheduleRepeated = 0) : Counted t := by
  have hempty : sinceReset t.log = [] := by rw [hlog, sinceReset_cons, if_pos hresets]
  refine
    { repeated := by rw [hrepeated, hempty]; rfl
      created := by rw [hempty]; simp [recordedBy]
      once := ?_ }
  intro _ _ _
  omega

/-- The write of an execution raises the count, as nobody has written since
the goroutine has read. -/
private theorem Counted.record (hinv : Counted s) (hinformed : AllInformed s)
    (hsince : CreatedSince s) {i : Nat} {copy : Pipeline} {read : Versioned Pipeline} {now : Time}
    (hg : s.goroutines[i]? = some ⟨copy, .created read now⟩)
    (hversion : read.version = s.pipeline.version)
    (hstatus : t.status = recordedStatus now read.val.status)
    (hlog : t.log = .recorded i :: s.log) : Counted t := by
  have hcurrent : read = s.pipeline :=
    ((hinformed i _ hg).snapshot read rfl).eq_of_version hversion
  have hrepeated : t.status.scheduleRepeated = s.status.scheduleRepeated + 1 := by
    rw [hstatus, hcurrent]
    rfl
  refine
    { repeated := ?_
      created := ?_
      once := ?_ }
  · rw [hrepeated, hinv.repeated, hlog]
    simp [sinceReset_cons, ScheduleEvent.resets, recordedBy_cons, ScheduleEvent.recorder]
  · intro j hj
    rw [hlog] at hj ⊢
    refine mem_createdBy_sinceReset_cons rfl ?_
    have hmem : j = i ∨ j ∈ recordedBy (sinceReset s.log) := by
      simpa [sinceReset_cons, ScheduleEvent.resets, recordedBy_cons, ScheduleEvent.recorder]
        using hj
    rcases hmem with rfl | hj
    · exact hsince j _ hg rfl read rfl hversion
    · exact hinv.created j hj
  · -- The copy of a schedule that does not repeat was armed with count zero.
    intro schedule hschedule hnot
    have hunchanged := (hinformed i _ hg).unchanged read rfl
    obtain ⟨copied, current, hcopied, hread, -, hrepeats⟩ := hunchanged.schedule
    have hsame : some schedule = some current := by
      rw [← hread, ← hschedule, hstatus]
      rfl
    cases hsame
    have hzero := (hinformed i _ hg).first copied hcopied (by rw [← hrepeats, hnot])
    have hcount : s.status.scheduleRepeated = 0 := by
      rw [← hzero, ← hunchanged.repeated, hcurrent]
      rfl
    omega

/-- Every step keeps the count equal to the recorded executions. -/
theorem Counted.step (hinv : Counted s) (hinformed : AllInformed s) (hsince : CreatedSince s)
    (h : ScheduleEffect lib s t a) : Counted t := by
  cases h with
  | kept hfields _ _ _ _ hlog =>
      exact hinv.keep hlog (congrArg ScheduleFields.repeated hfields)
        (congrArg ScheduleFields.schedule hfields)
  | removed _ _ ht =>
      subst ht
      exact Counted.reset rfl rfl (by simp [removedStatus])
  | cleared hcleared ht =>
      subst ht
      refine hinv.event rfl rfl rfl (by simpa using hcleared.repeated) ?_
      simp only [status_addEvent, status_writeStatus, hcleared.repeated, hcleared.schedule]
      exact hinv.once
  | @armed now schedule status duration _ hpass _ hrepeats _ ht =>
      subst ht
      have hstatus : ∀ outcome reset,
          (s.applyOutcome now (.armed outcome reset)).status = outcome := by
        intro outcome reset
        simp [ScheduleWorld.applyOutcome, ScheduleWorld.status, ScheduleWorld.writeStatus,
          ScheduleWorld.addEvent]
      by_cases hneeds : NeedsReset schedule status
      · refine Counted.reset rfl (by simp [ScheduleEvent.resets, hneeds]) ?_
        rw [hstatus]
        simp [armedStatus, resetStatus, hneeds]
      · refine hinv.event rfl (by simp [ScheduleEvent.resets, hneeds]) rfl ?_ ?_
        · rw [hstatus, ← hpass.repeated]
          simp [armedStatus, resetStatus, hneeds]
        · rw [hstatus]
          intro current hcurrent hnot
          cases hcurrent
          have hzero := hrepeats hnot
          simp [armedStatus, resetStatus, hneeds, hzero]
  | ended _ ht => subst ht; exact hinv.keep rfl (by simp) (by simp)
  | stopped _ _ ht => subst ht; exact hinv.keep rfl rfl rfl
  | passed _ _ ht => subst ht; exact hinv.keep rfl rfl rfl
  | created _ _ _ ht => subst ht; exact hinv.event rfl rfl rfl rfl hinv.once
  | recorded hg hversion ht =>
      subst ht
      exact hinv.record hinformed hsince hg hversion (by simp) rfl
  | refused _ _ ht => subst ht; exact hinv.keep rfl rfl rfl

/-- Every run created since the reset is recorded, or still to be recorded. -/
def NoneLost (s : ScheduleWorld) : Prop :=
  ∀ i ∈ createdBy (sinceReset s.log),
    InFlight s i ∨ i ∈ recordedBy (sinceReset s.log)

theorem NoneLost.step (hinv : NoneLost s) (hguard : RecordsInTime s a)
    (h : ScheduleEffect lib s t a) : NoneLost t := by
  -- What was not lost before the step is not lost by it.
  have hkeep : ∀ i ∈ createdBy (sinceReset s.log),
      InFlight t i ∨ t.log = .recorded i :: s.log ∨ i ∈ recordedBy (sinceReset s.log) := by
    intro i hi
    rcases hinv i hi with hflight | hrecorded
    · rcases h.inFlight_after hflight with hafter | ⟨hlog, -⟩ | ⟨rfl, hrefused⟩
      · exact Or.inl hafter
      · exact Or.inr (Or.inl hlog)
      · exact absurd ⟨hi, hrefused⟩ (hguard i rfl)
    · exact Or.inr (Or.inr hrecorded)
  intro i hi
  rcases h.log with hlog | ⟨event, hlog, -, hcreation⟩
  · rw [hlog] at hi ⊢
    rcases hkeep i hi with hflight | hnew | hrecorded
    · exact Or.inl hflight
    · exact absurd (hlog.symm.trans hnew) (by simp)
    · exact Or.inr hrecorded
  · rw [hlog, sinceReset_cons] at hi
    split at hi
    · simp [createdBy] at hi
    · next hresets =>
        rw [createdBy_cons] at hi
        rcases List.mem_append.mp hi with hnew | hold
        · obtain ⟨entry, hentry, rfl⟩ := Option.map_eq_some_iff.mp (Option.mem_toList.mp hnew)
          exact Or.inl (hcreation entry hentry)
        · rcases hkeep i hold with hflight | hnew | hrecorded
          · exact Or.inl hflight
          · right
            simp [hnew, sinceReset_cons, ScheduleEvent.resets, recordedBy_cons,
              ScheduleEvent.recorder]
          · right
            rw [hlog, sinceReset_cons, if_neg hresets, recordedBy_cons]
            exact List.mem_append_right _ hrecorded

/-! ## Exact counts -/

/-- All of the above. -/
structure Exact (s : ScheduleWorld) : Prop where
  numbered : Numbered s
  informed : AllInformed s
  since : CreatedSince s
  counted : Counted s
  noneLost : NoneLost s

theorem Exact.init (hcount : s.status.scheduleRepeated = 0) (hgoroutines : s.goroutines = [])
    (hlog : s.log = []) : Exact s := by
  refine
    { numbered := ?_
      informed := ?_
      since := ?_
      counted := ?_
      noneLost := ?_ }
  · constructor
    · exact ⟨by simp [hlog, createdBy], by simp [hlog, createdBy]⟩
    · exact ⟨by simp [hlog, recordedBy], by simp [hlog, recordedBy]⟩
  · intro i g hg
    simp [hgoroutines] at hg
  · intro i g hg
    simp [hgoroutines] at hg
  · refine
      { repeated := by simp [hcount, hlog, sinceReset, recordedBy]
        created := by simp [hlog, sinceReset, recordedBy]
        once := ?_ }
    intro _ _ _
    omega
  · intro i hi
    simp [hlog, sinceReset, createdBy] at hi

theorem Exact.step (hinv : Exact s) (hguard : RecordsInTime s a)
    (hstep : s.step lib a = some t) : Exact t := by
  have heffect := ScheduleWorld.step_effect hstep
  exact
    { numbered := hinv.numbered.step heffect
      informed := hinv.informed.step heffect
      since := hinv.since.step hinv.informed heffect
      counted := hinv.counted.step hinv.informed hinv.since heffect
      noneLost := hinv.noneLost.step hguard heffect }

/-- Without a goroutine in flight those that have created a run since the
reset are those that have recorded it. -/
theorem Exact.countsExactly (hinv : Exact s) : CountsExactly s := by
  intro hidle
  have hrecorded : ∀ i ∈ createdBy (sinceReset s.log), i ∈ recordedBy (sinceReset s.log) := by
    intro i hi
    rcases hinv.noneLost i hi with hflight | hrecorded
    · have hlt : i < s.goroutines.length := by
        obtain ⟨g, hg, -⟩ := hflight
        exact (List.getElem?_eq_some_iff.mp hg).1
      exact absurd hflight (hidle i hlt)
    · exact hrecorded
  have hperm : (recordedBy (sinceReset s.log)).Perm (createdBy (sinceReset s.log)) := by
    rw [List.perm_ext_iff_of_nodup
      (hinv.numbered.recorded.nodup.sublist (recordedBy_sinceReset_sublist s.log))
      (hinv.numbered.created.nodup.sublist (createdBy_sinceReset_sublist s.log))]
    exact fun i => ⟨hinv.counted.created i, hrecorded i⟩
  have hcount : s.status.scheduleRepeated = createdSinceReset s.log :=
    hinv.counted.repeated.trans hperm.length_eq
  refine ⟨hcount, ?_⟩
  intro schedule hschedule hnot
  rw [← hcount]
  exact hinv.counted.once schedule hschedule hnot

/-- Scheduled runs are counted exactly as long as no goroutine loses its
record. -/
theorem counts_exactly
    (h : (scheduleMachine lib fun pipeline => pipeline.status.scheduleRepeated = 0).Reach
      RecordsInTime s) : CountsExactly s := by
  have hinv : Exact s := by
    apply h.invariant
    · intro s hinit
      exact Exact.init hinit.1 hinit.2.1 hinit.2.2
    · intro s a t hinv hguard hstep
      exact hinv.step hguard hstep
  exact hinv.countsExactly

end Count

/-! ## A record that is lost -/

/-- An execution without a conflict. -/
def oneExecution : List ScheduleAction :=
  [.reconcile 0 true, .wake 0, .create 0 someAddress 0, .record 0]

def oneExecutionWorld : ScheduleWorld :=
  ((scheduleMachine Externals.plain fun pipeline => pipeline.status.scheduleRepeated = 0).exec
    RecordsInTime (hourlyWorld false) oneExecution).getD (hourlyWorld false)

theorem counts_exactly_oneExecution :
    oneExecutionWorld.status.scheduleRepeated = 1 ∧
      createdSinceReset oneExecutionWorld.log = 1 := by
  have hinit : (scheduleMachine Externals.plain
      fun pipeline => pipeline.status.scheduleRepeated = 0).init (hourlyWorld false) :=
    ⟨rfl, rfl, rfl⟩
  have hexec : (scheduleMachine Externals.plain
      fun pipeline => pipeline.status.scheduleRepeated = 0).exec RecordsInTime
      (hourlyWorld false) oneExecution = some oneExecutionWorld := by
    decide +kernel
  have hidle : ∀ i < oneExecutionWorld.goroutines.length, ¬ InFlight oneExecutionWorld i := by
    decide +kernel
  have hrepeated : oneExecutionWorld.status.scheduleRepeated = 1 := by decide +kernel
  obtain ⟨hcount, -⟩ := counts_exactly (Machine.reach_of_exec _ hinit hexec) hidle
  exact ⟨hrepeated, hcount ▸ hrepeated⟩

/-- A reconcile counts the runs before the first goroutine writes its status;
an hour later the schedule is armed and executed once more. -/
def lostRecord : List ScheduleAction :=
  [.reconcile 0 true, .wake 0, .create 0 someAddress 0, .countRuns Time.second, .record 0,
    .reconcile (3601 * Time.second) true, .wake 1, .create 1 otherAddress (7202 * Time.second),
    .record 1]

def lostRecordWorld : ScheduleWorld :=
  ((scheduleMachine Externals.plain fun pipeline => pipeline.status.scheduleRepeated = 0).exec
    (fun _ _ => True) (hourlyWorld false) lostRecord).getD (hourlyWorld false)

/-- Two runs of a schedule that does not repeat, and one is counted. -/
theorem lost_record :
    (scheduleMachine Externals.plain
        fun pipeline => pipeline.status.scheduleRepeated = 0).Reachable lostRecordWorld ∧
      createdSinceReset lostRecordWorld.log = 2 ∧ ¬ CountsExactly lostRecordWorld := by
  have hinit : (scheduleMachine Externals.plain
      fun pipeline => pipeline.status.scheduleRepeated = 0).init (hourlyWorld false) :=
    ⟨rfl, rfl, rfl⟩
  have hexec : (scheduleMachine Externals.plain
      fun pipeline => pipeline.status.scheduleRepeated = 0).exec (fun _ _ => True)
      (hourlyWorld false) lostRecord = some lostRecordWorld := by
    decide +kernel
  exact ⟨Machine.reach_of_exec _ hinit hexec, by decide +kernel, by decide +kernel⟩

end PipelineOperator.Controller
