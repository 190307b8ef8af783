import PipelineOperator.Controller.ScheduleMachine

/-!
# Stale goroutines are fenced off

Goroutines of earlier armings may still sleep when the schedule has long been
armed anew.  What keeps them from acting is the comparison of their copy with
the pipeline they read.  Every arming writes a start date of its own, and every
clearing and every recorded execution removes the start or the pending date;
so the copy of a goroutine agrees with the stored pipeline only as long as none
of these has happened since its own arming.

## Main results

* `passes_fenced`: a goroutine that passes is that of the latest write to the
  schedule, so at most one can pass.
-/

namespace PipelineOperator.Controller

open PipelineOperator.Lib
open PipelineOperator.Api

/-- The events that fence off the goroutines before them. -/
def ScheduleEvent.fences : ScheduleEvent → Bool
  | .armed _ _ _ => true
  | .cleared _ => true
  | .created _ _ => false
  | .recorded _ => true

/-- The start dates of all armings so far. -/
def armedTimes (log : List ScheduleEvent) : List Time :=
  log.filterMap fun event =>
    match event with
    | .armed _ start _ => some start
    | _ => none

/-- The clock advances, in whole seconds, from one arming to the next. -/
def ClockAdvances (lib : Externals) (s : ScheduleWorld) (a : ScheduleAction) : Prop :=
  match a with
  | .reconcile now true =>
      match ensureScheduleExecution lib s.pipeline.val now with
      | .armed _ _ => ∀ start ∈ armedTimes s.log, start < now.stored
      | _ => True
  | _ => True

instance (lib : Externals) (s : ScheduleWorld) (a : ScheduleAction) :
    Decidable (ClockAdvances lib s a) := by
  unfold ClockAdvances
  split
  · split <;> infer_instance
  · infer_instance

/-- A goroutine was armed with the start date of its copy.  It is that of the
latest fencing event, or the stored pipeline has another start date, or no
pending date. -/
def GoroutineFenced (s : ScheduleWorld) (i : Nat) (copy : Pipeline) : Prop :=
  ∃ start, copy.status.scheduleStartDate = some start ∧ start ∈ armedTimes s.log ∧
    ((∃ reset, s.log.find? ScheduleEvent.fences = some (.armed i start reset)) ∨
      s.status.scheduleStartDate ≠ some start ∨
      s.status.schedulePendingExecuctionDate = none)

/-- The invariant of the fence. -/
def AllFenced (s : ScheduleWorld) : Prop :=
  ∀ (i : Nat) (g : Goroutine), s.goroutines[i]? = some g → GoroutineFenced s i g.copy

section Fence

variable {lib : Externals} {s t : ScheduleWorld}

/-- A step that writes no fencing event and keeps the two dates. -/
private theorem GoroutineFenced.keep {i : Nat} {copy : Pipeline} (h : GoroutineFenced s i copy)
    (hfind : t.log.find? ScheduleEvent.fences = s.log.find? ScheduleEvent.fences)
    (htimes : armedTimes t.log = armedTimes s.log)
    (hstart : t.status.scheduleStartDate = s.status.scheduleStartDate)
    (hpending : t.status.schedulePendingExecuctionDate =
      s.status.schedulePendingExecuctionDate) : GoroutineFenced t i copy := by
  obtain ⟨start, hcopy, harmed, hfenced⟩ := h
  refine ⟨start, hcopy, ?_, ?_⟩
  · rw [htimes]
    exact harmed
  · rw [hfind, hstart, hpending]
    exact hfenced

/-- A step that removes one of the two dates. -/
private theorem GoroutineFenced.remove {i : Nat} {copy : Pipeline} (h : GoroutineFenced s i copy)
    (htimes : armedTimes t.log = armedTimes s.log)
    (hdates : t.status.scheduleStartDate = none ∨
      t.status.schedulePendingExecuctionDate = none) : GoroutineFenced t i copy := by
  obtain ⟨start, hcopy, harmed, -⟩ := h
  refine ⟨start, hcopy, ?_, Or.inr ?_⟩
  · rw [htimes]
    exact harmed
  · rcases hdates with hstart | hpending
    · left
      rw [hstart]
      intro h
      cases h
    · exact Or.inr hpending

/-- A goroutine moves on in a step that keeps all goroutines fenced. -/
private theorem AllFenced.setPhase (hinv : AllFenced s) {i : Nat} {g : Goroutine}
    {phase : GoroutinePhase} (hg : s.goroutines[i]? = some g)
    (hgoroutines : t.goroutines = (s.setPhase i g.copy phase).goroutines)
    (hkeep : ∀ (j : Nat) (copy : Pipeline), GoroutineFenced s j copy → GoroutineFenced t j copy) :
    AllFenced t := by
  intro j g' hg'
  rw [hgoroutines] at hg'
  obtain ⟨before, hbefore, hcopy⟩ := copy_of_setPhase hg hg'
  rw [hcopy]
  exact hkeep j before.copy (hinv j before hbefore)

/-- An arming fences off the older goroutines, whose start dates lie before the
new one, and the goroutine that it starts is that of its own event. -/
private theorem AllFenced.armed (hinv : AllFenced s) {now : Time} {status : PipelineStatus}
    {reset : Bool} (hstart : status.scheduleStartDate = some now.stored)
    (hclock : ∀ start ∈ armedTimes s.log, start < now.stored) :
    AllFenced (s.applyOutcome now (.armed status reset)) := by
  have hstored : (s.applyOutcome now (.armed status reset)).status.scheduleStartDate =
      some now.stored := by
    simpa [ScheduleWorld.applyOutcome, ScheduleWorld.status, ScheduleWorld.writeStatus,
      ScheduleWorld.addEvent] using hstart
  intro i g hg
  simp only [ScheduleWorld.applyOutcome, List.getElem?_append] at hg
  split at hg
  · obtain ⟨start, hcopy, harmed, -⟩ := hinv i g hg
    have hlt := hclock start harmed
    refine ⟨start, hcopy, List.mem_cons_of_mem _ harmed, Or.inr (Or.inl ?_)⟩
    rw [hstored]
    intro hsame
    exact absurd (Option.some.inj hsame) (ne_of_gt hlt)
  · next hlength =>
      have hi : i = s.goroutines.length := by
        have hlt := (List.getElem?_eq_some_iff.mp hg).1
        simp only [List.length_singleton] at hlt
        omega
      subst hi
      simp only [Nat.sub_self, List.getElem?_cons_zero, Option.some.injEq] at hg
      subst hg
      exact ⟨now.stored, hstart, List.mem_cons_self, Or.inl ⟨reset, rfl⟩⟩

/-- One step keeps the fence, if the clock advances between armings. -/
theorem AllFenced.step (hinv : AllFenced s) {a : ScheduleAction} (hclock : ClockAdvances lib s a)
    (hstep : s.step lib a = some t) : AllFenced t := by
  cases ScheduleWorld.step_effect hstep with
  | kept hfields _ _ _ hgoroutines hlog =>
      intro i g hg
      rw [hgoroutines] at hg
      exact (hinv i g hg).keep (by rw [hlog]) (by rw [hlog])
        (congrArg ScheduleFields.start hfields) (congrArg ScheduleFields.pending hfields)
  | removed _ _ ht =>
      subst ht
      intro i g hg
      exact (hinv i g hg).remove rfl (Or.inl (by simp [removedStatus]))
  | cleared hcleared ht =>
      subst ht
      intro i g hg
      exact (hinv i g hg).remove rfl (by simpa using hcleared.dates)
  | @armed now schedule status duration _ _ _ _ houtcome ht =>
      subst ht
      simp only [ClockAdvances, houtcome] at hclock
      exact hinv.armed rfl hclock
  | ended _ ht =>
      subst ht
      intro i g hg
      exact (hinv i g hg).keep rfl rfl (by simp) (by simp)
  | stopped hg _ ht =>
      subst ht
      exact hinv.setPhase hg rfl fun _ _ hfenced => hfenced.keep rfl rfl rfl rfl
  | passed hg _ ht =>
      subst ht
      exact hinv.setPhase hg rfl fun _ _ hfenced => hfenced.keep rfl rfl rfl rfl
  | created hg _ _ ht =>
      subst ht
      exact hinv.setPhase hg rfl fun _ _ hfenced => hfenced.keep rfl rfl rfl rfl
  | recorded hg _ ht =>
      subst ht
      exact hinv.setPhase hg rfl fun _ _ hfenced =>
        hfenced.remove rfl (Or.inr (by simp [recordedStatus]))
  | refused hg _ ht =>
      subst ht
      exact hinv.setPhase hg rfl fun _ _ hfenced => hfenced.keep rfl rfl rfl rfl

/-- A goroutine that passes is that of the latest fencing event. -/
private theorem AllFenced.find_of_passes (hinv : AllFenced s) {i : Nat} {g : Goroutine}
    (hg : s.goroutines[i]? = some g) (hpasses : compareWith g.copy.status s.status = .passes) :
    ∃ start reset, s.log.find? ScheduleEvent.fences = some (.armed i start reset) := by
  have hsame := compareWith_passes hpasses
  obtain ⟨start, hcopy, -, ⟨reset, hfind⟩ | hother | hnone⟩ := hinv i g hg
  · exact ⟨start, reset, hfind⟩
  · exact absurd (hsame.start.trans hcopy) hother
  · have hsome := hsame.pending_isSome
    rw [← hsame.pending, hnone] at hsome
    cases hsome

/-- Stale goroutines are fenced off.  In every state a goroutine passes the
comparisons only if nothing since its own arming has armed or cleared the
schedule or recorded an execution; so of all goroutines ever started at most
one can pass. -/
theorem passes_fenced {start : Pipeline → Prop}
    (h : (scheduleMachine lib start).Reach (ClockAdvances lib) s) :
    (∀ (i : Nat) (g : Goroutine), s.goroutines[i]? = some g →
      compareWith g.copy.status s.status = .passes →
      ∃ later armedAt reset earlier,
        s.log = later ++ ScheduleEvent.armed i armedAt reset :: earlier ∧
        ∀ event ∈ later, event.fences = false) ∧
    ∀ (i j : Nat) (g g' : Goroutine), s.goroutines[i]? = some g → s.goroutines[j]? = some g' →
      compareWith g.copy.status s.status = .passes →
      compareWith g'.copy.status s.status = .passes → i = j := by
  have hinv : AllFenced s := by
    apply h.invariant
    · intro s hinit i g hg
      rw [hinit.2.1] at hg
      cases hg
    · intro s a t hinv hclock hstep
      exact hinv.step hclock hstep
  constructor
  · intro i g hg hpasses
    obtain ⟨armedAt, reset, hfind⟩ := hinv.find_of_passes hg hpasses
    obtain ⟨-, later, earlier, hlog, hclean⟩ := List.find?_eq_some_iff_append.mp hfind
    exact ⟨later, armedAt, reset, earlier, hlog, by simpa using hclean⟩
  · intro i j g g' hg hg' hpasses hpasses'
    obtain ⟨armedAt, reset, hfind⟩ := hinv.find_of_passes hg hpasses
    obtain ⟨armedAt', reset', hfind'⟩ := hinv.find_of_passes hg' hpasses'
    rw [hfind] at hfind'
    cases hfind'
    rfl

end Fence

/-! ## A second arming -/

/-- The schedule is armed twice, because its pending date had passed before
the first goroutine woke up. -/
def twoArmings : List ScheduleAction :=
  [.reconcile 0 true, .reconcile (3601 * Time.second) true]

def twoArmingsWorld : ScheduleWorld :=
  ((scheduleMachine Externals.plain (· = hourly true)).exec (ClockAdvances Externals.plain)
    (hourlyWorld true) twoArmings).getD (hourlyWorld true)

/-- Of the two goroutines only the second can pass. -/
theorem passes_fenced_twoArmings :
    ∃ g, twoArmingsWorld.goroutines[1]? = some g ∧
      compareWith g.copy.status twoArmingsWorld.status = .passes ∧
      ∀ g', twoArmingsWorld.goroutines[0]? = some g' →
        compareWith g'.copy.status twoArmingsWorld.status ≠ .passes := by
  have hinit : (scheduleMachine Externals.plain (· = hourly true)).init (hourlyWorld true) :=
    ⟨rfl, rfl, rfl⟩
  have hexec : (scheduleMachine Externals.plain (· = hourly true)).exec
      (ClockAdvances Externals.plain) (hourlyWorld true) twoArmings = some twoArmingsWorld := by
    decide +kernel
  obtain ⟨-, hunique⟩ := passes_fenced (Machine.reach_of_exec _ hinit hexec)
  have hsome : twoArmingsWorld.goroutines[1]?.isSome := by decide +kernel
  obtain ⟨g, hg⟩ := Option.isSome_iff_exists.mp hsome
  have hpasses : ∀ copied ∈ twoArmingsWorld.goroutines[1]?,
      compareWith copied.copy.status twoArmingsWorld.status = .passes := by
    decide +kernel
  refine ⟨g, hg, hpasses g hg, ?_⟩
  intro g' hg' hpasses'
  exact absurd (hunique 0 1 g' g hg' hg hpasses' (hpasses g hg)) (by decide)

end PipelineOperator.Controller
