import PipelineOperator.Controller.RunExists
import PipelineOperator.Controller.RunStatus
import PipelineOperator.Lib.Walk

/-!
# The retries of `updateRunStatus`

A conflict on one of the status writes makes `RetryOnConflict` call its
closure again, at most five times in all.  The closure keeps the object key it
fetches the run with outside of itself, and an attempt that finds every job
ended puts the name of the pipeline into that key.  The attempt after it then
fetches the run that has the name of the pipeline.

The writers behind the conflicts are known here by the conflicts only.  Every
access to the API server is logged, the first one first.

## Main results

* `Kept.tryUpdate`: what one attempt does while the key is the run's own.
* `keepsToRun_iff`: all attempts stay with the run exactly when its pipeline
  has its name, when its jobs have not all ended, or when the first attempt
  meets no conflict.
-/

namespace PipelineOperator.Controller

open PipelineOperator.Lib
open PipelineOperator.Api

/-! ## The store and the attempts -/

/-- The runs and pipelines the API server holds. -/
structure StatusStore where
  runs : RunStore := []
  pipelines : List Pipeline := []
  deriving Repr, DecidableEq

/-- A status write on a run: the object of the same key gets the status. -/
def updateStatusOfRun (runs : RunStore) (run : Run) : RunStore :=
  runs.map fun r => if r.ns = run.ns ∧ r.name = run.name then { r with status := run.status } else r

def updateStatusOfPipeline (pipelines : List Pipeline) (pipeline : Pipeline) : List Pipeline :=
  pipelines.map fun p =>
    if p.ns = pipeline.ns ∧ p.name = pipeline.name then { p with status := pipeline.status } else p

/-- An access to the API server, with the key of the object. -/
inductive Access where
  | getRun (ns name : String)
  | getPipeline (ns name : String)
  | updatePipelineStatus (ns name : String)
  | updateRunStatus (ns name : String)
  deriving Repr, DecidableEq

/-- What the closure has outside of itself: the name in its object key, and
the API server. -/
structure RetryState where
  keyName : String
  store : StatusStore
  accesses : List Access := []
  deriving Repr, DecidableEq

def RetryState.access (s : RetryState) (access : Access) : RetryState :=
  { s with accesses := s.accesses ++ [access] }

/-- One attempt: its two clock readings, and whether its writes conflict. -/
structure StatusAttempt where
  now : Time
  endNow : Time
  pipelineConflict : Bool
  runConflict : Bool
  deriving Repr, DecidableEq

/-! ## The closure -/

/-- The last write of the closure. -/
def writeRunStatus (attempt : StatusAttempt) (run : Run) (s : RetryState) :
    RetryState × AttemptVerdict :=
  let s := s.access (.updateRunStatus run.ns run.name)
  if attempt.runConflict then (s, .conflict)
  else ({ s with store.runs := updateStatusOfRun s.store.runs run }, .done)

/-- The write of the end date on the pipeline.  That the pipeline is missing is
not noticed when it is fetched, but the nameless object is refused. -/
def endExecution (ns pipelineName : String) (attempt : StatusAttempt) (s : RetryState) :
    RetryState × AttemptVerdict :=
  let s := { s with keyName := pipelineName }
  match getPipeline s.store.pipelines ns s.keyName with
  | none =>
      ((s.access (.getPipeline ns s.keyName)).access (.updatePipelineStatus "" ""), .failed)
  | some found =>
      let pipeline := { found with
        status.scheduleLastExecutionEndDate := some attempt.endNow.stored }
      let s := (s.access (.getPipeline ns s.keyName)).access
        (.updatePipelineStatus pipeline.ns pipeline.name)
      if attempt.pipelineConflict then (s, .conflict)
      else
        ({ s with store.pipelines := updateStatusOfPipeline s.store.pipelines pipeline }, .done)

/-- The run that an attempt writes back. -/
def withStatus (lib : Externals) (found : Run) (kjobs : List KJob) (attempt : StatusAttempt) :
    Run :=
  { found with status := runStatusFrom lib found kjobs attempt.now.stored }

/-- The closure, on the kubernetes jobs listed before the loop. -/
def tryUpdateRunStatus (lib : Externals) (ns pipelineName : String) (kjobs : List KJob)
    (attempt : StatusAttempt) (s : RetryState) : RetryState × AttemptVerdict :=
  match getRun s.store.runs ns s.keyName with
  | none => (s.access (.getRun ns s.keyName), .failed)
  | some found =>
      let s := s.access (.getRun ns s.keyName)
      let run := withStatus lib found kjobs attempt
      if EndsExecution found kjobs then
        match endExecution ns pipelineName attempt s with
        | (s, .done) => writeRunStatus attempt run s
        | (s, verdict) => (s, verdict)
      else writeRunStatus attempt run s

/-- `retry.DefaultRetry` -/
def defaultRetrySteps : Nat := 5

/-- The attempts of a sequence that a loop makes. -/
def allowed (attempts : Nat → StatusAttempt) : List StatusAttempt :=
  (List.range defaultRetrySteps).map attempts

/-- `updateRunStatus` with a sequence of attempts. -/
def updateRunStatus (lib : Externals) (run : Run) (c : Cluster)
    (attempts : Nat → StatusAttempt) (store : StatusStore) : RetryState × AttemptVerdict :=
  retryOnConflict
    (tryUpdateRunStatus lib run.ns run.labels.pipelineName (c.listRunKJobs run.ns run.name))
    (allowed attempts) { keyName := run.name, store := store }

/-! ## Staying with the run -/

/-- The access is to the run or to the pipeline of its label. -/
def Access.OfRun (run : Run) : Access → Prop
  | .getRun ns name | .updateRunStatus ns name => ns = run.ns ∧ name = run.name
  | .getPipeline ns name | .updatePipelineStatus ns name =>
      ns = run.ns ∧ name = run.labels.pipelineName

/-- One of the writes that the attempt makes is refused.  The pipeline is
written only when all jobs have ended. -/
def StatusAttempt.Meets (run : Run) (kjobs : List KJob) (attempt : StatusAttempt) : Prop :=
  (EndsExecution run kjobs ∧ attempt.pipelineConflict = true) ∨ attempt.runConflict = true

instance (run : Run) (kjobs : List KJob) (attempt : StatusAttempt) :
    Decidable (attempt.Meets run kjobs) := by
  unfold StatusAttempt.Meets
  infer_instance

/-- The run has the status that one of the attempts writes. -/
def Written (lib : Externals) (stored : Run) (kjobs : List KJob)
    (attempts : List StatusAttempt) (runs : RunStore) : Prop :=
  ∃ attempt ∈ attempts, getRun runs stored.ns stored.name =
    some (withStatus lib stored kjobs attempt)

/-- Every other run is what it was. -/
def OthersKept (run : Run) (before after : RunStore) : Prop :=
  ∀ ns name, (ns, name) ≠ (run.ns, run.name) → getRun after ns name = getRun before ns name

/-- The attempts stay with the run: they access nothing but the run and its
pipeline, the stored run gets its status if one of them meets no conflict, and
no other run changes. -/
structure KeepsToRun (lib : Externals) (run stored : Run) (kjobs : List KJob)
    (attempts : List StatusAttempt) (before : RunStore) (result : RetryState × AttemptVerdict) :
    Prop where
  accesses : ∀ access ∈ result.1.accesses, access.OfRun run
  written : (∃ attempt ∈ attempts, ¬ attempt.Meets stored kjobs) →
    result.2 = .done ∧ Written lib stored kjobs attempts result.1.store.runs
  others : OthersKept run before result.1.store.runs

/-! ## The store -/

/-- A status write changes the run of its key and does not hide another. -/
theorem getRun_updateStatusOfRun (runs : RunStore) (run : Run) (ns name : String) :
    getRun (updateStatusOfRun runs run) ns name =
      (getRun runs ns name).map fun r =>
        if r.ns = run.ns ∧ r.name = run.name then { r with status := run.status } else r := by
  unfold getRun updateStatusOfRun
  apply find?_map_kept
  intro r
  split <;> rfl

theorem getPipeline_updateStatusOfPipeline (pipelines : List Pipeline) (pipeline : Pipeline)
    (ns name : String) :
    getPipeline (updateStatusOfPipeline pipelines pipeline) ns name =
      (getPipeline pipelines ns name).map fun p =>
        if p.ns = pipeline.ns ∧ p.name = pipeline.name then { p with status := pipeline.status }
        else p := by
  unfold getPipeline updateStatusOfPipeline
  apply find?_map_kept
  intro p
  split <;> rfl

theorem OthersKept.refl (run : Run) (runs : RunStore) : OthersKept run runs runs :=
  fun _ _ _ => rfl

theorem OthersKept.updateStatusOfRun {run updated : Run} (runs : RunStore)
    (hns : updated.ns = run.ns) (hname : updated.name = run.name) :
    OthersKept run runs (updateStatusOfRun runs updated) := by
  intro ns name hne
  rw [getRun_updateStatusOfRun]
  cases hget : getRun runs ns name with
  | none => rfl
  | some other =>
      have hkey := getRun_key hget
      have hother : ¬ (other.ns = updated.ns ∧ other.name = updated.name) := by
        rintro ⟨hons, honame⟩
        exact hne (by rw [← hkey.1, ← hkey.2, hons, honame, hns, hname])
      simp [hother]

/-! ## One attempt -/

/-- Before an attempt: the runs are as they were, the pipeline is stored, and
nothing else has been accessed. -/
structure Kept (run : Run) (runs : RunStore) (keyName : String) (s : RetryState) : Prop where
  key : s.keyName = keyName
  runs : s.store.runs = runs
  pipeline : ∃ pipeline,
    getPipeline s.store.pipelines run.ns run.labels.pipelineName = some pipeline
  accesses : ∀ access ∈ s.accesses, access.OfRun run

section Attempt

variable {lib : Externals} {run stored : Run} {runs : RunStore} {kjobs : List KJob}
  {attempt : StatusAttempt} {s : RetryState} {keyName : String}

theorem forall_access {access : Access} (hs : ∀ access ∈ s.accesses, access.OfRun run)
    (haccess : access.OfRun run) : ∀ a ∈ (s.access access).accesses, a.OfRun run := by
  intro a ha
  rcases List.mem_append.mp ha with ha | ha
  · exact hs a ha
  · rw [List.mem_singleton.mp ha]
    exact haccess

theorem Kept.access (hkept : Kept run runs keyName s) {access : Access}
    (haccess : access.OfRun run) : Kept run runs keyName (s.access access) where
  key := hkept.key
  runs := hkept.runs
  pipeline := hkept.pipeline
  accesses := forall_access hkept.accesses haccess

theorem Kept.updatePipeline (hkept : Kept run runs keyName s) (pipeline : Pipeline) :
    Kept run runs keyName
      { s with store.pipelines := updateStatusOfPipeline s.store.pipelines pipeline } where
  key := hkept.key
  runs := hkept.runs
  pipeline := by
    obtain ⟨found, hfound⟩ := hkept.pipeline
    simp [getPipeline_updateStatusOfPipeline, hfound]
  accesses := hkept.accesses

/-- The key after an attempt that does not end the loop. -/
def nextKeyName (run stored : Run) (kjobs : List KJob) : String :=
  if EndsExecution stored kjobs then run.labels.pipelineName else run.name

/-- The write on the pipeline: it moves the key on, and conflicts or is made. -/
theorem Kept.endExecution (hkept : Kept run runs keyName s) (attempt : StatusAttempt) :
    ∃ t, Kept run runs run.labels.pipelineName t ∧
      endExecution run.ns run.labels.pipelineName attempt s =
        (t, if attempt.pipelineConflict then .conflict else .done) := by
  obtain ⟨found, hfound⟩ := hkept.pipeline
  have hmoved : Kept run runs run.labels.pipelineName
      { s with keyName := run.labels.pipelineName } :=
    { hkept with key := rfl }
  have hname := getPipeline_key hfound
  have hfetched : Kept run runs run.labels.pipelineName
      ({ s with keyName := run.labels.pipelineName }.access
        (.getPipeline run.ns run.labels.pipelineName)) := hmoved.access ⟨rfl, rfl⟩
  have haccessed : Kept run runs run.labels.pipelineName
      (({ s with keyName := run.labels.pipelineName }.access
        (.getPipeline run.ns run.labels.pipelineName)).access
          (.updatePipelineStatus found.ns found.name)) :=
    hfetched.access hname
  simp only [Controller.endExecution, hfound]
  split
  · exact ⟨_, haccessed, rfl⟩
  · exact ⟨_, haccessed.updatePipeline _, rfl⟩

/-- An attempt with the run's own key: a conflict on the pipeline, or the
write of the run. -/
theorem Kept.tryUpdate (hkept : Kept run runs run.name s)
    (hstored : getRun runs run.ns run.name = some stored) (lib : Externals)
    (kjobs : List KJob) (attempt : StatusAttempt) :
    ∃ t, Kept run runs (nextKeyName run stored kjobs) t ∧
      tryUpdateRunStatus lib run.ns run.labels.pipelineName kjobs attempt s =
        if EndsExecution stored kjobs ∧ attempt.pipelineConflict = true then (t, .conflict)
        else writeRunStatus attempt (withStatus lib stored kjobs attempt) t := by
  have hread : Kept run runs run.name (s.access (.getRun run.ns run.name)) :=
    hkept.access ⟨rfl, rfl⟩
  have hget : getRun s.store.runs run.ns run.name = some stored := by
    rw [hkept.runs, hstored]
  simp only [tryUpdateRunStatus, hkept.key, hget, nextKeyName]
  by_cases hends : EndsExecution stored kjobs
  · obtain ⟨t, ht, hend⟩ := hread.endExecution attempt
    use t, by rwa [if_pos hends]
    rw [if_pos hends, hend]
    by_cases hconflict : attempt.pipelineConflict = true
    · simp [hends, hconflict]
    · simp [hconflict]
  · use s.access (.getRun run.ns run.name), by rwa [if_neg hends]
    simp [hends]

/-- The write of the run, from a state in which the attempt has accessed its
own objects only. -/
theorem Kept.writeRunStatus (hkept : Kept run runs keyName s) (attempt : StatusAttempt)
    (written : Run) (hns : written.ns = run.ns) (hname : written.name = run.name) :
    (attempt.runConflict = true →
      (writeRunStatus attempt written s).2 = .conflict ∧
        Kept run runs keyName (writeRunStatus attempt written s).1) ∧
    (attempt.runConflict = false →
      (writeRunStatus attempt written s).2 = .done ∧
        (∀ access ∈ (writeRunStatus attempt written s).1.accesses, access.OfRun run) ∧
        (writeRunStatus attempt written s).1.store.runs = updateStatusOfRun runs written) := by
  have haccessed : Kept run runs keyName (s.access (.updateRunStatus written.ns written.name)) :=
    hkept.access ⟨hns, hname⟩
  constructor
  · intro hconflict
    rw [Controller.writeRunStatus, if_pos hconflict]
    exact ⟨rfl, haccessed⟩
  · intro hclean
    rw [Controller.writeRunStatus, hclean, if_neg Bool.false_ne_true]
    refine ⟨rfl, haccessed.accesses, ?_⟩
    exact congrArg (updateStatusOfRun · written) haccessed.runs

/-- A refused write: nothing has been written on a run, and the key may have
moved on. -/
theorem Kept.tryUpdate_conflict (hkept : Kept run runs run.name s) (lib : Externals)
    (hstored : getRun runs run.ns run.name = some stored) (hmeets : attempt.Meets stored kjobs) :
    (tryUpdateRunStatus lib run.ns run.labels.pipelineName kjobs attempt s).2 = .conflict ∧
      Kept run runs (nextKeyName run stored kjobs)
        (tryUpdateRunStatus lib run.ns run.labels.pipelineName kjobs attempt s).1 := by
  obtain ⟨t, ht, htry⟩ := hkept.tryUpdate hstored lib kjobs attempt
  obtain ⟨hns, hname⟩ := getRun_key hstored
  rw [htry]
  split
  · exact ⟨rfl, ht⟩
  · next hfree =>
      have hconflict : attempt.runConflict = true := hmeets.resolve_left hfree
      exact (ht.writeRunStatus attempt (withStatus lib stored kjobs attempt) hns hname).1 hconflict

/-- An attempt whose writes are accepted: the run has its status. -/
theorem Kept.tryUpdate_done (hkept : Kept run runs run.name s) (lib : Externals)
    (hstored : getRun runs run.ns run.name = some stored)
    (hclean : ¬ attempt.Meets stored kjobs) :
    (tryUpdateRunStatus lib run.ns run.labels.pipelineName kjobs attempt s).2 = .done ∧
      (∀ access ∈
        (tryUpdateRunStatus lib run.ns run.labels.pipelineName kjobs attempt s).1.accesses,
        access.OfRun run) ∧
      (tryUpdateRunStatus lib run.ns run.labels.pipelineName kjobs attempt s).1.store.runs =
        updateStatusOfRun runs (withStatus lib stored kjobs attempt) := by
  obtain ⟨t, ht, htry⟩ := hkept.tryUpdate hstored lib kjobs attempt
  obtain ⟨hns, hname⟩ := getRun_key hstored
  have hparts := not_or.mp hclean
  rw [htry, if_neg hparts.1]
  exact (ht.writeRunStatus attempt (withStatus lib stored kjobs attempt) hns hname).2
    (Bool.eq_false_iff.mpr hparts.2)

end Attempt

/-! ## All attempts -/

section Loop

variable {lib : Externals} {run stored : Run} {runs : RunStore} {kjobs : List KJob}
  {s : RetryState}

/-- The run after the write of an attempt. -/
theorem written_of_update {attempts : List StatusAttempt} {attempt : StatusAttempt}
    (hmem : attempt ∈ attempts) (hstored : getRun runs run.ns run.name = some stored) :
    Written lib stored kjobs attempts
      (updateStatusOfRun runs (withStatus lib stored kjobs attempt)) := by
  have hkey := getRun_key hstored
  refine ⟨attempt, hmem, ?_⟩
  rw [getRun_updateStatusOfRun, hkey.1, hkey.2, hstored]
  simp [withStatus]

theorem othersKept_of_update (attempt : StatusAttempt)
    (hstored : getRun runs run.ns run.name = some stored) :
    OthersKept run runs (updateStatusOfRun runs (withStatus lib stored kjobs attempt)) := by
  have hkey := getRun_key hstored
  exact OthersKept.updateStatusOfRun runs hkey.1 hkey.2

/-- What attempts that all start with the run's own key look at and leave. -/
theorem retryOnConflict_of_key {attempts : List StatusAttempt} (hkept : Kept run runs run.name s)
    (hstored : getRun runs run.ns run.name = some stored)
    (hkey : nextKeyName run stored kjobs = run.name) :
    (∀ access ∈ (retryOnConflict
        (tryUpdateRunStatus lib run.ns run.labels.pipelineName kjobs) attempts s).1.accesses,
      access.OfRun run) ∧
    OthersKept run runs (retryOnConflict
      (tryUpdateRunStatus lib run.ns run.labels.pipelineName kjobs) attempts s).1.store.runs := by
  -- The invariant between attempts is `Kept` with the run's own key.
  refine retryOnConflict_result (I := Kept run runs run.name)
    (J := fun t => (∀ access ∈ t.accesses, access.OfRun run) ∧
      OthersKept run runs t.store.runs) ?_ ?_ ?_ hkept
  · intro t ht
    exact ⟨ht.accesses, ht.runs ▸ OthersKept.refl run runs⟩
  · intro attempt _ t ht
    by_cases hmeets : attempt.Meets stored kjobs
    · have hconflict := (ht.tryUpdate_conflict lib hstored hmeets).2
      exact ⟨hconflict.accesses, hconflict.runs ▸ OthersKept.refl run runs⟩
    · obtain ⟨-, haccesses, hruns⟩ := ht.tryUpdate_done lib hstored hmeets
      exact ⟨haccesses, hruns ▸ othersKept_of_update attempt hstored⟩
  · intro attempt _ t ht hverdict
    by_cases hmeets : attempt.Meets stored kjobs
    · exact hkey ▸ (ht.tryUpdate_conflict lib hstored hmeets).2
    · rw [(ht.tryUpdate_done lib hstored hmeets).1] at hverdict
      cases hverdict

/-- Attempts that all start with the run's own key stay with the run. -/
theorem keepsToRun_of_key {attempts : List StatusAttempt} (hkept : Kept run runs run.name s)
    (hstored : getRun runs run.ns run.name = some stored)
    (hkey : nextKeyName run stored kjobs = run.name) :
    KeepsToRun lib run stored kjobs attempts runs
      (retryOnConflict (tryUpdateRunStatus lib run.ns run.labels.pipelineName kjobs)
        attempts s) := by
  obtain ⟨haccesses, hothers⟩ := retryOnConflict_of_key hkept hstored hkey
  refine
    { accesses := haccesses
      written := ?_
      others := hothers }
  intro hclean
  refine retryOnConflict_done (I := Kept run runs run.name)
    (Q := fun t => Written lib stored kjobs attempts t.store.runs) ?_ ?_ hclean hkept
  · intro attempt _ t ht hmeets
    exact hkey ▸ ht.tryUpdate_conflict lib hstored hmeets
  · intro attempt hmem t ht hfree
    obtain ⟨hverdict, -, hruns⟩ := ht.tryUpdate_done lib hstored hfree
    exact ⟨hverdict, hruns ▸ written_of_update hmem hstored⟩

/-- A loop whose first attempt meets no conflict stays with the run too. -/
theorem keepsToRun_of_first {attempt : StatusAttempt} {attempts : List StatusAttempt}
    (hkept : Kept run runs run.name s) (hstored : getRun runs run.ns run.name = some stored)
    (hfree : ¬ attempt.Meets stored kjobs) :
    KeepsToRun lib run stored kjobs (attempt :: attempts) runs
      (retryOnConflict (tryUpdateRunStatus lib run.ns run.labels.pipelineName kjobs)
        (attempt :: attempts) s) := by
  obtain ⟨hverdict, haccesses, hruns⟩ := hkept.tryUpdate_done lib hstored hfree
  rw [retryOnConflict_cons_of_ne (by rw [hverdict]; exact fun h => nomatch h)]
  exact
    { accesses := haccesses
      written := fun _ => ⟨hverdict, hruns ▸ written_of_update List.mem_cons_self hstored⟩
      others := hruns ▸ othersKept_of_update attempt hstored }

/-! ## The log only grows -/

theorem mem_access {access : Access} (hmem : access ∈ s.accesses) (other : Access) :
    access ∈ (s.access other).accesses :=
  List.mem_append_left _ hmem

theorem mem_writeRunStatus {access : Access} (hmem : access ∈ s.accesses)
    (attempt : StatusAttempt) (written : Run) :
    access ∈ (writeRunStatus attempt written s).1.accesses := by
  unfold writeRunStatus
  split
  · exact mem_access hmem _
  · exact mem_access hmem _

theorem mem_endExecution {access : Access} (hmem : access ∈ s.accesses) (ns pipelineName : String)
    (attempt : StatusAttempt) : access ∈ (endExecution ns pipelineName attempt s).1.accesses := by
  have htwice : ∀ first second : Access, access ∈ (({ s with keyName := pipelineName }.access
      first).access second).accesses :=
    fun first second => mem_access (mem_access hmem first) second
  simp only [endExecution]
  split
  · exact htwice _ _
  · split
    · exact htwice _ _
    · exact htwice _ _

/-- An attempt begins with the fetch of the run, and forgets no access. -/
theorem mem_tryUpdate {access : Access} {t : RetryState} {attempt : StatusAttempt}
    {ns pipelineName : String} (hmem : access ∈ (t.access (.getRun ns t.keyName)).accesses) :
    access ∈ (tryUpdateRunStatus lib ns pipelineName kjobs attempt t).1.accesses := by
  unfold tryUpdateRunStatus
  split
  · exact hmem
  · next found _ =>
      have hended := mem_endExecution hmem ns pipelineName attempt
      simp only
      split
      · split
        · next u hend =>
            rw [hend] at hended
            exact mem_writeRunStatus hended _ _
        · next u verdict _ hend =>
            rw [hend] at hended
            exact hended
      · exact mem_writeRunStatus hmem _ _

/-- The attempt after a conflict fetches the run with the key that the
conflict has left. -/
theorem second_attempt_reads {attempt attempt' : StatusAttempt} {rest : List StatusAttempt}
    (hkept : Kept run runs run.name s) (hstored : getRun runs run.ns run.name = some stored)
    (hmeets : attempt.Meets stored kjobs) :
    .getRun run.ns (nextKeyName run stored kjobs) ∈
      (retryOnConflict (tryUpdateRunStatus lib run.ns run.labels.pipelineName kjobs)
        (attempt :: attempt' :: rest) s).1.accesses := by
  obtain ⟨hverdict, hnext⟩ := hkept.tryUpdate_conflict lib hstored hmeets
  rw [retryOnConflict_cons_of_conflict hverdict, ← hnext.key]
  generalize (tryUpdateRunStatus lib run.ns run.labels.pipelineName kjobs attempt s).1 = t
  have hfetch : .getRun run.ns t.keyName ∈
      (tryUpdateRunStatus lib run.ns run.labels.pipelineName kjobs attempt' t).1.accesses :=
    mem_tryUpdate (List.mem_append_right _ List.mem_cons_self)
  by_cases hagain :
      (tryUpdateRunStatus lib run.ns run.labels.pipelineName kjobs attempt' t).2 = .conflict
  · rw [retryOnConflict_cons_of_conflict hagain]
    let reads (u : RetryState) : Prop := .getRun run.ns t.keyName ∈ u.accesses
    refine retryOnConflict_result (I := reads) (J := reads) (fun _ hu => hu) ?_ ?_ hfetch
    · intro _ _ u hu
      exact mem_tryUpdate (mem_access hu _)
    · intro _ _ u hu _
      exact mem_tryUpdate (mem_access hu _)
  · rw [retryOnConflict_cons_of_ne hagain]
    exact hfetch

end Loop

/-- **Which retries stay with their run.**  The run and the pipeline of its
label are stored, as they are whenever a reconcile gets to its status.  The
attempts then stay with the run exactly when a key moved on is the same key,
when it is never moved on, or when no second attempt is made. -/
theorem keepsToRun_iff (lib : Externals) {run stored : Run} {pipeline : Pipeline}
    {store : StatusStore} (c : Cluster) (attempts : Nat → StatusAttempt)
    (hstored : getRun store.runs run.ns run.name = some stored)
    (hpipeline : getPipeline store.pipelines run.ns run.labels.pipelineName = some pipeline) :
    KeepsToRun lib run stored (c.listRunKJobs run.ns run.name) (allowed attempts) store.runs
        (updateRunStatus lib run c attempts store) ↔
      run.labels.pipelineName = run.name ∨
        ¬ EndsExecution stored (c.listRunKJobs run.ns run.name) ∨
        ¬ (attempts 0).Meets stored (c.listRunKJobs run.ns run.name) := by
  have hkept : Kept run store.runs run.name { keyName := run.name, store := store } :=
    { key := rfl
      runs := rfl
      pipeline := ⟨pipeline, hpipeline⟩
      accesses := by simp }
  constructor
  · intro hkeeps
    by_contra hnot
    simp only [not_or, not_not] at hnot
    obtain ⟨hlabel, hends, hmeets⟩ := hnot
    have hread : .getRun run.ns (nextKeyName run stored (c.listRunKJobs run.ns run.name)) ∈
        (updateRunStatus lib run c attempts store).1.accesses :=
      second_attempt_reads hkept hstored hmeets
    rw [nextKeyName, if_pos hends] at hread
    exact hlabel (hkeeps.accesses _ hread).2
  · rintro (hlabel | hends | hfree)
    · exact keepsToRun_of_key hkept hstored (by rw [nextKeyName, hlabel, ite_self])
    · exact keepsToRun_of_key hkept hstored (if_neg hends)
    · exact keepsToRun_of_first hkept hstored hfree

/-- A run named otherwise than its pipeline, with its one job done. -/
def trainedRun : Run where
  name := "train-1"
  ns := "team"
  labels := { pipelineName := "train", runName := "train-1" }
  spec := { jobs := [{ name := "fit" }] }

/-- A run of another pipeline that has the name of the pipeline. -/
def namesakeRun : Run where
  name := "train"
  ns := "team"
  labels := { pipelineName := "other", runName := "train" }

def trainedJobs : Cluster where
  kjobs := [{
    name := "fit-1"
    ns := "team"
    labels := { runName := "train-1", runJobName := "fit" }
    annotations := { status := "completed" } }]

/-- The one job is still running. -/
def trainingJobs : Cluster where
  kjobs := [{
    name := "fit-1"
    ns := "team"
    labels := { runName := "train-1", runJobName := "fit" }
    annotations := { status := "running" } }]

def trainedStore : StatusStore where
  runs := [trainedRun, namesakeRun]
  pipelines := [{ name := "train", ns := "team" }]

/-- Attempts of which at most the first meets a conflict, on the run. -/
def attemptsWith (firstConflicts : Bool) (k : Nat) : StatusAttempt where
  now := k * Time.second
  endNow := k * Time.second
  pipelineConflict := false
  runConflict := firstConflicts && k == 0

/-- A conflict on the write of a run that is in progress does no harm. -/
theorem keepsToRun_trained :
    (attemptsWith true 0).Meets trainedRun (trainingJobs.listRunKJobs "team" "train-1") ∧
      KeepsToRun Externals.plain trainedRun trainedRun
        (trainingJobs.listRunKJobs "team" "train-1") (allowed (attemptsWith true))
        trainedStore.runs
        (updateRunStatus Externals.plain trainedRun trainingJobs (attemptsWith true)
          trainedStore) :=
  ⟨by decide, (keepsToRun_iff Externals.plain trainingJobs (attemptsWith true) rfl rfl).mpr
    (Or.inr (Or.inl (by decide +kernel)))⟩

/-- A conflict on the first write of an ended run is enough: the second attempt
fetches, and then writes, the run that has the name of the pipeline. -/
theorem retried_not_keepsToRun :
    ¬ ∀ (lib : Externals) (run stored : Run) (pipeline : Pipeline) (store : StatusStore)
      (c : Cluster) (attempts : Nat → StatusAttempt),
      getRun store.runs run.ns run.name = some stored →
      getPipeline store.pipelines run.ns run.labels.pipelineName = some pipeline →
      KeepsToRun lib run stored (c.listRunKJobs run.ns run.name) (allowed attempts) store.runs
        (updateRunStatus lib run c attempts store) := by
  intro hall
  have hkeeps := hall Externals.plain trainedRun trainedRun { name := "train", ns := "team" }
    trainedStore trainedJobs (attemptsWith true) rfl rfl
  have hread : .getRun "team" "train" ∈ (updateRunStatus Externals.plain trainedRun trainedJobs
      (attemptsWith true) trainedStore).1.accesses := by
    decide +kernel
  exact absurd (hkeeps.accesses _ hread).2 (by decide)

end PipelineOperator.Controller
