import PipelineOperator.Controller.RunMachine
import PipelineOperator.Controller.VolumeList

/-!
# Passes over a run that is as they would leave it

Both passes of a reconcile write on every object they visit, whether something
has changed or not.  This file says when such a write brings nothing new: a
second pass over the volumes leaves the claims as the first one has left them,
although it takes their owners away in between, and a second pass over the
kubernetes jobs leaves those alone whose state and suspend flag are up to date.

## Main results

* `ensureVolumeList_again`: a pass over volumes that say what their claims say.
* `ensureKJobs_left`: what an error-free pass leaves on the jobs.
* `ensureKJobs_again`: a pass over jobs that are up to date.
-/

namespace PipelineOperator.Controller

open PipelineOperator.Lib
open PipelineOperator.Api
open PipelineOperator.Go

/-! ## The owners of the claims -/

section Owners

variable {lib : Externals} {pipeline : Pipeline} {s : VolumePass}

/-- The owners of the stored claims, by their keys. -/
def ownerView (s : VolumePass) (key : String × String) : Option (List OwnerReference) :=
  pvcOwners s.store.pvcs key.1 key.2

/-- The owners after a run has gone over its list. -/
def ownersAfter (pipeline : Pipeline) (run : Run) :
    (String × String → Option (List OwnerReference)) →
      String × String → Option (List OwnerReference) :=
  overwrite (fun entry => (run.ns, entry.1))
    (fun entry => some (ownersOf pipeline run (.ofText entry.2))) (listing run)

theorem ownersAfter_congr {pipeline pipeline' : Pipeline} {run run' : Run}
    (hname : pipeline.name = pipeline'.name) (hview : runView run = runView run') :
    ownersAfter pipeline run = ownersAfter pipeline' run' := by
  have hns : run.ns = run'.ns := congrArg RunView.ns hview
  have hlisting : listing run = listing run' := congrArg RunView.listing hview
  have howners : ownersOf pipeline run' = ownersOf pipeline' run' := by
    funext scope
    cases scope <;> simp [ownersOf, hname]
  unfold ownersAfter
  rw [hns, hlisting, ownersOf_congr pipeline hview, howners]

theorem ensureVolume_ownerView {entry : VolumeResource × Nat}
    (hok : (ensureVolume lib pipeline entry s).2 = .ok ()) :
    ownerView (ensureVolume lib pipeline entry s).1 =
      Function.update (ownerView s) (s.run.ns, entry.1.name)
        (some (ownersOf pipeline s.run entry.1.scope)) := by
  have heffect := ensureVolume_effect lib pipeline entry s
  rw [hok] at heffect
  funext key
  by_cases hkey : key = (s.run.ns, entry.1.name)
  · rw [hkey, Function.update_self]
    exact heffect.owners_self.2
  · rw [Function.update_of_ne hkey]
    rcases heffect.owners key.1 key.2 with hkept | ⟨hns, hname, -, -⟩
    · exact hkept
    · exact absurd (Prod.ext hns hname) hkey

/-- A pass without an error leaves the owners that the list asks for. -/
theorem ensureVolumeList_ownerView (hagrees : Agrees s.run s.store.runs)
    (hok : (ensureVolumeList lib pipeline s).2 = .ok ()) :
    ownerView (ensureVolumeList lib pipeline s).1 =
      ownersAfter pipeline s.run (ownerView s) := by
  have hwalk : ownerView (ensureVolumeList lib pipeline s).1 =
      s.run.spec.volumes.zipIdx.foldl (fun owners entry => Function.update owners
        (s.run.ns, entry.1.name) (some (ownersOf pipeline s.run entry.1.scope))) (ownerView s) := by
    refine walk_foldl (I := SameViews s)
      (fun _ hentry _ hsame => ensureVolume_views hsame hagrees hentry) ?_ (SameViews.refl s) hok
    intro entry _ t hsame hverdict
    have hns : t.run.ns = s.run.ns := congrArg RunView.ns hsame.run
    rw [ensureVolume_ownerView hverdict, hns, ownersOf_congr pipeline hsame.run]
  have hentries : listing s.run =
      s.run.spec.volumes.zipIdx.map fun entry => (entry.1.name, entry.1.lifecycle) := by
    rw [listing]
    conv_lhs => rw [← List.zipIdx_map_fst 0 s.run.spec.volumes, List.map_map]
    rfl
  rw [hwalk, ownersAfter, overwrite, hentries, List.foldl_map]
  rfl

/-- Every lifecycle of the list has been declared then. -/
theorem ensureVolumeList_declared (hok : (ensureVolumeList lib pipeline s).2 = .ok ()) :
    ∀ entry ∈ listing s.run, VolumeLifecycle.ofText entry.2 ≠ .undeclared := by
  have hall : ∀ entry ∈ s.run.spec.volumes.zipIdx, entry.1.scope ≠ .undeclared := by
    refine walk_done (I := fun _ => True) (Q := fun entry _ => entry.1.scope ≠ .undeclared)
      (fun _ _ _ _ => trivial) ?_ (fun _ _ _ _ _ h => h) trivial hok
    intro entry _ t _ hverdict
    have heffect := ensureVolume_effect lib pipeline entry t
    rw [hverdict] at heffect
    exact heffect.owners_self.1
  intro entry hentry
  obtain ⟨volume, hvolume, rfl⟩ := List.mem_map.mp hentry
  obtain ⟨i, hi⟩ := List.mem_iff_getElem?.mp hvolume
  exact hall (volume, i) (List.mem_zipIdx_iff_getElem?.mpr hi)

/-- A write that is accepted has been made. -/
theorem write_of_ok {change : VolumeStore → VolumeStore} (hok : (s.write change).2 = .ok ()) :
    (s.write change).1.store = change s.store ∧ (s.write change).1.run = s.run := by
  rcases write_cases s change with ⟨e, hwrite⟩ | ⟨accepted, hwrite⟩
  · rw [hwrite] at hok
    cases hok
  · rw [hwrite]
    exact ⟨rfl, rfl⟩

/-- The run in hand is the stored one after a visit without an error, if it was
so before. -/
theorem ensureVolume_inHand {entry : VolumeResource × Nat}
    (hstored : getRun s.store.runs s.run.ns s.run.name = some s.run)
    (hok : (ensureVolume lib pipeline entry s).2 = .ok ()) :
    getRun (ensureVolume lib pipeline entry s).1.store.runs
      (ensureVolume lib pipeline entry s).1.run.ns
      (ensureVolume lib pipeline entry s).1.run.name =
        some (ensureVolume lib pipeline entry s).1.run := by
  unfold ensureVolume at hok ⊢
  split at hok
  · split at hok
    · cases hok
    · obtain ⟨hstore, hrun⟩ := write_of_ok hok
      rw [hstore, hrun]
      exact hstored
  · next pvcQuery _ =>
      split at hok
      · cases hok
      · next storage _ =>
          have hwritten : getRun
              (replaceRun s.store.runs (withFetchedVolume s.run entry pvcQuery storage))
              s.run.ns s.run.name = some (withFetchedVolume s.run entry pvcQuery storage) := by
            rw [getRun_replaceRun, hstored]
            simp [withFetchedVolume]
          unfold reconcileVolume at hok ⊢
          simp only at hok ⊢
          split at hok
          · cases hok
          · next t hwrite =>
              split at hok
              · cases hok
              · have hfirst := write_of_ok (congrArg Prod.snd hwrite)
                rw [hwrite] at hfirst
                obtain ⟨hstore, hrun⟩ := write_of_ok hok
                rw [hstore, hrun, hfirst.1, hfirst.2]
                exact hwritten

theorem ensureVolumeList_inHand
    (hstored : getRun s.store.runs s.run.ns s.run.name = some s.run)
    (hok : (ensureVolumeList lib pipeline s).2 = .ok ()) :
    getRun (ensureVolumeList lib pipeline s).1.store.runs
      (ensureVolumeList lib pipeline s).1.run.ns (ensureVolumeList lib pipeline s).1.run.name =
        some (ensureVolumeList lib pipeline s).1.run :=
  walk_invariant_of_ok (I := fun t => getRun t.store.runs t.run.ns t.run.name = some t.run)
    (fun _ _ _ hstored hverdict => ensureVolume_inHand hstored hverdict) hstored hok

theorem getPvc_none_ne {pvcs : List PersistentVolumeClaim} {ns name : String}
    (hmissing : getPvc pvcs ns name = none) : ∀ pvc ∈ pvcs, pvcKey pvc ≠ (ns, name) := by
  intro pvc hpvc hkey
  have hparts := Prod.mk.inj hkey
  have hnot := List.find?_eq_none.mp hmissing pvc hpvc
  simp [hparts.1, hparts.2] at hnot

/-- A pass, however it ends, keeps the keys of the claims different. -/
theorem keyed_ensureVolumeList (lib : Externals) (pipeline : Pipeline)
    (hkeys : Keyed pvcKey s.store.pvcs) :
    Keyed pvcKey (ensureVolumeList lib pipeline s).1.store.pvcs := by
  refine walk_invariant (I := fun t : VolumePass => Keyed pvcKey t.store.pvcs) ?_ hkeys
  intro entry _ t ht
  have heffect := ensureVolume_effect lib pipeline entry t
  generalize (ensureVolume lib pipeline entry t).2 = verdict at heffect
  cases heffect with
  | failed hpvcs =>
      rw [hpvcs]
      exact ht
  | created _ hmissing hns hname _ hpvcs =>
      rw [hpvcs]
      refine Keyed.concat ht fun pvc hpvc => ?_
      rw [show pvcKey _ = (t.run.ns, entry.1.name) from Prod.ext hns hname]
      exact getPvc_none_ne hmissing pvc hpvc
  | reowned _ _ hpvcs =>
      rw [hpvcs]
      refine Keyed.map ht fun p _ => ?_
      split
      · next hkey => exact (Prod.ext hkey.1 hkey.2).symm
      · rfl

end Owners

/-! ## A second pass over the volumes -/

/-- What the claim of a volume says of it. -/
def claimedVolume (pvcs : List PersistentVolumeClaim) (ns : String) (volume : VolumeResource) :
    Option VolumeResource :=
  (getPvc pvcs ns volume.name).bind fun pvc =>
    pvc.storageClassName.map fun storage => fetchedVolume pvc storage volume.lifecycle

/-- The volumes of the run say what their claims say. -/
def VolumesUpToDate (run : Run) (pvcs : List PersistentVolumeClaim) : Prop :=
  ∀ volume ∈ run.spec.volumes, claimedVolume pvcs run.ns volume = some volume

instance (run : Run) (pvcs : List PersistentVolumeClaim) :
    Decidable (VolumesUpToDate run pvcs) := by
  unfold VolumesUpToDate
  infer_instance

/-- A claim but for its owners. -/
def unowned (pvc : PersistentVolumeClaim) : PersistentVolumeClaim :=
  { pvc with ownerReferences := [] }

theorem map_unowned_getPvc (pvcs : List PersistentVolumeClaim) (ns name : String) :
    (getPvc pvcs ns name).map unowned =
      (pvcs.map unowned).find? fun pvc => pvc.ns = ns ∧ pvc.name = name := by
  rw [List.find?_map]
  rfl

section Volumes

variable {pvcs pvcs' : List PersistentVolumeClaim}

theorem keyed_of_unowned (hsame : pvcs.map unowned = pvcs'.map unowned)
    (hkeys : Keyed pvcKey pvcs') : Keyed pvcKey pvcs :=
  hkeys.of_map_eq hsame pvcKey fun _ => rfl

/-- What the claims say does not depend on their owners. -/
theorem claimedVolume_congr (hsame : pvcs.map unowned = pvcs'.map unowned) (ns : String)
    (volume : VolumeResource) :
    claimedVolume pvcs ns volume = claimedVolume pvcs' ns volume := by
  have hread : ∀ l : List PersistentVolumeClaim, claimedVolume l ns volume =
      ((getPvc l ns volume.name).map unowned).bind fun pvc =>
        pvc.storageClassName.map fun storage => fetchedVolume pvc storage volume.lifecycle := by
    intro l
    rw [Option.bind_map]
    rfl
  rw [hread, hread, map_unowned_getPvc, hsame, ← map_unowned_getPvc]

/-- Claims with the same owners under every key are the same. -/
theorem eq_of_unowned (hsame : pvcs.map unowned = pvcs'.map unowned) (hkeys : Keyed pvcKey pvcs')
    (howners : ∀ ns name, pvcOwners pvcs ns name = pvcOwners pvcs' ns name) : pvcs = pvcs' := by
  have hlength : pvcs.length = pvcs'.length := by
    simpa using congrArg List.length hsame
  have hfound : ∀ l : List PersistentVolumeClaim, Keyed pvcKey l → ∀ pvc ∈ l,
      pvcOwners l pvc.ns pvc.name = some pvc.ownerReferences := by
    intro l hl pvc hpvc
    have hget : getPvc l pvc.ns pvc.name = some pvc := by
      refine hl.find?_eq hpvc (by simp) ?_
      intro other _ hother
      have hparts := of_decide_eq_true hother
      exact Prod.ext hparts.1 hparts.2
    rw [pvcOwners, hget, Option.map_some]
  refine List.ext_getElem hlength ?_
  intro i hi hi'
  have hrest : unowned pvcs[i] = unowned pvcs'[i] := by
    have hat := congrArg (fun l => l[i]?) hsame
    simpa [hi, hi'] using hat
  have hns : pvcs[i].ns = pvcs'[i].ns := by
    show (unowned pvcs[i]).ns = (unowned pvcs'[i]).ns
    rw [hrest]
  have hname : pvcs[i].name = pvcs'[i].name := by
    show (unowned pvcs[i]).name = (unowned pvcs'[i]).name
    rw [hrest]
  have hown := hfound pvcs (keyed_of_unowned hsame hkeys) pvcs[i] (List.getElem_mem hi)
  have hown' := hfound pvcs' hkeys pvcs'[i] (List.getElem_mem hi')
  rw [howners, hns, hname, hown', Option.some.injEq] at hown
  calc pvcs[i] = { unowned pvcs[i] with ownerReferences := pvcs[i].ownerReferences } := rfl
    _ = { unowned pvcs'[i] with ownerReferences := pvcs'[i].ownerReferences } := by
      rw [hrest, hown]
    _ = pvcs'[i] := rfl

/-- Other owners are all that a second visit writes. -/
theorem map_unowned_replacePvc (hkeys : Keyed pvcKey pvcs) {pvc : PersistentVolumeClaim}
    (hpvc : pvc ∈ pvcs) (owners : List OwnerReference) :
    (replacePvc pvcs { pvc with ownerReferences := owners }).map unowned = pvcs.map unowned := by
  unfold replacePvc
  rw [List.map_map]
  apply List.map_congr_left
  intro p hp
  simp only [Function.comp_apply]
  split
  · next hkey =>
      rw [hkeys.eq_of_key hp hpvc (Prod.ext hkey.1 hkey.2)]
      rfl
  · rfl

/-- A second pass on the way: nothing has changed but the owners of claims, and
the API server accepts the writes on the volumes that are left. -/
structure Standing (run : Run) (before : VolumeStore) (rest : List (VolumeResource × Nat))
    (s : VolumePass) : Prop where
  inHand : s.run = run
  runs : s.store.runs = before.runs
  pvcs : s.store.pvcs.map unowned = before.pvcs.map unowned
  accepted : 2 * rest.length ≤ s.accepted
  entries : ∀ entry ∈ rest, entry ∈ run.spec.volumes.zipIdx

section Again

variable {lib : Externals} {pipeline : Pipeline} {run : Run} {before : VolumeStore}
  {s : VolumePass} {entry : VolumeResource × Nat} {rest : List (VolumeResource × Nat)}

/-- A volume that says what its claim says is written back as it is. -/
theorem withFetchedVolume_self {pvcQuery : PersistentVolumeClaim} {storage : String}
    (hentry : entry ∈ run.spec.volumes.zipIdx)
    (hvolume : fetchedVolume pvcQuery storage entry.1.lifecycle = entry.1) :
    withFetchedVolume run entry pvcQuery storage = run := by
  have hget : run.spec.volumes[entry.2]? = some entry.1 :=
    List.mem_zipIdx_iff_getElem?.mp hentry
  obtain ⟨hlt, hat⟩ := List.getElem?_eq_some_iff.mp hget
  have hset : run.spec.volumes.set entry.2 entry.1 = run.spec.volumes := by
    rw [← hat, List.set_getElem_self]
  unfold withFetchedVolume
  rw [hvolume, hset]

theorem Standing.visit (hstanding : Standing run before (entry :: rest) s)
    (hruns : Keyed runKey before.runs) (hpvcs : Keyed pvcKey before.pvcs)
    (hstored : getRun before.runs run.ns run.name = some run)
    (hvolumes : VolumesUpToDate run before.pvcs)
    (hdeclared : ∀ volume ∈ run.spec.volumes, volume.scope ≠ .undeclared)
    (hpipeline : pipeline.ns = run.ns) :
    (ensureVolume lib pipeline entry s).2 = .ok () ∧
      Standing run before rest (ensureVolume lib pipeline entry s).1 := by
  have hentry := hstanding.entries entry List.mem_cons_self
  have hvolume : entry.1 ∈ run.spec.volumes := List.fst_mem_of_mem_zipIdx hentry
  have hclaimed : claimedVolume s.store.pvcs run.ns entry.1 = some entry.1 := by
    rw [claimedVolume_congr hstanding.pvcs]
    exact hvolumes entry.1 hvolume
  obtain ⟨pvcQuery, hget, hclass⟩ := Option.bind_eq_some_iff.mp hclaimed
  obtain ⟨storage, hstorage, hfetched⟩ := Option.map_eq_some_iff.mp hclass
  have hquery := getPvc_key hget
  have hmem : pvcQuery ∈ s.store.pvcs := List.mem_of_find?_eq_some hget
  have hrun : run ∈ before.runs := List.mem_of_find?_eq_some hstored
  obtain ⟨accepted, haccepted⟩ : ∃ accepted, s.accepted = accepted + 2 := by
    have hroom := hstanding.accepted
    rw [List.length_cons] at hroom
    exact ⟨s.accepted - 2, by omega⟩
  have howner := setPvcOwner_declared (hdeclared entry.1 hvolume) hpipeline hquery.1
  rw [hstorage] at howner
  have hvisit : ensureVolume lib pipeline entry s =
      ({ run := run
         store := {
           runs := before.runs
           pvcs := replacePvc s.store.pvcs
             { pvcQuery with ownerReferences := ownersOf pipeline run entry.1.scope } }
         accepted := accepted }, .ok ()) := by
    simp only [ensureVolume, reconcileVolume, VolumePass.write, hstanding.inHand, hget, hstorage,
      withFetchedVolume_self hentry hfetched, haccepted, hstanding.runs,
      replaceRun_self hruns hrun, howner]
  rw [hvisit]
  refine ⟨rfl, ?_⟩
  exact
    { inHand := rfl
      runs := rfl
      pvcs := (map_unowned_replacePvc (keyed_of_unowned hstanding.pvcs hpvcs) hmem _).trans
        hstanding.pvcs
      accepted := by
        have hroom := hstanding.accepted
        rw [List.length_cons, haccepted] at hroom
        show 2 * rest.length ≤ accepted
        omega
      entries := fun other hother => hstanding.entries other (List.mem_cons_of_mem _ hother) }

/-- A pass over volumes that say what their claims say meets no error, and
leaves the run as it was and of the claims everything but their owners. -/
theorem ensureVolumeList_standing (lib : Externals) (accepted : Nat)
    (hruns : Keyed runKey before.runs) (hpvcs : Keyed pvcKey before.pvcs)
    (hstored : getRun before.runs run.ns run.name = some run)
    (hvolumes : VolumesUpToDate run before.pvcs)
    (hdeclared : ∀ volume ∈ run.spec.volumes, volume.scope ≠ .undeclared)
    (hpipeline : pipeline.ns = run.ns) (haccepted : 2 * run.spec.volumes.length ≤ accepted) :
    (ensureVolumeList lib pipeline ⟨run, before, accepted⟩).2 = .ok () ∧
      Standing run before [] (ensureVolumeList lib pipeline ⟨run, before, accepted⟩).1 := by
  have hstart : Standing run before run.spec.volumes.zipIdx ⟨run, before, accepted⟩ :=
    { inHand := rfl
      runs := rfl
      pvcs := rfl
      accepted := by
        rw [List.length_zipIdx]
        exact haccepted
      entries := fun _ hentry => hentry }
  exact walk_progress (I := Standing run before)
    (fun _ _ _ hs => hs.visit hruns hpvcs hstored hvolumes hdeclared hpipeline) hstart

/-- A pass over volumes that say what their claims say leaves everything as it
is, if a pass has gone over them before: the owners that it takes away are
those that it gives. -/
theorem ensureVolumeList_again {pipeline' : Pipeline} (first : VolumePass) (accepted : Nat)
    (hagrees : Agrees first.run first.store.runs)
    (hok : (ensureVolumeList lib pipeline' first).2 = .ok ())
    (hname : pipeline.name = pipeline'.name) (hview : runView run = runView first.run)
    (hclaims : before.pvcs = (ensureVolumeList lib pipeline' first).1.store.pvcs)
    (hruns : Keyed runKey before.runs) (hpvcs : Keyed pvcKey before.pvcs)
    (hstored : getRun before.runs run.ns run.name = some run)
    (hvolumes : VolumesUpToDate run before.pvcs) (hpipeline : pipeline.ns = run.ns)
    (haccepted : 2 * run.spec.volumes.length ≤ accepted) :
    ∃ left, ensureVolumeList lib pipeline ⟨run, before, accepted⟩ =
      (⟨run, before, left⟩, .ok ()) := by
  have hdeclared : ∀ volume ∈ run.spec.volumes, volume.scope ≠ .undeclared := by
    have hlisting : listing run = listing first.run := congrArg RunView.listing hview
    intro volume hvolume
    have hlisted : (volume.name, volume.lifecycle) ∈ listing first.run :=
      hlisting ▸ List.mem_map_of_mem hvolume
    exact ensureVolumeList_declared hok _ hlisted
  obtain ⟨hverdict, hstanding⟩ := ensureVolumeList_standing lib accepted hruns hpvcs hstored
    hvolumes hdeclared hpipeline haccepted
  have hstart : ownerView ⟨run, before, accepted⟩ = ownersAfter pipeline run (ownerView first) := by
    rw [ownersAfter_congr hname hview, ← ensureVolumeList_ownerView hagrees hok]
    funext key
    rw [ownerView, ownerView, hclaims]
  have howners : ownerView (ensureVolumeList lib pipeline ⟨run, before, accepted⟩).1 =
      ownerView ⟨run, before, accepted⟩ := by
    have hagain := ensureVolumeList_ownerView (agrees_of_getRun hruns hstored) hverdict
    rw [hagain, hstart]
    exact overwrite_overwrite _ _
  have hsame := eq_of_unowned hstanding.pvcs hpvcs fun ns name => congrFun howners (ns, name)
  generalize ensureVolumeList lib pipeline ⟨run, before, accepted⟩ = result at *
  obtain ⟨⟨run', ⟨runs', pvcs'⟩, left⟩, verdict⟩ := result
  obtain rfl : run' = run := hstanding.inHand
  obtain rfl : runs' = before.runs := hstanding.runs
  obtain rfl : pvcs' = before.pvcs := hsame
  exact ⟨left, by rw [← hverdict]⟩

end Again

end Volumes

/-! ## A pass over the kubernetes jobs -/

section KJobs

variable {run : Run} {c next : Cluster}

/-- One turn of the loop, as a visit. -/
def visitKJob (run : Run) (desiredkjob : KJob) (c : Cluster) : Cluster × Except String Unit :=
  match ensureKJob run c desiredkjob with
  | .error e => (c, .error e)
  | .ok next => (next, .ok ())

theorem ensureKJobs_eq_walk (run : Run) (todo : List KJob) (c : Cluster) :
    ensureKJobs run todo c = walk (visitKJob run) todo c := by
  induction todo generalizing c with
  | nil => rfl
  | cons desiredkjob todo ih =>
      cases hstep : ensureKJob run c desiredkjob with
      | error e => simp only [ensureKJobs, walk, visitKJob, hstep]
      | ok next =>
          simp only [ensureKJobs, walk, visitKJob, hstep]
          exact ih next

/-- What an error-free turn leaves on its job: the trigger has been handed over,
and the reason is that of its first pod, unless nothing has been recorded. -/
structure LeftBy (c : Cluster) (desiredkjob kjob : KJob) : Prop where
  trigger : handOver kjob.annotations.trigger desiredkjob.annotations.trigger =
    kjob.annotations.trigger
  reason : kjob.annotations.status = "" ∨
    kjob.annotations.reason = (firstPod c desiredkjob.ns kjob.name).reason

/-- Handing over keeps a trigger that needs no handing over. -/
theorem handOver_handOver_of_fixed {trigger desiredTrigger : String} (otherTrigger : String)
    (hfixed : handOver trigger desiredTrigger = trigger) :
    handOver (handOver trigger otherTrigger) desiredTrigger = handOver trigger otherTrigger := by
  unfold handOver at hfixed ⊢
  by_cases hother : trigger = formatBool true ∧ otherTrigger = formatBool false
  · simp [hother, formatBool]
  · rw [if_neg hother]
    exact hfixed

theorem pods_ensureKJob {desiredkjob : KJob} (hstep : ensureKJob run c desiredkjob = .ok next) :
    next.pods = c.pods := by
  cases hget : c.getKJob desiredkjob.ns desiredkjob.name with
  | none =>
      rw [ensureKJob_of_missing hget hstep]
      rfl
  | some kjob =>
      obtain ⟨suspending, -, rfl⟩ := ensureKJob_of_exists hget hstep
      rfl

theorem firstPod_congr (hpods : next.pods = c.pods) (ns jobName : String) :
    firstPod next ns jobName = firstPod c ns jobName := by
  rw [firstPod, firstPod, Cluster.listPods, Cluster.listPods, hpods]

/-- A turn without an error, seen from the visit. -/
theorem visitKJob_ok {desiredkjob : KJob} (hok : (visitKJob run desiredkjob c).2 = .ok ()) :
    ∃ next, ensureKJob run c desiredkjob = .ok next ∧
      visitKJob run desiredkjob c = (next, .ok ()) := by
  unfold visitKJob at hok ⊢
  split at hok
  · cases hok
  · next next hstep => exact ⟨next, hstep, rfl⟩

/-- The stores on the way of a pass: the pods stay, the keys stay different. -/
structure OnTheWay (before c : Cluster) : Prop where
  pods : c.pods = before.pods
  keys : Keyed kjobKey c.kjobs

theorem OnTheWay.visit {before : Cluster} (hway : OnTheWay before c) (run : Run)
    (desiredkjob : KJob) : OnTheWay before (visitKJob run desiredkjob c).1 := by
  unfold visitKJob
  split
  · exact hway
  · next next hstep =>
      refine ⟨(pods_ensureKJob hstep).trans hway.pods, ?_⟩
      cases hget : c.getKJob desiredkjob.ns desiredkjob.name with
      | none =>
          rw [ensureKJob_of_missing hget hstep]
          exact keyed_createKJob hway.keys hget
      | some kjob =>
          obtain ⟨suspending, -, rfl⟩ := ensureKJob_of_exists hget hstep
          exact keyed_updateKJob hway.keys _

/-- A turn leaves its own job so. -/
theorem leftBy_own {desiredkjob : KJob} (hstatus : desiredkjob.annotations.status = "")
    (hstep : ensureKJob run c desiredkjob = .ok next) :
    ∃ kjob, next.getKJob desiredkjob.ns desiredkjob.name = some kjob ∧
      LeftBy next desiredkjob kjob := by
  have hpods := pods_ensureKJob hstep
  cases hget : c.getKJob desiredkjob.ns desiredkjob.name with
  | none =>
      have hnext := ensureKJob_of_missing hget hstep
      refine ⟨{ desiredkjob with owner := some ⟨.run, run.name⟩ }, ?_,
        ⟨handOver_self _, .inl hstatus⟩⟩
      rw [hnext, Cluster.getKJob_createKJob, hget, Option.none_or]
      exact if_pos rfl
  | some kjob =>
      obtain ⟨suspending, -, hnext⟩ := ensureKJob_of_exists hget hstep
      refine ⟨updatedKJob kjob (firstPod c desiredkjob.ns kjob.name)
        desiredkjob.annotations.trigger suspending, ?_, ⟨handOver_handOver _ _, .inr ?_⟩⟩
      · rw [hnext]
        exact Cluster.getKJob_updateKJob_self hget rfl
      · rw [firstPod_congr hpods]
        rfl

/-- The turns of other jobs leave it at that. -/
theorem leftBy_kept {desiredkjob other : KJob} (hstep : ensureKJob run c desiredkjob = .ok next)
    (hleft : ∃ kjob, c.getKJob other.ns other.name = some kjob ∧ LeftBy c other kjob) :
    ∃ kjob, next.getKJob other.ns other.name = some kjob ∧ LeftBy next other kjob := by
  obtain ⟨kjob, hkjob, hleft⟩ := hleft
  have hpods := pods_ensureKJob hstep
  have hsame : LeftBy next other kjob :=
    ⟨hleft.trigger, by rw [firstPod_congr hpods]; exact hleft.reason⟩
  cases hget : c.getKJob desiredkjob.ns desiredkjob.name with
  | none =>
      refine ⟨kjob, ?_, hsame⟩
      rw [ensureKJob_of_missing hget hstep, Cluster.getKJob_createKJob, hkjob, Option.some_or]
  | some current =>
      obtain ⟨suspending, -, hnext⟩ := ensureKJob_of_exists hget hstep
      rw [hnext, Cluster.getKJob_updateKJob, hkjob, Option.map_some]
      by_cases hkey : kjobKey kjob = kjobKey current
      · obtain ⟨-, hns, hname⟩ := Cluster.mem_of_getKJob hkjob
        obtain ⟨-, hns', hname'⟩ := Cluster.mem_of_getKJob hget
        obtain ⟨hsameNs, hsameName⟩ := Prod.mk.inj hkey
        have hotherNs : other.ns = desiredkjob.ns := by rw [← hns, hsameNs, hns']
        have hotherName : other.name = desiredkjob.name := by rw [← hname, hsameName, hname']
        rw [hotherNs, hotherName, hget, Option.some.injEq] at hkjob
        subst hkjob
        refine ⟨_, congrArg some (if_pos rfl), ?_, .inr ?_⟩
        · exact handOver_handOver_of_fixed _ hleft.trigger
        · rw [firstPod_congr (hnext ▸ hpods), hotherNs]
          rfl
      · exact ⟨kjob, by simp [hkey], hnext ▸ hsame⟩

/-- An error-free pass leaves every job that it has visited so. -/
theorem ensureKJobs_left {todo : List KJob} (hkeys : Keyed kjobKey c.kjobs)
    (hstatus : ∀ desiredkjob ∈ todo, desiredkjob.annotations.status = "")
    (hpass : ensureKJobs run todo c = (next, .ok ())) :
    OnTheWay c next ∧ ∀ desiredkjob ∈ todo, ∃ kjob,
      next.getKJob desiredkjob.ns desiredkjob.name = some kjob ∧ LeftBy next desiredkjob kjob := by
  rw [ensureKJobs_eq_walk] at hpass
  have hstart : OnTheWay c c := ⟨rfl, hkeys⟩
  have hverdict : (walk (visitKJob run) todo c).2 = .ok () := congrArg Prod.snd hpass
  have hnext : (walk (visitKJob run) todo c).1 = next := congrArg Prod.fst hpass
  rw [← hnext]
  constructor
  · exact walk_invariant (fun desiredkjob _ _ hway => hway.visit run desiredkjob) hstart
  · refine walk_done (I := OnTheWay c) (Q := fun desiredkjob d => ∃ kjob,
      d.getKJob desiredkjob.ns desiredkjob.name = some kjob ∧ LeftBy d desiredkjob kjob)
      (fun desiredkjob _ _ hway => hway.visit run desiredkjob) ?_ ?_ hstart hverdict
    · intro desiredkjob hdesired d _ hok
      obtain ⟨next, hstep, hvisit⟩ := visitKJob_ok hok
      rw [hvisit]
      exact leftBy_own (hstatus desiredkjob hdesired) hstep
    · intro desiredkjob _ other d _ hleft
      unfold visitKJob
      split
      · exact hleft
      · next next hstep => exact leftBy_kept hstep hleft

/-- The state recorded on a job is the one the classifier gives it, and its
suspend flag is the one that the recorded states before it ask for. -/
structure KJobUpToDate (run : Run) (c : Cluster) (kjob : KJob) : Prop where
  state : kjob.recorded = determineJobStateFrom kjob (firstPod c kjob.ns kjob.name)
  suspend : isSuspending c (selfJobOf run kjob.labels.runJobName).ns kjob.annotations.trigger
    (selfJobOf run kjob.labels.runJobName).runBefore = .ok kjob.suspend

instance (run : Run) (c : Cluster) (kjob : KJob) : Decidable (KJobUpToDate run c kjob) :=
  decidable_of_iff
    (kjob.recorded = determineJobStateFrom kjob (firstPod c kjob.ns kjob.name) ∧
      isSuspending c (selfJobOf run kjob.labels.runJobName).ns kjob.annotations.trigger
        (selfJobOf run kjob.labels.runJobName).runBefore = .ok kjob.suspend)
    ⟨fun h => ⟨h.1, h.2⟩, fun h => ⟨h.state, h.suspend⟩⟩

/-- A turn on a job that is up to date and that a pass has visited before. -/
theorem ensureKJob_again {desiredkjob kjob : KJob} (hkeys : Keyed kjobKey c.kjobs)
    (hget : c.getKJob desiredkjob.ns desiredkjob.name = some kjob)
    (hleft : LeftBy c desiredkjob kjob) (hcurrent : KJobUpToDate run c kjob) :
    ensureKJob run c desiredkjob = .ok c := by
  obtain ⟨hmem, hns, -⟩ := Cluster.mem_of_getKJob hget
  have hstate := hcurrent.state
  rw [hns] at hstate
  have htext : (determineJobStateFrom kjob (firstPod c desiredkjob.ns kjob.name)).text =
      kjob.annotations.status := by
    rw [← hstate]
    exact JobState.text_ofText _
  have hrecorded : kjob.annotations.status ≠ "" := by
    rw [← htext]
    exact text_determineJobStateFrom_ne _ _
  have hreason := hleft.reason.resolve_left hrecorded
  have hwritten : updatedKJob kjob (firstPod c desiredkjob.ns kjob.name)
      desiredkjob.annotations.trigger kjob.suspend = kjob := by
    unfold updatedKJob
    rw [htext, ← hreason, hleft.trigger]
  simp only [ensureKJob, hget, hcurrent.suspend, hwritten, updateKJob_self hkeys hmem, bind,
    Except.bind, pure, Except.pure]

/-- A pass over jobs that are up to date changes nothing. -/
theorem ensureKJobs_again {todo : List KJob} (hkeys : Keyed kjobKey c.kjobs)
    (hcurrent : ∀ desiredkjob ∈ todo, ∃ kjob,
      c.getKJob desiredkjob.ns desiredkjob.name = some kjob ∧ LeftBy c desiredkjob kjob ∧
        KJobUpToDate run c kjob) :
    ensureKJobs run todo c = (c, .ok ()) := by
  induction todo with
  | nil => rfl
  | cons desiredkjob todo ih =>
      obtain ⟨kjob, hget, hleft, hkjob⟩ := hcurrent desiredkjob List.mem_cons_self
      rw [ensureKJobs, ensureKJob_again hkeys hget hleft hkjob]
      exact ih fun other hother => hcurrent other (List.mem_cons_of_mem _ hother)

end KJobs

end PipelineOperator.Controller
