import PipelineOperator.Controller.SecondPass

/-!
# Volumes written as claims and read back

The first pass over the volumes of a run creates their claims, and the next one
rewrites the volumes from the claims.  A volume without a storage has a claim
without a class, which the second pass dereferences; and the access modes are
written to the claim but not read back, so that the run is left with those that
its schema has for a default.

## Main results

* `ensureVolumeList_creates`: a pass over volumes without claims creates them.
* `ensureVolumeList_reads`, `ensureVolumeList_volumes`: a pass over volumes with
  claims, when it meets no error and what it leaves.
* `ClaimsCreated.reads_iff`, `ClaimsCreated.volumes_iff`: when the second pass
  completes, and when it leaves the volumes as they were.
* `roundTrips_iff`: which volumes come back as they were.
-/

namespace PipelineOperator.Controller

open PipelineOperator.Lib
open PipelineOperator.Api

/-! ## The round trip -/

/-- The volume says what it said before, with its capacity in canonical
spelling. -/
structure SameVolume (lib : Externals) (before after : VolumeResource) : Prop where
  name : after.name = before.name
  storage : after.storage = before.storage
  lifecycle : after.lifecycle = before.lifecycle
  accessModes : after.accessModes = before.accessModes
  capacity : ∃ quantity, lib.parseQuantity before.capacity = .ok quantity ∧
    after.capacity = quantity.canonical

/-- A run as the API server answers its update: the schema has default access
modes for a volume without any. -/
def withDefaultModes (modes : List String) (run : Run) : Run :=
  { run with spec.volumes := run.spec.volumes.map fun volume =>
      if volume.accessModes = [] then { volume with accessModes := modes } else volume }

/-- Two passes one after the other, of which no visit reads the access modes of a
volume whose claim exists. -/
structure RoundTrips (lib : Externals) (pipeline : Pipeline) (modes : List String)
    (s : VolumePass) : Prop where
  creates : (ensureVolumeList lib pipeline s).2 = .ok ()
  reads : (ensureVolumeList lib pipeline (ensureVolumeList lib pipeline s).1).2 = .ok ()
  volumes : List.Forall₂ (SameVolume lib) s.run.spec.volumes (withDefaultModes modes
    (ensureVolumeList lib pipeline (ensureVolumeList lib pipeline s).1).1.run).spec.volumes

/-! ## The pass that creates -/

/-- The claim of a volume. -/
def claimFor (lib : Externals) (pipeline : Pipeline) (run : Run) (volume : VolumeResource) :
    PersistentVolumeClaim where
  name := volume.name
  ns := run.ns
  ownerReferences := ownersOf pipeline run volume.scope
  accessModes := volume.accessModes
  storage := (lib.parseQuantity volume.capacity).toOption
  storageClassName := if volume.storage ≠ "" then some volume.storage else none

section Creates

variable {lib : Externals} {pipeline : Pipeline} {run : Run}

theorem newPvc_eq (hpipeline : pipeline.ns = run.ns) {volume : VolumeResource}
    (hparse : ∃ quantity, lib.parseQuantity volume.capacity = .ok quantity)
    (hdeclared : volume.scope ≠ .undeclared) :
    newPvc lib pipeline run volume = .ok (claimFor lib pipeline run volume) := by
  obtain ⟨quantity, hquantity⟩ := hparse
  have hparsed : parsePvcFromVolumeResourceWithMeta lib volume.name run.ns volume =
      .ok { claimFor lib pipeline run volume with ownerReferences := [] } := by
    rw [parsePvcFromVolumeResourceWithMeta, claimFor, hquantity]
    rfl
  have howner := @setPvcOwner_declared pipeline run volume.scope
    (claimFor lib pipeline run volume) hdeclared hpipeline rfl
  rw [newPvc, hparsed]
  exact howner

/-- Volumes without claims get them one after the other. -/
theorem walk_creates {entries : List (VolumeResource × Nat)}
    (hnew : ∀ entry ∈ entries,
      newPvc lib pipeline run entry.1 = .ok (claimFor lib pipeline run entry.1))
    (hnames : Keyed (fun entry => entry.1.name) entries) {s : VolumePass} (hrun : s.run = run)
    (hnone : ∀ entry ∈ entries, getPvc s.store.pvcs run.ns entry.1.name = none)
    (haccepted : entries.length ≤ s.accepted) :
    walk (ensureVolume lib pipeline) entries s =
      ({ s with
        store := { s.store with
          pvcs := s.store.pvcs ++ entries.map fun entry => claimFor lib pipeline run entry.1 }
        accepted := s.accepted - entries.length }, .ok ()) := by
  induction entries generalizing s with
  | nil => simp [walk]
  | cons entry rest ih =>
      obtain ⟨hfirst, hrest⟩ := List.nodup_cons.mp hnames
      obtain ⟨accepted, hroom⟩ : ∃ accepted, s.accepted = accepted + 1 := by
        rw [List.length_cons] at haccepted
        exact ⟨s.accepted - 1, by omega⟩
      have hvisit : ensureVolume lib pipeline entry s =
          ({ s with
            store := { s.store with
              pvcs := s.store.pvcs ++ [claimFor lib pipeline run entry.1] }
            accepted := accepted }, .ok ()) := by
        have hnewEntry := hnew entry List.mem_cons_self
        simp only [ensureVolume, hrun, hnone entry List.mem_cons_self, hnewEntry,
          VolumePass.write, hroom]
      have hverdict : (ensureVolume lib pipeline entry s).2 = .ok () := by rw [hvisit]
      have hleft : ∀ other ∈ rest, getPvc (s.store.pvcs ++ [claimFor lib pipeline run entry.1])
          run.ns other.1.name = none := by
        intro other hother
        have hname : entry.1.name ≠ other.1.name :=
          fun h => hfirst (List.mem_map.mpr ⟨other, hother, h.symm⟩)
        rw [getPvc_append, hnone other (List.mem_cons_of_mem _ hother), Option.none_or,
          if_neg fun h => hname h.2]
      have hroomLeft : rest.length ≤ accepted := by
        rw [List.length_cons, hroom] at haccepted
        omega
      rw [walk_cons_of_ok hverdict, hvisit]
      rw [ih (s := { s with
          store := { s.store with pvcs := s.store.pvcs ++ [claimFor lib pipeline run entry.1] }
          accepted := accepted })
        (fun other hother => hnew other (List.mem_cons_of_mem _ hother)) hrest hrun hleft hroomLeft]
      rw [hroom, List.length_cons, Nat.add_sub_add_right, List.map_cons, List.append_assoc,
        List.singleton_append]

/-- A pass over volumes that differ in their names and have no claims creates
the claims and changes nothing else. -/
theorem ensureVolumeList_creates {s : VolumePass} (hpipeline : pipeline.ns = s.run.ns)
    (hnames : Keyed VolumeResource.name s.run.spec.volumes)
    (hparse : ∀ volume ∈ s.run.spec.volumes,
      ∃ quantity, lib.parseQuantity volume.capacity = .ok quantity)
    (hdeclared : ∀ volume ∈ s.run.spec.volumes, volume.scope ≠ .undeclared)
    (hnone : ∀ volume ∈ s.run.spec.volumes, getPvc s.store.pvcs s.run.ns volume.name = none)
    (haccepted : s.run.spec.volumes.length ≤ s.accepted) :
    ensureVolumeList lib pipeline s =
      ({ s with
        store := { s.store with
          pvcs := s.store.pvcs ++ s.run.spec.volumes.map (claimFor lib pipeline s.run) }
        accepted := s.accepted - s.run.spec.volumes.length }, .ok ()) := by
  have hmem : ∀ entry ∈ s.run.spec.volumes.zipIdx, entry.1 ∈ s.run.spec.volumes :=
    fun entry hentry => List.fst_mem_of_mem_zipIdx hentry
  have hfst : ∀ {β : Type} (f : VolumeResource → β),
      (s.run.spec.volumes.zipIdx.map fun entry => f entry.1) = s.run.spec.volumes.map f := by
    intro β f
    conv_rhs => rw [← List.zipIdx_map_fst 0 s.run.spec.volumes, List.map_map]
    rfl
  have hkeyed : Keyed (fun entry : VolumeResource × Nat => entry.1.name)
      s.run.spec.volumes.zipIdx := by
    rw [Keyed, hfst VolumeResource.name]
    exact hnames
  rw [ensureVolumeList, walk_creates
    (fun entry hentry => newPvc_eq hpipeline (hparse _ (hmem entry hentry))
      (hdeclared _ (hmem entry hentry))) hkeyed rfl
    (fun entry hentry => hnone _ (hmem entry hentry)) (by rw [List.length_zipIdx]; exact haccepted),
    hfst, List.length_zipIdx]

end Creates

/-! ## The pass that reads -/

/-- What a visit of a volume with a claim keeps: the namespace of the run, and
of the claims everything but their owners. -/
structure OnlyReads (before t : VolumePass) : Prop where
  ns : t.run.ns = before.run.ns
  pvcs : t.store.pvcs.map unowned = before.store.pvcs.map unowned

section Reads

variable {lib : Externals} {pipeline : Pipeline} {before t : VolumePass}
  {entry : VolumeResource × Nat}

theorem OnlyReads.refl (s : VolumePass) : OnlyReads s s := ⟨rfl, rfl⟩

/-- The claim of the volume is still there, maybe with other owners. -/
theorem OnlyReads.found (honly : OnlyReads before t) {name : String}
    {pvc : PersistentVolumeClaim}
    (hfound : getPvc before.store.pvcs before.run.ns name = some pvc) :
    ∃ pvcQuery, getPvc t.store.pvcs t.run.ns name = some pvcQuery ∧
      unowned pvcQuery = unowned pvc := by
  have hsame : (getPvc t.store.pvcs t.run.ns name).map unowned = some (unowned pvc) := by
    rw [map_unowned_getPvc, honly.pvcs, honly.ns, ← map_unowned_getPvc, hfound, Option.map_some]
  exact Option.map_eq_some_iff.mp hsame

/-- A visit rewrites the run from the claim it has found, or leaves it. -/
theorem ensureVolume_run {pvcQuery : PersistentVolumeClaim}
    (hget : getPvc t.store.pvcs t.run.ns entry.1.name = some pvcQuery) :
    ((ensureVolume lib pipeline entry t).1.run = t.run ∧
        (ensureVolume lib pipeline entry t).2 ≠ .ok () ∧ pvcQuery.storageClassName = none) ∨
      ∃ storage, pvcQuery.storageClassName = some storage ∧
        (ensureVolume lib pipeline entry t).1.run =
          withFetchedVolume t.run entry pvcQuery storage := by
  unfold ensureVolume
  rw [hget]
  simp only
  cases hstorage : pvcQuery.storageClassName with
  | none => exact Or.inl ⟨rfl, nofun, rfl⟩
  | some storage =>
      refine Or.inr ⟨storage, rfl, ?_⟩
      unfold reconcileVolume
      simp only
      generalize hrun : withFetchedVolume t.run entry pvcQuery storage = run
      rcases write_cases { t with run := run }
          fun store => { store with runs := replaceRun store.runs run } with
        ⟨e, hwrite⟩ | ⟨accepted, hwrite⟩
      · rw [hwrite]
      · rw [hwrite]
        simp only
        split
        · rfl
        · next pvc _ =>
            generalize hmid : VolumePass.mk _ _ accepted = mid
            rcases write_cases mid fun store =>
              { store with pvcs := replacePvc store.pvcs pvc } with
              ⟨e, hwrite⟩ | ⟨accepted, hwrite⟩
            · rw [hwrite, ← hmid]
            · rw [hwrite, ← hmid]

/-- One visit, however it ends. -/
theorem OnlyReads.visit (honly : OnlyReads before t) (hkeys : Keyed pvcKey before.store.pvcs)
    {pvc : PersistentVolumeClaim}
    (hfound : getPvc before.store.pvcs before.run.ns entry.1.name = some pvc) :
    OnlyReads before (ensureVolume lib pipeline entry t).1 := by
  obtain ⟨pvcQuery, hget, -⟩ := honly.found hfound
  refine
    { ns := ?_
      pvcs := ?_ }
  · rcases @ensureVolume_run lib pipeline t entry pvcQuery hget with ⟨hrun, -⟩ | ⟨storage, -, hrun⟩
    · rw [hrun]
      exact honly.ns
    · rw [hrun]
      exact honly.ns
  · have heffect := ensureVolume_effect lib pipeline entry t
    generalize (ensureVolume lib pipeline entry t).2 = verdict at heffect
    cases heffect with
    | failed hpvcs =>
        rw [hpvcs]
        exact honly.pvcs
    | created _ hmissing =>
        rw [hmissing] at hget
        cases hget
    | reowned _ hquery hpvcs =>
        rw [hpvcs, map_unowned_replacePvc (keyed_of_unowned honly.pvcs hkeys)
          (List.mem_of_find?_eq_some hquery)]
        exact honly.pvcs

/-- A visit without an error leaves what the claim says. -/
theorem OnlyReads.visit_ok (honly : OnlyReads before t) {pvc : PersistentVolumeClaim}
    (hfound : getPvc before.store.pvcs before.run.ns entry.1.name = some pvc)
    (hok : (ensureVolume lib pipeline entry t).2 = .ok ()) :
    ∃ volume, claimedVolume before.store.pvcs before.run.ns entry.1 = some volume ∧
      (ensureVolume lib pipeline entry t).1.run.spec.volumes =
        t.run.spec.volumes.set entry.2 volume := by
  obtain ⟨pvcQuery, hget, hunowned⟩ := honly.found hfound
  rcases @ensureVolume_run lib pipeline t entry pvcQuery hget with
    ⟨-, herror, -⟩ | ⟨storage, hstorage, hrun⟩
  · exact absurd hok herror
  · refine ⟨fetchedVolume pvcQuery storage entry.1.lifecycle, ?_, by rw [hrun]; rfl⟩
    rw [← claimedVolume_congr honly.pvcs, ← honly.ns, claimedVolume, hget, Option.bind_some,
      hstorage, Option.map_some]

/-- A pass without an error over volumes with claims has read all of them. -/
theorem ensureVolumeList_volumes (hkeys : Keyed pvcKey before.store.pvcs)
    (hfound : ∀ volume ∈ before.run.spec.volumes,
      ∃ pvc, getPvc before.store.pvcs before.run.ns volume.name = some pvc)
    (hok : (ensureVolumeList lib pipeline before).2 = .ok ()) :
    (∀ volume ∈ before.run.spec.volumes,
        ∃ after, claimedVolume before.store.pvcs before.run.ns volume = some after) ∧
      (ensureVolumeList lib pipeline before).1.run.spec.volumes =
        before.run.spec.volumes.map fun volume =>
          (claimedVolume before.store.pvcs before.run.ns volume).getD volume := by
  have hentry : ∀ entry ∈ before.run.spec.volumes.zipIdx,
      ∃ pvc, getPvc before.store.pvcs before.run.ns entry.1.name = some pvc :=
    fun entry hentry => hfound _ (List.fst_mem_of_mem_zipIdx hentry)
  have hkeeps : ∀ entry ∈ before.run.spec.volumes.zipIdx, ∀ t, OnlyReads before t →
      OnlyReads before (ensureVolume lib pipeline entry t).1 := by
    intro entry hmem t honly
    obtain ⟨pvc, hpvc⟩ := hentry entry hmem
    exact honly.visit hkeys hpvc
  constructor
  · have hread : ∀ entry ∈ before.run.spec.volumes.zipIdx,
        ∃ after, claimedVolume before.store.pvcs before.run.ns entry.1 = some after := by
      refine walk_done (I := OnlyReads before) (Q := fun (entry : VolumeResource × Nat) _ =>
          ∃ after, claimedVolume before.store.pvcs before.run.ns entry.1 = some after)
        hkeeps ?_ ?_ (OnlyReads.refl before) hok
      on_goal 2 => exact fun _ _ _ _ _ h => h
      intro entry hmem t honly hverdict
      obtain ⟨pvc, hpvc⟩ := hentry entry hmem
      obtain ⟨volume, hvolume, -⟩ := honly.visit_ok hpvc hverdict
      exact ⟨volume, hvolume⟩
    intro volume hvolume
    obtain ⟨i, hi⟩ := List.mem_iff_getElem?.mp hvolume
    exact hread (volume, i) (List.mem_zipIdx_iff_getElem?.mpr hi)
  · rw [← foldl_set_zipIdx]
    refine @walk_foldl _ _ _ (ensureVolume lib pipeline) _ (OnlyReads before)
      (fun t => t.run.spec.volumes) _ _ hkeeps ?_ _ (OnlyReads.refl before) hok
    intro entry hmem t honly hverdict
    obtain ⟨pvc, hpvc⟩ := hentry entry hmem
    obtain ⟨volume, hvolume, hset⟩ := honly.visit_ok hpvc hverdict
    rw [hset, hvolume, Option.getD_some]

/-- On the way of a pass that reads, with enough writes left. -/
structure Reading (before : VolumePass) (rest : List (VolumeResource × Nat)) (t : VolumePass) :
    Prop extends OnlyReads before t where
  accepted : 2 * rest.length ≤ t.accepted
  entries : ∀ entry ∈ rest, entry.1 ∈ before.run.spec.volumes

/-- A volume whose claim has a class is read without an error. -/
theorem Reading.visit {rest : List (VolumeResource × Nat)}
    (hreading : Reading before (entry :: rest) t) (hkeys : Keyed pvcKey before.store.pvcs)
    (hclaimed : ∀ volume ∈ before.run.spec.volumes,
      ∃ after, claimedVolume before.store.pvcs before.run.ns volume = some after)
    (hdeclared : ∀ volume ∈ before.run.spec.volumes, volume.scope ≠ .undeclared)
    (hpipeline : pipeline.ns = before.run.ns) :
    (ensureVolume lib pipeline entry t).2 = .ok () ∧
      Reading before rest (ensureVolume lib pipeline entry t).1 := by
  have hvolume := hreading.entries entry List.mem_cons_self
  obtain ⟨after, hafter⟩ := hclaimed entry.1 hvolume
  obtain ⟨pvc, hpvc, hclass⟩ := Option.bind_eq_some_iff.mp hafter
  obtain ⟨storage, hstorage, -⟩ := Option.map_eq_some_iff.mp hclass
  obtain ⟨pvcQuery, hget, hunowned⟩ := hreading.found hpvc
  have hquery : pvcQuery.storageClassName = some storage := by
    rw [← hstorage]
    show (unowned pvcQuery).storageClassName = (unowned pvc).storageClassName
    rw [hunowned]
  obtain ⟨accepted, haccepted⟩ : ∃ accepted, t.accepted = accepted + 2 := by
    have hroom := hreading.accepted
    rw [List.length_cons] at hroom
    exact ⟨t.accepted - 2, by omega⟩
  have hns : pipeline.ns = (withFetchedVolume t.run entry pvcQuery storage).ns :=
    hpipeline.trans hreading.ns.symm
  have howner := setPvcOwner_declared (hdeclared entry.1 hvolume) hns (getPvc_key hget).1
  have hvisit : (ensureVolume lib pipeline entry t).2 = .ok () ∧
      (ensureVolume lib pipeline entry t).1.accepted = accepted := by
    simp only [ensureVolume, hget, hquery, reconcileVolume, VolumePass.write, haccepted]
    rw [hquery] at howner
    simp only [howner, and_self]
  refine ⟨hvisit.1, ?_⟩
  exact
    { toOnlyReads := hreading.toOnlyReads.visit hkeys hpvc
      accepted := by
        have hroom := hreading.accepted
        rw [List.length_cons, haccepted] at hroom
        rw [hvisit.2]
        omega
      entries := fun other hother => hreading.entries other (List.mem_cons_of_mem _ hother) }

/-- So is every volume, if each has a claim with a class. -/
theorem ensureVolumeList_reads (hkeys : Keyed pvcKey before.store.pvcs)
    (hclaimed : ∀ volume ∈ before.run.spec.volumes,
      ∃ after, claimedVolume before.store.pvcs before.run.ns volume = some after)
    (hdeclared : ∀ volume ∈ before.run.spec.volumes, volume.scope ≠ .undeclared)
    (hpipeline : pipeline.ns = before.run.ns)
    (haccepted : 2 * before.run.spec.volumes.length ≤ before.accepted) :
    (ensureVolumeList lib pipeline before).2 = .ok () := by
  have hstart : Reading before before.run.spec.volumes.zipIdx before :=
    { toOnlyReads := OnlyReads.refl before
      accepted := by
        rw [List.length_zipIdx]
        exact haccepted
      entries := fun _ hentry => List.fst_mem_of_mem_zipIdx hentry }
  exact (walk_progress (I := Reading before)
    (fun _ _ _ hs => hs.visit hkeys hclaimed hdeclared hpipeline) hstart).1

end Reads

/-! ## Which volumes come back -/

section RoundTrip

variable {lib : Externals} {pipeline : Pipeline} {s : VolumePass}

/-- A claim that a pass has created is found under the name of its volume. -/
theorem getPvc_created {run : Run} {pvcs : List PersistentVolumeClaim}
    (hkeys : Keyed pvcKey pvcs) {volume : VolumeResource}
    (hmem : claimFor lib pipeline run volume ∈ pvcs) :
    getPvc pvcs run.ns volume.name = some (claimFor lib pipeline run volume) := by
  refine hkeys.find?_eq hmem (by simp [claimFor]) ?_
  intro other _ hother
  have hparts := of_decide_eq_true hother
  exact Prod.ext hparts.1 hparts.2

/-- It says what it has been created from, if the volume has a storage. -/
theorem claimedVolume_created {run : Run} {pvcs : List PersistentVolumeClaim}
    (hkeys : Keyed pvcKey pvcs) {volume : VolumeResource}
    (hmem : claimFor lib pipeline run volume ∈ pvcs) :
    claimedVolume pvcs run.ns volume =
      if volume.storage ≠ "" then some (fetchedVolume (claimFor lib pipeline run volume)
        volume.storage volume.lifecycle) else none := by
  rw [claimedVolume, getPvc_created hkeys hmem, Option.bind_some, claimFor]
  simp only
  split <;> rfl

/-- A volume with a storage comes back as it was if its access modes are the
default ones. -/
theorem sameVolume_fetched_iff {modes : List String} {run : Run} {volume : VolumeResource}
    (hparse : ∃ quantity, lib.parseQuantity volume.capacity = .ok quantity) :
    SameVolume lib volume { fetchedVolume (claimFor lib pipeline run volume)
        volume.storage volume.lifecycle with accessModes := modes } ↔
      volume.accessModes = modes := by
  constructor
  · exact fun hsame => hsame.accessModes.symm
  · intro hmodes
    obtain ⟨quantity, hquantity⟩ := hparse
    exact
      { name := rfl
        storage := rfl
        lifecycle := rfl
        accessModes := hmodes.symm
        capacity := ⟨quantity, hquantity, by rw [fetchedVolume, claimFor, hquantity]; rfl⟩ }

/-- The claims of the volumes are there, and nothing else has changed that the
next pass over them looks at. -/
structure ClaimsCreated (lib : Externals) (pipeline : Pipeline) (s created : VolumePass) :
    Prop where
  run : created.run = s.run
  keys : Keyed pvcKey created.store.pvcs
  claims : ∀ volume ∈ s.run.spec.volumes,
    claimFor lib pipeline s.run volume ∈ created.store.pvcs
  accepted : 2 * s.run.spec.volumes.length ≤ created.accepted

section Created

variable {created : VolumePass}

theorem ClaimsCreated.found (hcreated : ClaimsCreated lib pipeline s created) :
    ∀ volume ∈ created.run.spec.volumes,
      ∃ pvc, getPvc created.store.pvcs created.run.ns volume.name = some pvc := by
  rw [hcreated.run]
  intro volume hvolume
  exact ⟨_, getPvc_created hcreated.keys (hcreated.claims volume hvolume)⟩

theorem ClaimsCreated.claimed (hcreated : ClaimsCreated lib pipeline s created)
    {volume : VolumeResource} (hvolume : volume ∈ s.run.spec.volumes) :
    claimedVolume created.store.pvcs created.run.ns volume =
      if volume.storage ≠ "" then some (fetchedVolume (claimFor lib pipeline s.run volume)
        volume.storage volume.lifecycle) else none := by
  rw [hcreated.run]
  exact claimedVolume_created hcreated.keys (hcreated.claims volume hvolume)

/-- The next pass meets no error exactly if every volume has a storage. -/
theorem ClaimsCreated.reads_iff (hcreated : ClaimsCreated lib pipeline s created)
    (hpipeline : pipeline.ns = s.run.ns)
    (hdeclared : ∀ volume ∈ s.run.spec.volumes, volume.scope ≠ .undeclared) :
    (ensureVolumeList lib pipeline created).2 = .ok () ↔
      ∀ volume ∈ s.run.spec.volumes, volume.storage ≠ "" := by
  have hrun := hcreated.run
  constructor
  · intro hok volume hvolume hempty
    obtain ⟨after, hafter⟩ := (ensureVolumeList_volumes hcreated.keys hcreated.found hok).1 volume
      (hrun ▸ hvolume)
    rw [hcreated.claimed hvolume, if_neg (not_not.mpr hempty)] at hafter
    cases hafter
  · intro hstorage
    refine ensureVolumeList_reads hcreated.keys ?_ (hrun ▸ hdeclared) (hrun ▸ hpipeline)
      (hrun ▸ hcreated.accepted)
    intro volume hmem
    have hvolume : volume ∈ s.run.spec.volumes := hrun ▸ hmem
    exact ⟨_, by rw [hcreated.claimed hvolume, if_pos (hstorage volume hvolume)]⟩

/-- Then it leaves the volumes as they were exactly if all had the default access
modes. -/
theorem ClaimsCreated.volumes_iff (hcreated : ClaimsCreated lib pipeline s created)
    (modes : List String)
    (hparse : ∀ volume ∈ s.run.spec.volumes,
      ∃ quantity, lib.parseQuantity volume.capacity = .ok quantity)
    (hstorage : ∀ volume ∈ s.run.spec.volumes, volume.storage ≠ "")
    (hok : (ensureVolumeList lib pipeline created).2 = .ok ()) :
    List.Forall₂ (SameVolume lib) s.run.spec.volumes
        (withDefaultModes modes (ensureVolumeList lib pipeline created).1.run).spec.volumes ↔
      ∀ volume ∈ s.run.spec.volumes, volume.accessModes = modes := by
  have hvolumes := (ensureVolumeList_volumes hcreated.keys hcreated.found hok).2
  have hlist : created.run.spec.volumes = s.run.spec.volumes := by rw [hcreated.run]
  rw [withDefaultModes, hvolumes, hlist, List.map_map, List.forall₂_map_right_iff,
    List.forall₂_same]
  refine forall₂_congr fun volume hvolume => ?_
  have hempty : (fetchedVolume (claimFor lib pipeline s.run volume) volume.storage
      volume.lifecycle).accessModes = [] := rfl
  rw [Function.comp_apply, hcreated.claimed hvolume, if_pos (hstorage volume hvolume),
    Option.getD_some, if_pos hempty]
  exact sameVolume_fetched_iff (hparse volume hvolume)

end Created

/-- **Which volumes survive.**  In a store without claims of their names, volumes
with different names, capacities that parse and declared lifecycles are created
and read back without an error, and come back as they were, exactly if each has
a storage and the access modes that are the default. -/
theorem roundTrips_iff (modes : List String) (hkeys : Keyed pvcKey s.store.pvcs)
    (hpipeline : pipeline.ns = s.run.ns)
    (hnames : Keyed VolumeResource.name s.run.spec.volumes)
    (hparse : ∀ volume ∈ s.run.spec.volumes,
      ∃ quantity, lib.parseQuantity volume.capacity = .ok quantity)
    (hdeclared : ∀ volume ∈ s.run.spec.volumes, volume.scope ≠ .undeclared)
    (hnone : ∀ volume ∈ s.run.spec.volumes, getPvc s.store.pvcs s.run.ns volume.name = none)
    (haccepted : 3 * s.run.spec.volumes.length ≤ s.accepted) :
    RoundTrips lib pipeline modes s ↔
      ∀ volume ∈ s.run.spec.volumes, volume.storage ≠ "" ∧ volume.accessModes = modes := by
  have hcreates := @ensureVolumeList_creates lib pipeline s hpipeline hnames hparse hdeclared hnone
    (by omega)
  have hcreated : ClaimsCreated lib pipeline s (ensureVolumeList lib pipeline s).1 :=
    { run := by rw [hcreates]
      keys := keyed_ensureVolumeList lib pipeline hkeys
      claims := by
        intro volume hvolume
        rw [hcreates]
        exact List.mem_append_right _ (List.mem_map_of_mem hvolume)
      accepted := by
        rw [hcreates]
        show 2 * s.run.spec.volumes.length ≤ s.accepted - s.run.spec.volumes.length
        omega }
  have hreads := hcreated.reads_iff hpipeline hdeclared
  constructor
  · intro htrips
    have hstorage := hreads.mp htrips.reads
    have hmodes := (hcreated.volumes_iff modes hparse hstorage htrips.reads).mp htrips.volumes
    exact fun volume hvolume => ⟨hstorage volume hvolume, hmodes volume hvolume⟩
  · intro hall
    have hstorage : ∀ volume ∈ s.run.spec.volumes, volume.storage ≠ "" :=
      fun volume hvolume => (hall volume hvolume).1
    have hok := hreads.mpr hstorage
    exact
      { creates := by rw [hcreates]
        reads := hok
        volumes := (hcreated.volumes_iff modes hparse hstorage hok).mpr
          fun volume hvolume => (hall volume hvolume).2 }

end RoundTrip

/-! ## Volumes that do not come back -/

/-- A pass over a run with one volume, in a store without claims. -/
def passOver (volume : VolumeResource) : VolumePass where
  run := { name := "train-1", ns := "team", spec.volumes := [volume] }
  store := {}
  accepted := 3

/-- The volume of the example has a storage and the default access modes. -/
def ordinaryVolume : VolumeResource where
  name := "data"
  capacity := "10Gi"
  storage := "standard"
  lifecycle := "run"
  accessModes := ["ReadWriteOnce"]

theorem roundTrips_iff_ordinary :
    RoundTrips Externals.plain { name := "train", ns := "team" } ["ReadWriteOnce"]
        (passOver ordinaryVolume) ↔
      ∀ volume ∈ (passOver ordinaryVolume).run.spec.volumes,
        volume.storage ≠ "" ∧ volume.accessModes = ["ReadWriteOnce"] :=
  roundTrips_iff _ List.nodup_nil rfl (by decide) (fun _ _ => ⟨_, rfl⟩) (by decide) (by decide)
    (by decide)

/-- A volume without a storage ends the second pass, and one with other access
modes loses them. -/
theorem volumes_lost :
    ¬ (∀ volume : VolumeResource, volume.scope ≠ .undeclared →
      RoundTrips Externals.plain { name := "train", ns := "team" } ["ReadWriteOnce"]
        (passOver volume)) ∧
    (ensureVolumeList Externals.plain { name := "train", ns := "team" }
      (ensureVolumeList Externals.plain { name := "train", ns := "team" }
        (passOver { ordinaryVolume with storage := "" })).1).2 =
          .error "runtime error: invalid memory address or nil pointer dereference" ∧
    ¬ RoundTrips Externals.plain { name := "train", ns := "team" } ["ReadWriteOnce"]
        (passOver { ordinaryVolume with accessModes := ["ReadWriteMany"] }) := by
  have hend : (ensureVolumeList Externals.plain { name := "train", ns := "team" }
      (ensureVolumeList Externals.plain { name := "train", ns := "team" }
        (passOver { ordinaryVolume with storage := "" })).1).2 =
          .error "runtime error: invalid memory address or nil pointer dereference" := by
    decide +kernel
  refine ⟨?_, hend, ?_⟩
  · intro hall
    have hreads := (hall { ordinaryVolume with storage := "" } (by decide)).reads
    rw [hend] at hreads
    cases hreads
  · intro htrips
    have hmodes := htrips.volumes
    cases hmodes with
    | cons hsame _ => exact absurd hsame.accessModes (by decide +kernel)

end PipelineOperator.Controller
