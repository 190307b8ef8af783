import PipelineOperator.Api.SubPaths

/-!
# The paths of a mount

The name of a volume spec is cut at its slashes, and what comes after the
volume name is trimmed at both ends several times on its way into the path
where the volume is mounted and into the path inside the volume.  A trim takes
one slash, so a name with a few slashes too many is put right and one with more
of them is not; and two names that differ in these slashes only are mounted in
one place.

## Main results

* `parseVolumeMount_mountPath`, `parseVolumeMount_subPath`: both paths in terms
  of the name, the prefix and the override.
* `wellFormed_iff`: for which slashes in the three the paths are well formed.
* `mountPaths_nodup_iff`: for which names no two volumes are mounted in one
  place.
-/

namespace PipelineOperator.Api

open PipelineOperator.Lib
open PipelineOperator.Go

/-! ## The parts of a name -/

/-- The name without a slash that it starts with. -/
def nameChars (name : String) : List Char := trimHead '/' name.toList

/-- The name of the volume: what stands before the next slash. -/
def volumePart (name : String) : List Char := (nameChars name).takeWhile fun c => c ≠ '/'

/-- What follows it, from this slash on. -/
def pathPart (name : String) : List Char := (nameChars name).dropWhile fun c => c ≠ '/'

/-- What is left of that as `subPath`: the slash that the name is cut at is gone,
another one from the start, and two from the end. -/
def subPathPart (name : String) : List Char :=
  trimLast '/' (trimHead '/' (trimHead '/' (trimLast '/' (pathPart name))))

theorem nameChars_eq (name : String) : nameChars name = volumePart name ++ pathPart name :=
  List.takeWhile_append_dropWhile.symm

theorem slash_notMem_volumePart (name : String) : '/' ∉ volumePart name := by
  intro hslash
  have hne := List.mem_takeWhile_imp hslash
  simp at hne

/-- The rest is empty or starts with the slash. -/
theorem pathPart_cases (name : String) :
    pathPart name = [] ∨ ∃ rest, pathPart name = '/' :: rest := by
  cases hpath : pathPart name with
  | nil => exact Or.inl rfl
  | cons c rest =>
      have hhead := List.head?_dropWhile_not (fun c => decide (c ≠ '/')) (nameChars name)
      rw [show (nameChars name).dropWhile (fun c => decide (c ≠ '/')) = c :: rest
        from hpath] at hhead
      have hc : c = '/' := by simpa using hhead
      exact Or.inr ⟨rest, by rw [hc]⟩

/-- A list without a slash is not trimmed. -/
theorem trims_of_notMem {cs : List Char} (hslash : '/' ∉ cs) :
    trimHead '/' cs = cs ∧ trimLast '/' cs = cs :=
  ⟨trimHead_of_head_ne fun h => hslash (List.mem_of_mem_head? h),
    trimLast_of_last_ne fun h => hslash (List.mem_of_mem_getLast? h)⟩

/-- The words of a text that starts without a slash: the text up to the slash,
and the words after it. -/
theorem splitChars_front {cs ds : List Char} (hslash : '/' ∉ cs)
    (hds : ds = [] ∨ ∃ rest, ds = '/' :: rest) :
    ∃ words, splitChars '/' (cs ++ ds) = cs :: words ∧
      (if 1 < (cs :: words).length then join (words.map String.ofList) "/" else "").toList =
        trimHead '/' ds := by
  rcases hds with rfl | ⟨rest, rfl⟩
  · refine ⟨[], ?_, rfl⟩
    rw [List.append_nil]
    exact splitChars_of_notMem hslash
  · refine ⟨splitChars '/' rest, splitChars_append_sep hslash rest, ?_⟩
    have hmore : 1 < (cs :: splitChars '/' rest).length := by
      rw [List.length_cons, splitChars_eq_splitOn]
      have hpos := List.length_pos_of_ne_nil (List.splitOn_ne_nil '/' rest)
      omega
    rw [if_pos hmore, toList_join_splitChars, trimHead_cons_self]

/-- What `splitVolumeCorpus` makes of a name that it accepts. -/
theorem splitVolumeCorpus_parts {name : String} {volumeCorpus : List String}
    (hsplit : splitVolumeCorpus name = .ok volumeCorpus) :
    volumePart name ≠ [] ∧ volumeCorpus.headD "" = String.ofList (volumePart name) ∧
      (if 1 < volumeCorpus.length then join volumeCorpus.tail "/" else "").toList =
        trimHead '/' (trimLast '/' (pathPart name)) := by
  have htrimmed : (trimSuffix (trimPrefix name "/") "/").toList =
      volumePart name ++ trimLast '/' (pathPart name) := by
    rw [toList_trimSuffix_slash, toList_trimPrefix_slash, ← nameChars, nameChars_eq]
    rcases pathPart_cases name with hpath | ⟨rest, hpath⟩
    · rw [hpath, List.append_nil, trimLast_nil, List.append_nil]
      exact (trims_of_notMem (slash_notMem_volumePart name)).2
    · rw [hpath]
      exact trimLast_append _ (List.cons_ne_nil _ _)
  have hrest : trimLast '/' (pathPart name) = [] ∨
      ∃ rest, trimLast '/' (pathPart name) = '/' :: rest := by
    rcases pathPart_cases name with hpath | ⟨rest, hpath⟩
    · exact Or.inl (by rw [hpath, trimLast_nil])
    · cases rest with
      | nil => exact Or.inl (by rw [hpath]; rfl)
      | cons c cs =>
          exact Or.inr ⟨_, by rw [hpath]; exact trimLast_cons '/' (List.cons_ne_nil c cs)⟩
  obtain ⟨words, hwords, hsub⟩ := splitChars_front (slash_notMem_volumePart name) hrest
  have hparts : split (trimSuffix (trimPrefix name "/") "/") '/' =
      String.ofList (volumePart name) :: words.map String.ofList := by
    rw [split, htrimmed, hwords, List.map_cons]
  unfold splitVolumeCorpus at hsplit
  simp only [hparts] at hsplit
  split at hsplit
  · cases hsplit
  · next hname =>
      cases hsplit
      refine ⟨?_, rfl, ?_⟩
      · intro hempty
        exact hname (by rw [hempty])
      · rw [← hsub]
        simp

/-! ## The two paths -/

/-- What a sub path adds to a directory: nothing, or a slash and the sub path
without a slash at its end. -/
def afterSlash (subPath : List Char) : List Char :=
  if subPath = [] then [] else '/' :: trimLast '/' subPath

/-- The prefix without the slash that it is made to start with. -/
def prefixPart (e : IOVolumeSpec) : List Char :=
  trimHead '/' (if e.mountPrefix ≠ "" then e.mountPrefix else mountPathDefaultPrefix).toList

/-- What follows the prefix and a slash. -/
def placePart (e : IOVolumeSpec) : List Char :=
  if e.mountPathOverride ≠ "" then trimLast '/' (trimHead '/' e.mountPathOverride.toList)
  else volumePart e.name ++ afterSlash (subPathPart e.name)

/-- The directory of the run and the sub path in it, or the sub path alone. -/
def insidePart (run : Run) (e : IOVolumeSpec) : List Char :=
  if e.useIntermediateDirectory then run.name.toList ++ afterSlash (subPathPart e.name)
  else trimLast '/' (trimHead '/' (subPathPart e.name))

/-- A directory with a sub path after a slash, trimmed at both ends. -/
theorem trims_directory {dir : List Char} (hne : dir ≠ []) (hslash : '/' ∉ dir)
    (subPath : List Char) :
    trimLast '/' (trimHead '/' (dir ++ '/' :: subPath)) = dir ++ afterSlash subPath := by
  have hhead : (dir ++ '/' :: subPath).head? ≠ some '/' := by
    rw [List.head?_append_of_ne_nil _ hne]
    exact fun h => hslash (List.mem_of_mem_head? h)
  rw [trimHead_of_head_ne hhead, trimLast_append _ (List.cons_ne_nil _ _), afterSlash]
  by_cases hsub : subPath = []
  · rw [if_pos hsub, hsub]
    rfl
  · rw [if_neg hsub, trimLast_cons _ hsub]

section Paths

variable {run : Run} {readOnly : Bool} {e : IOVolumeSpec} {mount : VolumeMount}

theorem volumePart_ne_nil (hparse : parseVolumeMount run readOnly e = .ok mount) :
    volumePart e.name ≠ [] := by
  obtain ⟨mountCorpus, hcorpus, -⟩ := bind_ok hparse
  exact (splitVolumeCorpus_parts hcorpus).1

/-- The path where the volume is mounted. -/
theorem parseVolumeMount_mountPath (hparse : parseVolumeMount run readOnly e = .ok mount) :
    mount.mountPath.toList = '/' :: (prefixPart e ++ '/' :: placePart e) := by
  obtain ⟨mountCorpus, hcorpus, hparse⟩ := bind_ok hparse
  cases hparse
  obtain ⟨hvolume, hname, hsub⟩ := splitVolumeCorpus_parts hcorpus
  have hfront : ∀ mountPathPrefix : String,
      (if hasPrefix mountPathPrefix "/" then mountPathPrefix
        else "/" ++ mountPathPrefix).toList = '/' :: trimHead '/' mountPathPrefix.toList := by
    intro mountPathPrefix
    by_cases hslash : hasPrefix mountPathPrefix "/" = true
    · rw [if_pos hslash]
      obtain ⟨rest, hrest⟩ := List.head?_eq_some_iff.mp ((hasPrefix_slash _).mp hslash)
      rw [hrest, trimHead_cons_self]
    · rw [if_neg hslash, trimHead_of_head_ne (mt (hasPrefix_slash _).mpr hslash)]
      simp
  have hplace : (trimSuffix (trimPrefix (if e.mountPathOverride ≠ "" then e.mountPathOverride
      else mountCorpus.headD "" ++ "/" ++ trimSuffix (trimPrefix
        (if 1 < mountCorpus.length then join mountCorpus.tail "/" else "") "/") "/") "/")
          "/").toList = placePart e := by
    rw [toList_trimSuffix_slash, toList_trimPrefix_slash, placePart]
    by_cases hoverride : e.mountPathOverride ≠ ""
    · rw [if_pos hoverride, if_pos hoverride]
    · rw [if_neg hoverride, if_neg hoverride, String.toList_append, String.toList_append, hname,
        toList_trimSuffix_slash, toList_trimPrefix_slash, hsub, ← subPathPart,
        String.toList_ofList, List.append_assoc]
      exact trims_directory hvolume (slash_notMem_volumePart e.name) _
  rw [String.toList_append, String.toList_append, hplace, hfront, prefixPart]
  simp

/-- The path inside the volume. -/
theorem parseVolumeMount_subPath (hname : run.name ≠ "") (hslash : '/' ∉ run.name.toList)
    (hparse : parseVolumeMount run readOnly e = .ok mount) :
    mount.subPath.toList = insidePart run e := by
  obtain ⟨mountCorpus, hcorpus, hparse⟩ := bind_ok hparse
  cases hparse
  have hsub := (splitVolumeCorpus_parts hcorpus).2.2
  have hdir : run.name.toList ≠ [] := fun h => hname (String.toList_eq_nil_iff.mp h)
  simp only
  rw [toList_trimSuffix_slash, toList_trimPrefix_slash, insidePart]
  split
  · rw [String.toList_append, String.toList_append, toList_trimSuffix_slash,
      toList_trimPrefix_slash, hsub, ← subPathPart, List.append_assoc]
    exact trims_directory hdir hslash _
  · rw [toList_trimSuffix_slash, toList_trimPrefix_slash, hsub, ← subPathPart]

end Paths

/-! ## What the trims leave -/

/-- What follows a directory, of a path that is padded with slashes. -/
def leftOf (p : Padding Char) : Padding Char :=
  if p.core = [] then { p with before := p.before - 4 }
  else { p with before := p.before - 2 + 1, after := p.after - 3 }

/-- How the path of a name is padded. -/
def pathPadding (name : String) : Padding Char := Padding.of '/' (pathPart name)

theorem pathPadding_tight (name : String) : (pathPadding name).Tight '/' := Padding.tight_of _

theorem pathPart_eq_pad (name : String) : pathPart name = (pathPadding name).pad '/' :=
  (Padding.pad_of _).symm

/-- Four trims of slashes alone. -/
theorem subPathPart_of_core_nil {name : String} (hcore : (pathPadding name).core = []) :
    subPathPart name = List.replicate ((pathPadding name).before - 4) '/' := by
  rw [subPathPart, pathPart_eq_pad, Padding.pad_separators (pathPadding_tight name) hcore,
    trimLast_replicate, trimHead_replicate, trimHead_replicate, trimLast_replicate]
  rfl

/-- Four trims of a path with something between the slashes. -/
theorem subPathPart_of_core {name : String} (hcore : (pathPadding name).core ≠ []) :
    subPathPart name = ({ pathPadding name with
      before := (pathPadding name).before - 2
      after := (pathPadding name).after - 2 } : Padding Char).pad '/' := by
  have htight := pathPadding_tight name
  rw [subPathPart, pathPart_eq_pad, Padding.trimLast_pad htight hcore,
    Padding.trimHead_pad (htight.fewer _ (Nat.sub_le _ _)),
    Padding.trimHead_pad (htight.fewer _ (Nat.sub_le _ _)),
    Padding.trimLast_pad (htight.fewer _ (Nat.sub_le _ _)) hcore]
  rfl

theorem afterSlash_subPathPart (name : String) :
    afterSlash (subPathPart name) = (leftOf (pathPadding name)).pad '/' := by
  have htight := pathPadding_tight name
  by_cases hcore : (pathPadding name).core = []
  · rw [leftOf, if_pos hcore, subPathPart_of_core_nil hcore, Padding.pad_separators htight hcore]
    cases hn : (pathPadding name).before - 4 with
    | zero => rfl
    | succ n =>
        rw [afterSlash, if_neg (by simp), trimLast_replicate, Nat.add_sub_cancel,
          List.replicate_succ]
  · have hne : subPathPart name ≠ [] := by
      rw [subPathPart_of_core hcore, Padding.pad]
      simp [hcore]
    rw [afterSlash, if_neg hne, subPathPart_of_core hcore,
      Padding.trimLast_pad (htight.fewer _ (Nat.sub_le _ _)) hcore, leftOf, if_neg hcore]
    exact (Padding.pad_succ { pathPadding name with after := (pathPadding name).after - 3 } _).symm

/-- The path inside a volume without a directory of the run. -/
theorem trims_subPathPart (name : String) :
    trimLast '/' (trimHead '/' (subPathPart name)) =
      if (pathPadding name).core = [] then List.replicate ((pathPadding name).before - 6) '/'
      else ({ pathPadding name with
        before := (pathPadding name).before - 3
        after := (pathPadding name).after - 3 } : Padding Char).pad '/' := by
  have htight := pathPadding_tight name
  by_cases hcore : (pathPadding name).core = []
  · rw [if_pos hcore, subPathPart_of_core_nil hcore, trimHead_replicate, trimLast_replicate]
    rfl
  · rw [if_neg hcore, subPathPart_of_core hcore,
      Padding.trimHead_pad (htight.fewer _ (Nat.sub_le _ _)),
      Padding.trimLast_pad (htight.fewer _ (Nat.sub_le _ _)) hcore]
    rfl

/-! ## Well-formed paths -/

/-- The mount path starts with a slash, and no segment after it is empty, so
that it does not end in a slash either; the sub path names the whole volume, or
has no empty segment, so that no slash starts or ends it. -/
structure WellFormed (mount : VolumeMount) : Prop where
  start : hasPrefix mount.mountPath "/" = true
  mountPath : "" ∉ (split mount.mountPath '/').tail
  subPath : mount.subPath = "" ∨ "" ∉ split mount.subPath '/'

/-- A path after the volume name has no more slashes than are trimmed: `only` of
them if there is nothing else, and else `lead` at its start and three at its
end, with single ones in between. -/
def PathFits (lead only : Nat) (path : List Char) : Prop :=
  if (Padding.of '/' path).core = [] then (Padding.of '/' path).before ≤ only
  else (Padding.of '/' path).before ≤ lead ∧ (Padding.of '/' path).after ≤ 3 ∧
    Solid '/' (Padding.of '/' path).core

instance (lead only : Nat) (path : List Char) : Decidable (PathFits lead only path) := by
  unfold PathFits
  infer_instance

/-- The slashes of a spec that the trims put right: a prefix with one at its
start, an override with one at its start and one at its end, and a name with a
few around its path.  A path inside the volume alone may have more of them than
one that follows a directory. -/
structure SlashesFit (e : IOVolumeSpec) : Prop where
  mountPrefix : e.mountPrefix = "" ∨ Solid '/' (trimHead '/' e.mountPrefix.toList)
  override : e.mountPathOverride = "" ∨
    Solid '/' (trimLast '/' (trimHead '/' e.mountPathOverride.toList))
  name : if e.mountPathOverride = "" ∨ e.useIntermediateDirectory = true then
    PathFits 2 4 (pathPart e.name) else PathFits 3 6 (pathPart e.name)

section WellFormed

variable {run : Run} {job : Job} {e : IOVolumeSpec} {mount : VolumeMount}

/-- The segments after the slash at the start. -/
theorem empty_notMem_split_tail {path : String} {rest : List Char}
    (hpath : path.toList = '/' :: rest) : "" ∉ (split path '/').tail ↔ Solid '/' rest := by
  have htail : (split path '/').tail = split (String.ofList rest) '/' := by
    rw [split, split, hpath, splitChars, if_pos rfl, List.map_cons, List.tail_cons,
      String.toList_ofList]
  rw [htail, empty_notMem_split, String.toList_ofList]

/-- A directory with a path after it. -/
theorem solid_directory_iff {dir : List Char} (hdir : Solid '/' dir) (name : String) :
    Solid '/' (dir ++ afterSlash (subPathPart name)) ↔ PathFits 2 4 (pathPart name) := by
  have htight := pathPadding_tight name
  rw [afterSlash_subPathPart, PathFits, ← pathPadding, leftOf]
  by_cases hcore : (pathPadding name).core = []
  · rw [if_pos hcore, if_pos hcore, Padding.pad_separators htight hcore]
    cases hn : (pathPadding name).before - 4 with
    | zero =>
        rw [List.replicate_zero, List.append_nil]
        exact iff_of_true hdir (by omega)
    | succ n =>
        rw [List.replicate_succ, solid_append_cons]
        exact iff_of_false (fun h => not_solid_replicate n h.2) (by omega)
  · rw [if_neg hcore, if_neg hcore]
    have hpad := @Padding.pad_succ _ '/' { pathPadding name with
      after := (pathPadding name).after - 3 } ((pathPadding name).before - 2)
    simp only at hpad
    rw [hpad, solid_append_cons, Padding.solid_pad]
    simp only [hdir, true_and]
    refine and_congr (by omega) (and_congr (by omega) Iff.rfl)

/-- A path inside a volume alone. -/
theorem solid_inside_iff (name : String) :
    (trimLast '/' (trimHead '/' (subPathPart name)) = [] ∨
        Solid '/' (trimLast '/' (trimHead '/' (subPathPart name)))) ↔
      PathFits 3 6 (pathPart name) := by
  rw [trims_subPathPart, PathFits, ← pathPadding]
  by_cases hcore : (pathPadding name).core = []
  · rw [if_pos hcore, if_pos hcore, or_iff_left (not_solid_replicate _),
      List.replicate_eq_nil_iff]
    omega
  · have hne : ({ pathPadding name with
        before := (pathPadding name).before - 3
        after := (pathPadding name).after - 3 } : Padding Char).pad '/' ≠ [] := by
      simp [Padding.pad, hcore]
    rw [if_neg hcore, if_neg hcore, or_iff_right hne, Padding.solid_pad]
    simp only
    refine and_congr (by omega) (and_congr (by omega) Iff.rfl)

/-- What follows a directory well is well formed alone. -/
theorem PathFits.mono {path : List Char} (hfits : PathFits 2 4 path) : PathFits 3 6 path := by
  unfold PathFits at *
  split at hfits
  · next hcore =>
      rw [if_pos hcore]
      omega
  · next hcore =>
      rw [if_neg hcore]
      exact ⟨by omega, hfits.2⟩

theorem solid_prefixPart_iff (e : IOVolumeSpec) :
    Solid '/' (prefixPart e) ↔
      (e.mountPrefix = "" ∨ Solid '/' (trimHead '/' e.mountPrefix.toList)) := by
  have hdefault : Solid '/' (trimHead '/' mountPathDefaultPrefix.toList) := by decide +kernel
  rw [prefixPart]
  by_cases hfront : e.mountPrefix = ""
  · rw [if_neg (not_not.mpr hfront)]
    exact iff_of_true hdefault (Or.inl hfront)
  · rw [if_pos hfront, or_iff_right hfront]

theorem solid_placePart_iff (e : IOVolumeSpec) (hvolume : volumePart e.name ≠ []) :
    Solid '/' (placePart e) ↔
      (e.mountPathOverride = "" ∧ PathFits 2 4 (pathPart e.name)) ∨
        (e.mountPathOverride ≠ "" ∧
          Solid '/' (trimLast '/' (trimHead '/' e.mountPathOverride.toList))) := by
  rw [placePart]
  by_cases hoverride : e.mountPathOverride = ""
  · rw [if_neg (not_not.mpr hoverride),
      solid_directory_iff (solid_of_notMem hvolume (slash_notMem_volumePart e.name))]
    simp [hoverride]
  · rw [if_pos hoverride]
    simp [hoverride]

theorem insidePart_iff (hname : run.name ≠ "") (hslash : '/' ∉ run.name.toList)
    (e : IOVolumeSpec) :
    (insidePart run e = [] ∨ Solid '/' (insidePart run e)) ↔
      if e.useIntermediateDirectory then PathFits 2 4 (pathPart e.name)
      else PathFits 3 6 (pathPart e.name) := by
  have hdir : run.name.toList ≠ [] := fun h => hname (String.toList_eq_nil_iff.mp h)
  rw [insidePart]
  split
  · have hne : run.name.toList ++ afterSlash (subPathPart e.name) ≠ [] :=
      List.append_ne_nil_of_left_ne_nil hdir _
    rw [or_iff_right hne, solid_directory_iff (solid_of_notMem hdir hslash)]
  · exact solid_inside_iff e.name

/-- The slashes fit if they do for the directory of the mount, for what follows
it, and inside the volume. -/
theorem slashesFit_iff (e : IOVolumeSpec) :
    SlashesFit e ↔
      ((e.mountPrefix = "" ∨ Solid '/' (trimHead '/' e.mountPrefix.toList)) ∧
        ((e.mountPathOverride = "" ∧ PathFits 2 4 (pathPart e.name)) ∨
          (e.mountPathOverride ≠ "" ∧
            Solid '/' (trimLast '/' (trimHead '/' e.mountPathOverride.toList))))) ∧
      (if e.useIntermediateDirectory then PathFits 2 4 (pathPart e.name)
        else PathFits 3 6 (pathPart e.name)) := by
  constructor
  · intro hfit
    have hname := hfit.name
    refine ⟨⟨hfit.mountPrefix, ?_⟩, ?_⟩
    · by_cases hoverride : e.mountPathOverride = ""
      · rw [if_pos (Or.inl hoverride)] at hname
        exact Or.inl ⟨hoverride, hname⟩
      · exact Or.inr ⟨hoverride, hfit.override.resolve_left hoverride⟩
    · by_cases huse : e.useIntermediateDirectory = true
      · rw [if_pos huse]
        rwa [if_pos (Or.inr huse)] at hname
      · rw [if_neg huse]
        split at hname
        · exact hname.mono
        · exact hname
  · rintro ⟨⟨hfront, hplace⟩, hinside⟩
    refine
      { mountPrefix := hfront
        override := ?_
        name := ?_ }
    · rcases hplace with ⟨hnone, -⟩ | ⟨-, hsolid⟩
      · exact Or.inl hnone
      · exact Or.inr hsolid
    · rcases hplace with ⟨hnone, hpath⟩ | ⟨hsome, -⟩
      · rw [if_pos (Or.inl hnone)]
        exact hpath
      · simpa only [hsome, false_or] using hinside

/-- **When the paths of a mount are well formed.**  For a run with a name that
has no slash, the paths of the mount of a spec are well formed exactly if the
trims put the slashes of its name, prefix and override right. -/
theorem wellFormed_iff (hname : run.name ≠ "") (hslash : '/' ∉ run.name.toList)
    (hmount : MountOf run job e mount) : WellFormed mount ↔ SlashesFit e := by
  obtain ⟨readOnly, hparse⟩ := hmount.mountFrom
  have hmountPath := parseVolumeMount_mountPath hparse
  have hsubPath := parseVolumeMount_subPath hname hslash hparse
  have hstart : hasPrefix mount.mountPath "/" = true :=
    (hasPrefix_slash _).mpr (by rw [hmountPath]; rfl)
  have hparts : WellFormed mount ↔
      "" ∉ (split mount.mountPath '/').tail ∧
        (mount.subPath = "" ∨ "" ∉ split mount.subPath '/') :=
    ⟨fun hwell => ⟨hwell.mountPath, hwell.subPath⟩,
      fun h => { start := hstart, mountPath := h.1, subPath := h.2 }⟩
  have hempty : mount.subPath = "" ↔ insidePart run e = [] := by
    rw [← hsubPath, String.toList_eq_nil_iff]
  rw [hparts, slashesFit_iff, empty_notMem_split_tail hmountPath, solid_append_cons,
    solid_prefixPart_iff, solid_placePart_iff e (volumePart_ne_nil hparse), empty_notMem_split,
    hempty, hsubPath, insidePart_iff hname hslash]

end WellFormed

theorem wellFormed_iff_slashed : WellFormed slashedMount ↔ SlashesFit slashedSpec :=
  @wellFormed_iff tuesdayRun {} slashedSpec slashedMount (by decide) (by decide) slashed_mountOf

/-- Three slashes after the volume name leave two of them in both paths. -/
theorem slashed_malformed :
    ¬ ∀ (run : Run) (job : Job) (e : IOVolumeSpec) (mount : VolumeMount), run.name ≠ "" →
      '/' ∉ run.name.toList → MountOf run job e mount → WellFormed mount := by
  intro hall
  have hwell := hall tuesdayRun {} slashedSpec slashedMount (by decide) (by decide)
    slashed_mountOf
  exact absurd hwell.mountPath (by decide +kernel)

/-! ## One place for one volume -/

/-- The names have the same volume, and of the paths after it the trims leave the
same. -/
def SamePlace (name name' : String) : Prop :=
  volumePart name = volumePart name' ∧ leftOf (pathPadding name) = leftOf (pathPadding name')

instance (name name' : String) : Decidable (SamePlace name name') := by
  unfold SamePlace
  infer_instance

theorem leftOf_tight (name : String) : (leftOf (pathPadding name)).Tight '/' := by
  have htight := pathPadding_tight name
  unfold leftOf
  split
  · exact htight.fewer _ (Nat.le_refl _)
  · exact htight.fewer _ (Nat.sub_le _ _)

/-- Parts before the first slash and from it on are told apart. -/
theorem front_inj {cs cs' ds ds' : List Char} (hcs : '/' ∉ cs) (hcs' : '/' ∉ cs')
    (hds : ds.head? = none ∨ ds.head? = some '/') (hds' : ds'.head? = none ∨ ds'.head? = some '/') :
    cs ++ ds = cs' ++ ds' ↔ cs = cs' ∧ ds = ds' := by
  have htake : ∀ {cs ds : List Char}, '/' ∉ cs → (ds.head? = none ∨ ds.head? = some '/') →
      (cs ++ ds).takeWhile (fun c => c ≠ '/') = cs := by
    intro cs ds hcs hds
    have hall : ∀ c ∈ cs, decide (c ≠ '/') = true :=
      fun c hc => decide_eq_true fun h => hcs (h ▸ hc)
    rw [List.takeWhile_append_of_pos hall]
    cases ds with
    | nil => simp
    | cons d ds =>
        have hd : d = '/' := by simpa using hds
        rw [hd]
        simp
  constructor
  · intro hsame
    have hfront : cs = cs' := by rw [← htake hcs hds, hsame, htake hcs' hds']
    subst hfront
    exact ⟨rfl, List.append_cancel_left hsame⟩
  · rintro ⟨rfl, rfl⟩
    rfl

theorem afterSlash_head (subPath : List Char) :
    (afterSlash subPath).head? = none ∨ (afterSlash subPath).head? = some '/' := by
  unfold afterSlash
  split
  · exact Or.inl rfl
  · exact Or.inr rfl

section OnePlace

variable {run : Run} {job : Job} {mounts : List VolumeMount}

/-- Without an override the place follows from the name alone. -/
theorem placePart_eq_iff {e e' : IOVolumeSpec} (hnone : e.mountPathOverride = "")
    (hnone' : e'.mountPathOverride = "") :
    placePart e = placePart e' ↔ SamePlace e.name e'.name := by
  rw [placePart, placePart, if_neg (not_not.mpr hnone), if_neg (not_not.mpr hnone'),
    front_inj (slash_notMem_volumePart _) (slash_notMem_volumePart _) (afterSlash_head _)
      (afterSlash_head _), afterSlash_subPathPart, afterSlash_subPathPart,
    Padding.pad_inj (leftOf_tight _) (leftOf_tight _), SamePlace]

/-- The default prefix, given or left out. -/
theorem prefixPart_of_default {e : IOVolumeSpec}
    (hdefault : e.mountPrefix = "" ∨ e.mountPrefix = mountPathDefaultPrefix) :
    prefixPart e = trimHead '/' mountPathDefaultPrefix.toList := by
  rw [prefixPart]
  rcases hdefault with hnone | hsome
  · rw [if_neg (not_not.mpr hnone)]
  · rw [hsome]
    rfl

/-- Such specs are mounted under the default prefix at their places. -/
theorem mountPaths_eq (hmounts : parseVolumeMountList run job = .ok mounts)
    (hdefault : ∀ e ∈ ioVolumeSpecs run job,
      e.mountPrefix = "" ∨ e.mountPrefix = mountPathDefaultPrefix) :
    mounts.map VolumeMount.mountPath = (ioVolumeSpecs run job).map fun e =>
      String.ofList
        ('/' :: (trimHead '/' mountPathDefaultPrefix.toList ++ '/' :: placePart e)) := by
  have hfrom := parseVolumeMountList_mountFrom hmounts
  clear hmounts
  generalize ioVolumeSpecs run job = specs at hfrom hdefault
  induction hfrom with
  | nil => rfl
  | @cons e mount specs mounts hmount hrest ih =>
      obtain ⟨readOnly, hparse⟩ := hmount
      have hpath := parseVolumeMount_mountPath hparse
      rw [prefixPart_of_default (hdefault e List.mem_cons_self)] at hpath
      rw [List.map_cons, List.map_cons, ← hpath, String.ofList_toList,
        ih fun e' he' => hdefault e' (List.mem_cons_of_mem _ he')]

/-- **When no two mounts share a path.**  The mounts of specs without override
and with the default prefix have different paths exactly if no two of the specs
name the same place. -/
theorem mountPaths_nodup_iff (hmounts : parseVolumeMountList run job = .ok mounts)
    (hnone : ∀ e ∈ ioVolumeSpecs run job, e.mountPathOverride = "")
    (hdefault : ∀ e ∈ ioVolumeSpecs run job,
      e.mountPrefix = "" ∨ e.mountPrefix = mountPathDefaultPrefix) :
    (mounts.map VolumeMount.mountPath).Nodup ↔
      (ioVolumeSpecs run job).Pairwise fun e e' => ¬ SamePlace e.name e'.name := by
  rw [mountPaths_eq hmounts hdefault, List.Nodup, List.pairwise_map]
  refine List.Pairwise.iff_of_mem ?_
  intro e e' he he'
  rw [← placePart_eq_iff (hnone e he) (hnone e' he'), not_iff_not, String.ofList_inj]
  simp

end OnePlace

/-- A run with an input that its job has as well, as an output. -/
def sharedRun : Run where
  name := "train-1"
  spec.inputs := [{ name := "data" }]

def sharedJob : Job where
  name := "fit"
  outputs := [{ name := "data/clean" }]

theorem mountPaths_nodup_shared :
    (([{ name := "data", mountPath := "/data/pipeline/data", subPath := "", readOnly := true },
        { name := "data", mountPath := "/data/pipeline/data/clean", subPath := "clean" }] :
          List VolumeMount).map VolumeMount.mountPath).Nodup ↔
      (ioVolumeSpecs sharedRun sharedJob).Pairwise fun e e' => ¬ SamePlace e.name e'.name :=
  mountPaths_nodup_iff rfl (by decide) (by decide)

/-- A volume that the run and its job both name is claimed once, and mounted
twice in one place. -/
theorem shared_collides :
    ¬ ∀ (run : Run) (job : Job) (mounts : List VolumeMount),
      parseVolumeMountList run job = .ok mounts →
      (∀ e ∈ ioVolumeSpecs run job, e.mountPathOverride = "") →
      (∀ e ∈ ioVolumeSpecs run job,
        e.mountPrefix = "" ∨ e.mountPrefix = mountPathDefaultPrefix) →
      (mounts.map VolumeMount.mountPath).Nodup := by
  intro hall
  have hnodup := hall sharedRun { name := "fit", outputs := [{ name := "data" }] }
    [ { name := "data", mountPath := "/data/pipeline/data", subPath := "", readOnly := true }
    , { name := "data", mountPath := "/data/pipeline/data", subPath := "" } ]
    rfl (by decide) (by decide)
  exact absurd hnodup (by decide)

end PipelineOperator.Api
