import MarkedEdits.PatchSet.Validation
import MarkedEdits.Proofs.Batch.Entries
import MarkedEdits.Proofs.PatchSet.RoundTrip

/-!
# One patch for every file

A run takes the names of the files of a set one after the other, as they are spelled. It reports a
write exactly where it has changed a file (`PatchSet.wasWritten_iff_reached`). A file that only one
name leads to is written at most once, and when the run succeeds the file holds the result of one
patch with all the edits that are meant for it (`PatchSet.apply_together`). Where several
names lead to one file, each takes back what the names before it have done there. If the file was
unmarked, only the edits of the last name stay (`PatchSet.last_name_stays`).
-/

namespace MarkedEdits

namespace PatchSet

variable {set : PatchSet} {checkout : Checkout} {version : Option Text} {path : Path} {name : Text}

/-- The file at the path held a text, and now holds the result of one patch of that text with the
edits of all the patches whose names lead to the file. -/
def Together (set : PatchSet) (checkout last : Checkout) (path : Path) : Prop :=
  ∃ editor edits first mode outcome, set.editor? = .ok editor ∧
    (set.patches.filter fun patch ↦ checkout.target? patch.file = some path).mapM Patch.edit? =
      .ok edits ∧
    checkout.fs.Holds path first mode ∧ editor.patch first edits = .ok outcome ∧
    last.fs.Holds path (outcome.applied first) mode

/-- A run reports that it has written to a file exactly when the step on that file has changed the
target. -/
theorem wasWritten_iff_reached {i : Nat} {file : Text} {result : Except TargetError FileResult}
    (h : (set.apply checkout version false).1[i]? = some (file, result)) :
    wasWritten result = true ↔ ∃ target, checkout.target? file = some target ∧
      (set.reached checkout version false (i + 1)).fs.lookup target ≠
        (set.reached checkout version false i).fs.lookup target := by
  rw [apply_eq_visit, Batch.getElem?_visit] at h
  obtain ⟨entry, hentry, hstep⟩ := Option.map_eq_some_iff.mp h
  obtain ⟨rfl, rfl⟩ := Prod.mk.inj hstep
  have halike : (set.reached checkout version false i).Alike checkout :=
    Batch.alike_visit_apply version checkout _
  have hnext : set.reached checkout version false (i + 1) =
      (entry.apply version false (set.reached checkout version false i)).2 :=
    Batch.visit_take_succ _ checkout hentry
  rw [hnext, ← halike.target?_eq]
  exact entry.wasWritten_apply_iff version _

/-- A file is written at most once for each name that leads to it. -/
theorem writesTo_le (set : PatchSet) (checkout : Checkout) (version : Option Text) (path : Path) :
    writesTo checkout path (set.apply checkout version false).1 ≤
      set.names.countP fun name ↦ checkout.target? name = some path := by
  rw [← map_fst_apply set checkout version, List.countP_map]
  refine List.countP_mono_left fun entry _ hentry ↦ ?_
  simp only [Function.comp_apply, decide_eq_true_eq] at hentry ⊢
  exact hentry.1

/-- If a run succeeds, the last name that leads to a file leaves there what its patches make of the
text that the names before have left. -/
theorem composes_of_forFiles {editor : Editor} {before after : List (Text × List Nat)}
    {indices : List Nat}
    (hdone : ∀ entry ∈ (forFiles (set.applyFile editor false) checkout
      (before ++ (name, indices) :: after)).1, Done entry.2)
    (htarget : checkout.target? name = some path)
    (hafter : ∀ group ∈ after, checkout.target? group.1 ≠ some path) :
    ∃ former composed mode,
      (forFiles (set.applyFile editor false) checkout before).2.fs.Holds path former mode ∧
      set.Composes editor name indices former composed ∧
      (forFiles (set.applyFile editor false) checkout
        (before ++ (name, indices) :: after)).2.fs.Holds path composed mode := by
  have hstep := exists_effect_applyFile set editor
  have halike : (forFiles (set.applyFile editor false) checkout before).2.Alike checkout :=
    alike_forFiles hstep
  rw [forFiles_middle] at hdone ⊢
  generalize forFiles (set.applyFile editor false) checkout before = first at hdone halike ⊢
  have heffect := applyFile_effect set editor first.2 name indices
  dsimp only at hdone ⊢
  generalize set.applyFile editor false first.2 name indices = outcome at hdone heffect ⊢
  cases heffect with
  | failing error next kept unmade =>
      exact absurd (hdone (name, .error error) (by simp)) (not_done_error error)
  | unwritten path' former composed mode cause next target holds made new refusal kept =>
      exact absurd (hdone (name, .error (.unwritten name composed (.system cause))) (by simp))
        (not_done_error _)
  | composing path' former composed next target made allowed rewritten =>
      rw [halike.target?_eq, htarget] at target
      cases target
      obtain ⟨mode, hformer, -⟩ := rewritten.file
      have hspared : ∀ group ∈ after, next.target? group.1 ≠ some path := by
        intro group hgroup
        rw [rewritten.alike.target?_eq, halike.target?_eq]
        exact hafter group hgroup
      exact ⟨former, composed, mode, hformer, made,
        (lookup_forFiles hstep hspared).trans (rewritten.holds hformer)⟩

/-- If applying a set succeeds, the last name that leads to a file leaves there what its patches
make of the text that the names before have left. -/
theorem composes_of_apply {before after : List Text} (hnames : set.names = before ++ name :: after)
    (hdone : ∀ entry ∈ (set.apply checkout version false).1, Done entry.2)
    (htarget : checkout.target? name = some path)
    (hafter : ∀ other ∈ after, checkout.target? other ≠ some path) :
    ∃ editor former composed mode, set.editor? = .ok editor ∧
      (forFiles (set.applyFile editor false) checkout (set.grouped before)).2.fs.Holds
        path former mode ∧
      set.Composes editor name (set.positions name) former composed ∧
      (set.apply checkout version false).2.fs.Holds path composed mode := by
  rcases apply_cases set checkout version with ⟨result, hresult, h⟩ | ⟨editor, heditor, h⟩
  · -- the run has not gone through the files
    refine absurd (hdone (name, result) ?_) hresult
    simp [h, hnames]
  · rw [hnames, grouped_append_cons] at h
    rw [h] at hdone ⊢
    obtain ⟨former, composed, mode, hcomposes⟩ :=
      composes_of_forFiles hdone htarget (forall_mem_grouped.mpr hafter)
    exact ⟨editor, former, composed, mode, heditor, hcomposes⟩

/-- Where several names lead to one file that was unmarked, only the edits of the last name stay:
the file holds the result of one patch of its first text with them. -/
theorem last_name_stays {editor : Editor} (heditor : set.editor? = .ok editor)
    (hfresh : set.Fresh editor checkout) {before after : List Text}
    (hnames : set.names = before ++ name :: after)
    (hdone : ∀ entry ∈ (set.apply checkout version false).1, Done entry.2)
    (htarget : checkout.target? name = some path)
    (hafter : ∀ other ∈ after, checkout.target? other ≠ some path) :
    ∃ edits first mode outcome,
      (set.patches.filter (·.file = name)).mapM Patch.edit? = .ok edits ∧
      checkout.fs.Holds path first mode ∧ editor.patch first edits = .ok outcome ∧
      (set.apply checkout version false).2.fs.Holds path (outcome.applied first) mode := by
  obtain ⟨editor', former, composed, mode, heditor', hformer, ⟨edits, hedits, heval⟩, hlast⟩ :=
    composes_of_apply hnames hdone htarget hafter
  obtain rfl : editor' = editor := Except.ok.inj (heditor'.symm.trans heditor)
  have hname : name ∈ set.names := hnames ▸ List.mem_append_right _ (List.mem_cons_self ..)
  -- what the names before have left is reverted first
  have hundoable : Undoable editor' checkout
      (forFiles (set.applyFile editor' false) checkout (set.grouped before)).2 :=
    undoable_forFiles hfresh fun other hother ↦ hnames ▸ List.mem_append_left _ hother
  obtain ⟨hfirst, hunmarked⟩ :=
    hundoable.holds (fun first mode ↦ hfresh name hname path first mode htarget) hformer
  refine ⟨edits, editor'.revert former, mode, .between (editor'.revert former) composed,
    edits_positions_ok_iff.mp hedits, hfirst, ?_, ?_⟩
  · refine Editor.patch_ok_iff.mpr ⟨composed, ?_, rfl⟩
    rwa [Editor.revert_of_unmarked hunmarked]
  · rwa [Outcome.applied_between]

/-- A name stands between names that are different from it. -/
theorem exists_names_split (hname : name ∈ set.names) :
    ∃ before after, set.names = before ++ name :: after ∧
      (∀ other ∈ before, other ∈ set.names ∧ other ≠ name) ∧
      ∀ other ∈ after, other ∈ set.names ∧ other ≠ name := by
  obtain ⟨before, after, hnames⟩ := List.append_of_mem hname
  have hnodup : (before ++ name :: after).Nodup := hnames ▸ set.names_nodup
  obtain ⟨hnot, -⟩ := List.nodup_cons.mp (List.nodup_middle.mp hnodup)
  refine ⟨before, after, hnames, fun other hother ↦ ⟨?_, ?_⟩, fun other hother ↦ ⟨?_, ?_⟩⟩
  · exact hnames ▸ List.mem_append_left _ hother
  · rintro rfl
    exact hnot (List.mem_append_left _ hother)
  · exact hnames ▸ List.mem_append_right _ (List.mem_cons_of_mem _ hother)
  · rintro rfl
    exact hnot (List.mem_append_right _ hother)

/-- If one name leads to a file, no other is counted for it. -/
theorem countP_names_le_one (hone : ∀ name ∈ set.names, checkout.target? name = some path →
    ∀ other ∈ set.names, checkout.target? other = some path → other = name) :
    (set.names.countP fun name ↦ checkout.target? name = some path) ≤ 1 := by
  by_cases hany : ∃ name ∈ set.names, checkout.target? name = some path
  · obtain ⟨name, hname, htarget⟩ := hany
    calc
      _ ≤ set.names.count name := by
        refine List.countP_mono_left fun other hother htarget' ↦ ?_
        simpa using hone name hname htarget other hother (by simpa using htarget')
      _ ≤ 1 := List.nodup_iff_count_le_one.mp set.names_nodup name
  · have hzero : (set.names.countP fun name ↦ checkout.target? name = some path) = 0 := by
      refine List.countP_eq_zero.mpr fun name hname htarget ↦ ?_
      exact hany ⟨name, hname, by simpa using htarget⟩
    omega

/-- A file that only one name of the set leads to is written at most once, where each report of a
write stands for a change of the target, and if the run succeeds the file holds the result of one
patch with the edits of all its patches. -/
theorem apply_together (set : PatchSet) (checkout : Checkout) (version : Option Text) (path : Path)
    (hnamed : ∀ a ∈ set.patches, ∀ b ∈ set.patches, checkout.target? a.file = some path →
      checkout.target? b.file = some path → a.file = b.file) :
    let run := set.apply checkout version false
    writesTo checkout path run.1 ≤ 1 ∧
      (∀ i file result, run.1[i]? = some (file, result) →
        (wasWritten result = true ↔ ∃ target, checkout.target? file = some target ∧
          (set.reached checkout version false (i + 1)).fs.lookup target ≠
            (set.reached checkout version false i).fs.lookup target)) ∧
      ((∀ entry ∈ run.1, Done entry.2) → ∀ patch ∈ set.patches,
        checkout.target? patch.file = some path → set.Together checkout run.2 path) := by
  intro run
  have hone : ∀ name ∈ set.names, checkout.target? name = some path → ∀ other ∈ set.names,
      checkout.target? other = some path → other = name := by
    intro name hname htarget other hother htarget'
    obtain ⟨a, ha, rfl⟩ := mem_names_iff.mp hname
    obtain ⟨b, hb, rfl⟩ := mem_names_iff.mp hother
    exact hnamed b hb a ha htarget' htarget
  have hreports : ∀ i file result, run.1[i]? = some (file, result) →
      (wasWritten result = true ↔ ∃ target, checkout.target? file = some target ∧
        (set.reached checkout version false (i + 1)).fs.lookup target ≠
          (set.reached checkout version false i).fs.lookup target) :=
    fun _ _ _ ↦ wasWritten_iff_reached
  refine ⟨Nat.le_trans (writesTo_le set checkout version path) (countP_names_le_one hone), hreports,
    ?_⟩
  · intro hdone patch hpatch htarget
    have hname : patch.file ∈ set.names := mem_names_iff.mpr ⟨patch, hpatch, rfl⟩
    obtain ⟨before, after, hnames, hbefore, hafter⟩ := exists_names_split hname
    have hothers : ∀ other, other ∈ set.names ∧ other ≠ patch.file →
        checkout.target? other ≠ some path := by
      intro other hother htarget'
      exact hother.2 (hone _ hname htarget other hother.1 htarget')
    obtain ⟨editor, former, composed, mode, heditor, hformer, hcomposes, hlast⟩ :=
      composes_of_apply hnames hdone htarget fun other hother ↦ hothers other (hafter other hother)
    obtain ⟨edits, hedits, heval⟩ := hcomposes
    have hfirst : checkout.fs.Holds path former mode := by
      refine Eq.trans (lookup_forFiles (exists_effect_applyFile set editor) ?_).symm hformer
      exact forall_mem_grouped.mpr fun other hother ↦ hothers other (hbefore other hother)
    -- the patches for the file are those with its one name
    have hpatches : (set.patches.filter fun other ↦ checkout.target? other.file = some path) =
        set.patches.filter (·.file = patch.file) := by
      refine List.filter_congr fun other hother ↦ ?_
      have hiff : checkout.target? other.file = some path ↔ other.file = patch.file :=
        ⟨fun htarget' ↦ hnamed other hother patch hpatch htarget' htarget, fun h ↦ h ▸ htarget⟩
      simp only [hiff]
    refine ⟨editor, edits, former, mode, .between former composed, heditor, ?_, hfirst, ?_, ?_⟩
    · rw [hpatches]
      exact edits_positions_ok_iff.mp hedits
    · exact Editor.patch_ok_iff.mpr ⟨composed, heval, rfl⟩
    · rwa [Outcome.applied_between]

/-- Two edits of one file are carried out by one write. -/
theorem apply_together_two :
    let checkout : Checkout :=
      ⟨{ entries := [([['f']], .file (FileSystem.encode "x\nw".toList) 0o644)] },
        ⟨[], fun _ ↦ 0, []⟩⟩
    let set : PatchSet :=
      { info := { owner := ['a'], style := .hash }
        patches := [{ file := ['f'], anchors := [['x']], before := ['y'] },
          { file := ['f'], anchors := [['w']], after := ['z'] }] }
    let run := set.apply checkout none false
    (∀ a ∈ set.patches, ∀ b ∈ set.patches, checkout.target? a.file = some [['f']] →
        checkout.target? b.file = some [['f']] → a.file = b.file) ∧
      (∀ entry ∈ run.1, Done entry.2) ∧ writesTo checkout [['f']] run.1 ≤ 1 ∧
      set.Together checkout run.2 [['f']] ∧
      run.2.fs.Holds [['f']] "# + PL:a + # y\nx\nw\n# + PL:a + # z".toList 0o644 := by
  intro checkout set run
  let editor : Editor :=
    { owner := ⟨['a'], by simp, List.forall_mem_singleton.mpr rfl⟩, style := .hash
      usable := by decide, scope := .file }
  let edits : List Edit :=
    [{ anchors := [['x']], anchors_ne_nil := by simp, anchor_ne_nil := by simp
       before := ['y'] },
     { anchors := [['w']], anchors_ne_nil := by simp, anchor_ne_nil := by simp
       after := ['z'] }]
  have htarget : checkout.target? ['f'] = some [['f']] := by
    simp [checkout, Checkout.target?, Workspace.resolve, FileSystem.resolve,
      FileSystem.resolveFor, FileSystem.walk, FileSystem.isDirectory, FileSystem.lookup,
      FileSystem.maxNameSize, FileSystem.maxPathSize, PathText.join, PathText.isAbsolute,
      Path.render, Text.splitOn, Char.utf8Size, Except.toOption]
  have hholds : checkout.fs.Holds [['f']] "x\nw".toList 0o644 := rfl
  have hcomposes : set.Composes editor ['f'] [0, 1] "x\nw".toList
      "# + PL:a + # y\nx\nw\n# + PL:a + # z".toList := by
    refine ⟨edits, rfl, ?_⟩
    simp only [editor, edits]
    decide +kernel
  obtain ⟨next, happly, hrewritten⟩ := applyFile_of_composes htarget hholds hcomposes (.inr rfl)
  have hrun : run = forFiles (set.applyFile editor false) checkout [(['f'], [0, 1])] := rfl
  simp only [forFiles, happly] at hrun
  have hnamed : ∀ a ∈ set.patches, ∀ b ∈ set.patches, checkout.target? a.file = some [['f']] →
      checkout.target? b.file = some [['f']] → a.file = b.file := by
    simp [set]
  have hdone : ∀ entry ∈ run.1, Done entry.2 := by
    rw [hrun]
    exact List.forall_mem_singleton.mpr (done_between _ _)
  obtain ⟨hwrites, -, htogether⟩ := apply_together set checkout none [['f']] hnamed
  refine ⟨hnamed, hdone, hwrites, htogether hdone _ (List.mem_cons_self ..) htarget, ?_⟩
  rw [hrun]
  exact hrewritten.holds hholds

/-- When two names lead to one file, it is written twice and only the second edit is left, although
both can be carried out together. -/
theorem not_apply_together_spelled :
    let checkout : Checkout :=
      ⟨{ entries := [([['f']], .file (FileSystem.encode "x\nw".toList) 0o644)] },
        ⟨[], fun _ ↦ 0, []⟩⟩
    let set : PatchSet :=
      { info := { owner := ['a'], style := .hash }
        patches := [{ file := ['f'], anchors := [['x']], before := ['y'] },
          { file := "./f".toList, anchors := [['w']], after := ['z'] }] }
    let run := set.apply checkout none false
    set.validate = .ok set ∧ (∀ entry ∈ run.1, Done entry.2) ∧
      (∀ patch ∈ set.patches, checkout.target? patch.file = some [['f']]) ∧
      writesTo checkout [['f']] run.1 = 2 ∧
      run.2.fs.Holds [['f']] "x\nw\n# + PL:a + # z".toList 0o644 ∧
      ¬ set.Together checkout run.2 [['f']] := by
  intro checkout set run
  let editor : Editor :=
    { owner := ⟨['a'], by simp, List.forall_mem_singleton.mpr rfl⟩, style := .hash
      usable := by decide, scope := .file }
  let first : Edit :=
    { anchors := [['x']], anchors_ne_nil := by simp, anchor_ne_nil := by simp
      before := ['y'] }
  let second : Edit :=
    { anchors := [['w']], anchors_ne_nil := by simp, anchor_ne_nil := by simp
      after := ['z'] }
  let one := "# + PL:a + # y\nx\nw".toList
  let other := "x\nw\n# + PL:a + # z".toList
  let both := "# + PL:a + # y\nx\nw\n# + PL:a + # z".toList
  have htargets : ∀ patch ∈ set.patches, checkout.target? patch.file = some [['f']] := by
    simp [set, checkout, Checkout.target?, Workspace.resolve, FileSystem.resolve,
      FileSystem.resolveFor, FileSystem.walk, FileSystem.isDirectory, FileSystem.lookup,
      FileSystem.maxNameSize, FileSystem.maxPathSize, PathText.join, PathText.isAbsolute,
      Path.render, Text.splitOn, Char.utf8Size, Except.toOption]
  have htarget := htargets _ (List.mem_cons_self ..)
  have htarget' := htargets _ (List.mem_cons_of_mem _ (List.mem_cons_self ..))
  have hholds : checkout.fs.Holds [['f']] "x\nw".toList 0o644 := rfl
  have hone : set.Composes editor ['f'] [0] "x\nw".toList one := by
    refine ⟨[first], rfl, ?_⟩
    simp only [editor, first, one]
    decide +kernel
  have hother : set.Composes editor "./f".toList [1] one other := by
    refine ⟨[second], rfl, ?_⟩
    simp only [editor, second, one, other]
    decide +kernel
  have hboth : editor.patch "x\nw".toList [first, second] = .ok (.patched both) := by
    simp only [editor, first, second, both]
    decide +kernel
  obtain ⟨middle, happly, hrewritten⟩ := applyFile_of_composes htarget hholds hone (.inr rfl)
  have hmiddle := hrewritten.holds hholds
  obtain ⟨last, happly', hrewritten'⟩ := applyFile_of_composes
    ((hrewritten.alike.target?_eq _).trans htarget') hmiddle hother
    (.inr (congrFun hrewritten.refusal _))
  have hlast := hrewritten'.holds hmiddle
  have hrun : run = forFiles (set.applyFile editor false) checkout
      [(['f'], [0]), ("./f".toList, [1])] := rfl
  simp only [forFiles, happly, happly'] at hrun
  refine ⟨?_, ?_, htargets, ?_, ?_, ?_⟩
  · exact if_pos (by simp only [set]; decide +kernel)
  · rw [hrun]
    exact List.forall_mem_cons.mpr
      ⟨done_between _ _, List.forall_mem_singleton.mpr (done_between _ _)⟩
  · rw [hrun]
    refine List.countP_eq_length.mpr
      (List.forall_mem_cons.mpr ⟨?_, List.forall_mem_singleton.mpr ?_⟩)
    · exact decide_eq_true ⟨htarget, wasWritten_between.mpr (by simp only [one]; decide)⟩
    · exact decide_eq_true ⟨htarget', wasWritten_between.mpr (by simp only [one, other]; decide)⟩
  · exact hrun ▸ hlast
  · rintro ⟨_, edits, former, mode, outcome, ⟨⟩, hedits, hformer, hpatch, hfinal⟩
    rw [List.filter_eq_self.mpr fun patch hpatch ↦ decide_eq_true (htargets patch hpatch)] at hedits
    obtain rfl : [first, second] = edits := Except.ok.inj hedits
    obtain ⟨rfl, -⟩ := hformer.unique hholds
    obtain rfl : Outcome.patched both = outcome := Except.ok.inj (hboth.symm.trans hpatch)
    rw [hrun] at hfinal
    obtain ⟨h, -⟩ := hfinal.unique hlast
    revert h
    simp only [both, other]
    decide

end PatchSet

end MarkedEdits
