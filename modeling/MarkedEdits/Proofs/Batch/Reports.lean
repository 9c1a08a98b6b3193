import MarkedEdits.Proofs.Batch.Agreement
import MarkedEdits.Proofs.Batch.DryRun
import MarkedEdits.Proofs.Batch.RoundTrip
import MarkedEdits.Proofs.Scope.Inspection
import MarkedEdits.Proofs.Scope.Layers

/-!
# Which patch is blamed

A run that fails on a file names the patch at fault, and a check has a report on every patch of the
file. A patch has a position in the set and one among the patches of the file, and its edit has a
position in a list that goes on with the guards. `PatchSet.blames_one_patch` says that the patch
that is named is the one that the error is about, and that the reports of a check show the error at
that patch and nowhere else. A check before the run shows this as well, unless an earlier name of
the set leads to the same file and reverting its text a second time changes it once more
(`PatchSet.not_blames_one_patch`).
-/

namespace MarkedEdits

/-- The position of the edit at which the planning stopped, when the error comes from there. -/
def EditError.stop? : EditError → Option Nat
  | noMatch index _ | multipleMatches index _ | collision index _ _ => some index
  | overlap _ _ _ | foreignMarkers _ _ | invalidEdit _ _ | invalidNamespace _ _ | invalidStyle _
  | unwritten _ _ => none

/-- An edit that stops the planning is where the planning stopped. -/
theorem Plan.Stops.stop_eq {t : Text} {claims : List (Nat × Match)} {index : Nat} {edit : Edit}
    {found : List Match} {error : EditError} (h : Plan.Stops t claims index edit found error) :
    error.stop? = some index := by
  cases h <;> rfl

namespace PatchSet

/-- The label is that of the patch that the error is about, which is one of those at the positions
and aims at the file. There is no label when the error is about the markers of other namespaces. -/
structure Blames (set : PatchSet) (file : Text) (indices : List Nat) (cause : EditError)
    (blamed : Option Text) : Prop where
  culprit : ∀ k, cause.index? = some k → ∃ index patch, indices[k]? = some index ∧
    set.patches[index]? = some patch ∧ patch.file = file ∧ blamed = some (patch.label index)
  nobody : cause.index? = none → blamed = none ∧ ∃ count first, cause = .foreignMarkers count first

/-- There is one report for each of the patches at the positions, in their order. When the error
stopped the planning, it is noted where that happened and nowhere else, and nothing is told of the
patches behind. Other errors are not noted beside a patch. -/
structure Shows (set : PatchSet) (indices : List Nat) (cause : EditError)
    (reports : List PatchReport) : Prop where
  labels : reports.map (fun report ↦ some report.label) = indices.map set.labelAt
  stopped : ∀ k, cause.stop? = some k → ∀ i report, reports[i]? = some report →
    report.error = (if i = k then some cause else none) ∧ (k < i → report.lines = [])
  quiet : cause.stop? = none → ∀ report ∈ reports, report.error = none

variable {set : PatchSet} {editor : Editor} {file former base : Text} {indices : List Nat}
  {edits : List Edit} {cause : EditError}

/-- The patches at the positions of a file aim at the file. -/
theorem exists_patch_of_mem_files (h : (file, indices) ∈ set.files) :
    ∀ index ∈ indices, ∃ patch, set.patches[index]? = some patch ∧ patch.file = file := by
  obtain ⟨-, rfl⟩ := mem_files_iff.mp h
  exact fun index ↦ mem_positions_iff.mp

section File

variable (hindices : ∀ index ∈ indices, ∃ patch, set.patches[index]? = some patch ∧
  patch.file = file)

include hindices

/-- There is one edit for every patch. -/
theorem length_edits (h : set.edits file indices = .ok edits) : edits.length = indices.length := by
  induction indices generalizing edits with
  | nil =>
      cases h
      rfl
  | cons index rest ih =>
      obtain ⟨⟨patch, hpatch, -⟩, hrest⟩ := List.forall_mem_cons.mp hindices
      obtain ⟨edit, -, others, hothers, rfl⟩ := (edits_cons_ok_iff hpatch).mp h
      rw [List.length_cons, List.length_cons, ih hrest hothers]

/-- A patch at the positions has a label. -/
theorem exists_label {k : Nat} (h : k < indices.length) :
    ∃ index patch, indices[k]? = some index ∧ set.patches[index]? = some patch ∧
      patch.file = file ∧ set.labelAt index = some (patch.label index) := by
  obtain ⟨patch, hpatch, hfile⟩ := hindices _ (List.getElem_mem h)
  exact ⟨_, patch, List.getElem?_eq_getElem h, hpatch, hfile, by rw [labelAt, hpatch]; rfl⟩

omit hindices in
/-- The report on a patch tells the result at its position. -/
theorem getElem?_patchReports (results : List MatchResult) (i : Nat) :
    (set.patchReports base results indices)[i]? = indices[i]?.map fun index ↦
      { label := (set.labelAt index).getD []
        lines := (results[i]?.map (·.found)).getD [] |>.map fun found ↦
          Text.lineNumber base found.start
        error := results[i]?.bind (·.error) } := by
  rw [patchReports, List.getElem?_map, List.getElem?_zipIdx, Option.map_map, Nat.zero_add]
  rfl

/-- The reports have the labels of the patches. -/
theorem labels_patchReports (results : List MatchResult) :
    (set.patchReports base results indices).map (fun report ↦ some report.label) =
      indices.map set.labelAt := by
  refine List.ext_getElem? fun i ↦ ?_
  rw [List.getElem?_map, getElem?_patchReports, Option.map_map, List.getElem?_map]
  cases hindex : indices[i]? with
  | none => rfl
  | some index =>
      obtain ⟨patch, hpatch, -⟩ := hindices index (List.mem_of_getElem? hindex)
      simp [labelAt, hpatch]

/-- An error about an edit is put down to the patch of that edit. -/
theorem blames_of_lt {k : Nat} (hk : k < indices.length) (hcause : cause.index? = some k) :
    set.Blames file indices cause ((cause.index?.bind (indices[·]?)).bind set.labelAt) := by
  obtain ⟨index, patch, hindex, hpatch, hfile, hlabel⟩ := exists_label hindices hk
  rw [hcause, Option.bind_some, hindex, Option.bind_some, hlabel]
  refine ⟨fun k' hk' ↦ ?_, fun hnone ↦ ?_⟩
  · obtain rfl := Option.some.inj (hcause.symm.trans hk')
    exact ⟨index, patch, hindex, hpatch, hfile, rfl⟩
  · rw [hcause] at hnone
    cases hnone

/-- The patch that an error is put down to is the one that it is about, and the reports that go with
the error show it. -/
theorem blames_and_shows (hedits : set.edits file indices = .ok edits)
    (h : (editor.inspect former edits).error = some cause) :
    set.Blames file indices cause ((cause.index?.bind (indices[·]?)).bind set.labelAt) ∧
      set.Shows indices cause (set.patchReports (editor.revert former)
        (editor.inspect former edits).results indices) := by
  have hlength := length_edits hindices hedits
  cases hplan : Plan.ofEdits (editor.revert former) edits with
  | error failure =>
      obtain ⟨k, hk, hfails⟩ := Plan.exists_failsAt hplan
      obtain ⟨_, _, -, -, -, hstops⟩ := hfails.stopped
      rw [Editor.inspect_of_failure hplan] at h ⊢
      obtain rfl := Option.some.inj h
      rw [hlength] at hk
      refine ⟨blames_of_lt hindices hk hfails.index, labels_patchReports hindices _, ?_, ?_⟩
      · intro k' hstop i report hreport
        obtain rfl := Option.some.inj (hstops.stop_eq.symm.trans hstop)
        rw [getElem?_patchReports] at hreport
        obtain ⟨index, -, rfl⟩ := Option.map_eq_some_iff.mp hreport
        refine ⟨hfails.error_at i, fun hlt ↦ ?_⟩
        have hbehind : failure.results.length ≤ i := by
          rw [hfails.length]
          exact hlt
        simp [List.getElem?_eq_none hbehind]
      · intro hnone
        rw [hstops.stop_eq] at hnone
        cases hnone
  | ok plan =>
      obtain ⟨hresults, hcauses⟩ := Editor.inspect_of_plan hplan
      have hquiet : ∀ report ∈ set.patchReports (editor.revert former) plan.results indices,
          report.error = none := by
        intro report hreport
        obtain ⟨i, hi⟩ := List.getElem?_of_mem hreport
        rw [getElem?_patchReports] at hi
        obtain ⟨index, -, rfl⟩ := Option.map_eq_some_iff.mp hi
        rw [Plan.ofEdits_results hplan, List.getElem?_map]
        cases edits[i]? <;> rfl
      rw [hresults]
      rcases hcauses cause h with rfl | ⟨index, other, start, rfl, hindex, -⟩
      · refine ⟨⟨by simp [Markers.foreignError, EditError.index?], fun _ ↦ ⟨rfl, _, _, rfl⟩⟩,
          labels_patchReports hindices _, by simp [Markers.foreignError, EditError.stop?],
          fun _ ↦ hquiet⟩
      · rw [hlength] at hindex
        exact ⟨blames_of_lt hindices hindex rfl, labels_patchReports hindices _,
          by simp [EditError.stop?], fun _ ↦ hquiet⟩

end File

variable {checkout next : Checkout} {named : Text} {blamed : Option Text}

/-- A step that fails on an edit has read the file, and the inspection of the text fails with the
same error. -/
theorem exists_read_of_applyFile {dryRun : Bool} (hedits : set.edits file indices = .ok edits)
    (h : (set.applyFile editor dryRun checkout file indices).1 = .error (.edit named blamed cause)) :
    ∃ former next, checkout.read file = .ok (former, next) ∧
      (editor.inspect former edits).error = some cause ∧ named = file ∧
      blamed = (cause.index?.bind (indices[·]?)).bind set.labelAt := by
  unfold applyFile at h
  cases hread : checkout.read file with
  | error refusal => simp [hread] at h
  | ok found =>
      obtain ⟨former, next⟩ := found
      simp only [hread, hedits] at h
      cases hpatch : editor.patch former edits with
      | error other =>
          simp only [hpatch, blame, Except.error.injEq, TargetError.edit.injEq] at h
          obtain ⟨rfl, rfl, rfl⟩ := h
          exact ⟨former, next, rfl,
            Editor.inspect_error_iff.mpr (Editor.patch_error_iff.mp hpatch), rfl, rfl⟩
      | ok outcome =>
          simp only [hpatch] at h
          rcases finish_cases next file former dryRun outcome with
            hsame | ⟨_, hnew⟩ | ⟨_, hnew⟩ | ⟨_, _, herror⟩ <;> simp_all

/-- A check of a file reports on the inspection of its text. -/
theorem exists_report_of_read (hedits : set.edits file indices = .ok edits)
    (hread : checkout.read file = .ok (former, next)) :
    ∃ report, (set.checkFile editor checkout file indices).1 = .ok report ∧
      report.patches = set.patchReports (editor.revert former)
        (editor.inspect former edits).results indices := by
  simp only [checkFile, hread, hedits]
  exact ⟨_, rfl, rfl⟩

end PatchSet

/-! ## Runs -/

namespace Entry

variable {entry : Entry} {version : Option Text} {dryRun : Bool} {checkout : Checkout}

/-- An entry that fails on an edit is one of a set that goes through its files. -/
theorem exists_editor_of_apply {named : Text} {blamed : Option Text} {cause : EditError}
    (h : (entry.apply version dryRun checkout).1 = .error (.edit named blamed cause)) :
    ∃ editor, entry.set.admission version = .ok (.run editor) ∧
      (entry.set.applyFile editor dryRun checkout entry.file entry.indices).1 =
        .error (.edit named blamed cause) := by
  unfold apply admitted at h
  cases hadmission : entry.set.admission version with
  | error error =>
      simp only [hadmission, Except.error.injEq] at h
      obtain ⟨_, _, -, rfl⟩ | ⟨_, -, rfl⟩ := PatchSet.admission_error_cases hadmission <;> cases h
  | ok admission =>
      cases admission with
      | skip reason => simp [hadmission] at h
      | run editor => exact ⟨editor, rfl, by simpa only [hadmission] using h⟩

/-- The check of an entry whose set goes through its files is the check of the file. -/
theorem check_of_admission {editor : Editor}
    (h : entry.set.admission version = .ok (.run editor)) :
    entry.check version checkout =
      entry.set.checkFile editor checkout entry.file entry.indices := by
  simp only [check, admitted, h]

end Entry

namespace Batch

variable {set : PatchSet} {editor : Editor} {version : Option Text} {checkout : Checkout}
  {entries : List Entry} {path : Path} {first : Text} {mode : Nat}

/-- What entries of one set leave of a text reverts to what the text reverts to, when reverting the
text once more changes nothing. In the file scope nothing is asked of the text. -/
theorem exists_holds_visit_apply (heditor : set.editor? = .ok editor)
    (hentries : ∀ entry ∈ entries, entry.set = set) (hholds : checkout.fs.Holds path first mode)
    (hsteady : editor.scope = .file ∨ editor.revert (editor.revert first) = editor.revert first) :
    ∃ t, (visit (Entry.apply version false) checkout entries).2.fs.Holds path t mode ∧
      editor.revert t = editor.revert first := by
  refine (visit_induction (motive := fun rest current ↦ (∀ entry ∈ rest, entry.set = set) ∧
    ∃ t, current.fs.Holds path t mode ∧ editor.revert t = editor.revert first)
    ⟨hentries, first, hholds, rfl⟩ ?_).2
  rintro entry rest current ⟨hentries, t, hcurrent, hrevert⟩
  obtain ⟨hentry, hrest⟩ := List.forall_mem_cons.mp hentries
  refine ⟨hrest, ?_⟩
  rcases entry.apply_effect version current with hkept | ⟨editor', heditor', heffect⟩
  · exact ⟨t, hkept.symm ▸ hcurrent, hrevert⟩
  · rw [hentry, heditor] at heditor'
    obtain rfl := Except.ok.inj heditor'
    obtain ⟨last, hlast, rfl | ⟨-, edits, -, heval⟩⟩ := heffect.holds_cases hcurrent
    · exact ⟨last, hlast, hrevert⟩
    · -- what is written is composed from what the text reverts to
      refine ⟨last, hlast, ?_⟩
      rw [hrevert] at heval
      rw [Editor.revert_of_evaluate heval]
      rcases hsteady with hscope | hsteady
      · exact Editor.revert_of_unmarked (Editor.unmarked_of_evaluate hscope heval)
      · exact hsteady

end Batch

namespace PatchSet

variable {set : PatchSet} {editor : Editor} {version : Option Text} {dryRun : Bool}
  {checkout : Checkout} {i : Nat} {file : Text} {indices : List Nat} {edits : List Edit}
  {named : Text} {blamed : Option Text} {cause : EditError}

/-- What the files of the set before the position do makes no difference to the text that the
patches of the file are tried on: the run is dry, it does not write to the file before, or what it
writes there reverts to what the text at the start reverts to. -/
def Undisturbed (set : PatchSet) (checkout : Checkout) (version : Option Text) (dryRun : Bool)
    (i : Nat) (file : Text) : Prop :=
  dryRun = true ∨
    Batch.LeftAlone checkout file ((set.apply checkout version dryRun).1.take i) ∨
    ∀ editor former next, set.editor? = .ok editor → checkout.read file = .ok (former, next) →
      editor.scope = .file ∨ editor.revert (editor.revert former) = editor.revert former

/-- Then the file was read at the start of the run as a text that reverts to the same. -/
theorem Undisturbed.exists_read {former : Text} {next : Checkout}
    (h : set.Undisturbed checkout version dryRun i file) (heditor : set.editor? = .ok editor)
    (hread : (set.reached checkout version dryRun i).read file = .ok (former, next)) :
    ∃ first last, checkout.read file = .ok (first, last) ∧
      editor.revert first = editor.revert former := by
  obtain ⟨path, mode, htarget, hholds, -⟩ := Checkout.read_ok_iff.mp hread
  unfold reached at htarget hholds
  cases dryRun with
  | true =>
      have hkept := Batch.kept_visit_apply version checkout (set.entries.take i)
      rw [hkept.fs] at hholds
      rw [hkept.alike.target?_eq] at htarget
      exact ⟨former, _, Checkout.read_ok_iff.mpr ⟨path, mode, htarget, hholds, rfl⟩, rfl⟩
  | false =>
      rw [(Batch.alike_visit_apply version checkout (set.entries.take i)).target?_eq] at htarget
      rcases h with hdry | halone | hsteady
      · cases hdry
      · rw [apply_eq_visit, Batch.take_visit] at halone
        have hfirst : checkout.fs.Holds path former mode :=
          (halone.lookup_eq htarget).symm.trans hholds
        exact ⟨former, _, Checkout.read_ok_iff.mpr ⟨path, mode, htarget, hfirst, rfl⟩, rfl⟩
      · by_cases hfirst : ∃ first mode, checkout.fs.Holds path first mode
        · obtain ⟨first, mode', hfirst⟩ := hfirst
          have hread' := Checkout.read_ok_iff.mpr ⟨path, mode', htarget, hfirst, rfl⟩
          obtain ⟨t, ht, hrevert⟩ := Batch.exists_holds_visit_apply heditor
            (fun _ hentry ↦ set_of_mem_entries (List.mem_of_mem_take hentry)) hfirst
            (hsteady editor first _ heditor hread')
          obtain ⟨rfl, -⟩ := ht.unique hholds
          exact ⟨first, _, hread', hrevert.symm⟩
        · -- a run makes no text where there was none
          have hlookup := Batch.lookup_visit_apply_of_fixed version (set.entries.take i)
            (.inl fun t mode ht ↦ hfirst ⟨t, mode, ht⟩)
          exact absurd ⟨former, mode, hlookup.symm.trans hholds⟩ hfirst

/-- The files of a set with the positions of their patches are its entries. -/
theorem getElem?_entries (hentry : set.files[i]? = some (file, indices)) :
    set.entries[i]? = some ⟨set, file, indices⟩ := by
  rw [entries, List.getElem?_map, hentry, Option.map_some]

/-- The result for a file is what the step on it makes of the checkout that it finds. -/
theorem result_of_apply {result : Except TargetError FileResult}
    (hentry : set.files[i]? = some (file, indices))
    (h : (set.apply checkout version dryRun).1[i]? = some (file, result)) :
    (Entry.apply version dryRun ⟨set, file, indices⟩
      (set.reached checkout version dryRun i)).1 = result := by
  rw [apply_eq_visit, Batch.getElem?_visit, getElem?_entries hentry, Option.map_some,
    Option.some.injEq] at h
  exact (Prod.mk.inj h).2

/-- A check of a set reports on the inspection of the text that a file holds. -/
theorem exists_report_of_check {former : Text} {next : Checkout}
    (hgate : set.admission version = .ok (.run editor))
    (hentry : set.files[i]? = some (file, indices)) (hedits : set.edits file indices = .ok edits)
    (hread : checkout.read file = .ok (former, next)) :
    ∃ report, (set.check checkout version).1[i]? = some (file, .ok report) ∧
      report.patches = set.patchReports (editor.revert former)
        (editor.inspect former edits).results indices := by
  have hkept : Checkout.Kept checkout
      (Batch.visit (Entry.check version) checkout (set.entries.take i)).2 := Batch.kept_visit_check
  obtain ⟨path, mode, htarget, hholds, -⟩ := Checkout.read_ok_iff.mp hread
  have hread' := Checkout.read_ok_iff.mpr
    ⟨path, mode, (hkept.alike.target?_eq file).trans htarget, hkept.fs ▸ hholds, rfl⟩
  obtain ⟨report, hreport, hpatches⟩ := exists_report_of_read hedits hread'
  refine ⟨report, ?_, hpatches⟩
  rw [check_eq_visit, Batch.getElem?_visit, getElem?_entries hentry, Option.map_some,
    Entry.check_of_admission hgate, hreport]

/-- When a run of a set fails on an edit for a file, the file is named, and so is the patch that the
error is about, or none when it is about the markers of other namespaces. A check of the file as the
run has found it has a report on each patch of the file, and these show the error at that patch and
nowhere else. So does a check of the set before the run, when the run has not disturbed the file. -/
theorem blames_one_patch (set : PatchSet) (checkout : Checkout) (version : Option Text)
    (dryRun : Bool) (hentry : set.files[i]? = some (file, indices))
    (hedits : set.edits file indices = .ok edits)
    (h : (set.apply checkout version dryRun).1[i]? =
      some (file, .error (.edit named blamed cause))) :
    named = file ∧ set.Blames file indices cause blamed ∧
      (∃ report, (Entry.check version ⟨set, file, indices⟩
          (set.reached checkout version dryRun i)).1 = .ok report ∧
        set.Shows indices cause report.patches) ∧
      (set.Undisturbed checkout version dryRun i file →
        ∃ report, (set.check checkout version).1[i]? = some (file, .ok report) ∧
          set.Shows indices cause report.patches) := by
  obtain ⟨editor, hgate, happly⟩ := Entry.exists_editor_of_apply (result_of_apply hentry h)
  obtain ⟨former, next, hread, herror, rfl, rfl⟩ := exists_read_of_applyFile hedits happly
  have hindices := exists_patch_of_mem_files (List.mem_of_getElem? hentry)
  obtain ⟨hblames, hshows⟩ := blames_and_shows hindices hedits herror
  refine ⟨rfl, hblames, ?_, fun hundisturbed ↦ ?_⟩
  · obtain ⟨report, hreport, hpatches⟩ := exists_report_of_read hedits hread
    exact ⟨report, Entry.check_of_admission hgate ▸ hreport, hpatches ▸ hshows⟩
  · obtain ⟨first, last, hfirst, hrevert⟩ :=
      hundisturbed.exists_read (editor_of_admission hgate) hread
    obtain ⟨report, hreport, hpatches⟩ := exists_report_of_check hgate hentry hedits hfirst
    have hsame : editor.inspect first edits = editor.inspect former edits := by
      simp only [Editor.inspect, hrevert]
    rw [hsame, hrevert] at hpatches
    exact ⟨report, hreport, hpatches ▸ hshows⟩

/-- The second of two patches for a file matches nothing. It is the third patch of the set, and a
check shows the error at the second of two reports. -/
theorem blames_one_patch_between :
    let checkout : Checkout := .single ['x']
    let set : PatchSet :=
      { info := { owner := ['a'], style := .hash }
        patches := [{ file := ['f'], search := some ['x'], before := ['y'] },
          { file := ['g'], search := some ['x'], before := ['y'] },
          { file := ['f'], search := some ['q'], before := ['y'] }] }
    let cause : EditError := .noMatch 1 none
    (set.apply checkout none false).1[0]? =
        some (['f'], .error (.edit ['f'] (some "#2 (f)".toList) cause)) ∧
      set.Blames ['f'] [0, 2] cause (some "#2 (f)".toList) ∧
      ∃ report, (set.check checkout none).1[0]? = some (['f'], .ok report) ∧
        set.Shows [0, 2] cause report.patches := by
  intro checkout set cause
  let editor : Editor :=
    { owner := ⟨['a'], by simp, List.forall_mem_singleton.mpr rfl⟩, style := .hash
      usable := by decide, scope := .file }
  let edit (anchor : Char) : Edit :=
    { anchors := [[anchor]], anchors_ne_nil := by simp, anchor_ne_nil := by simp
      before := ['y'] }
  have hedits : set.edits ['f'] [0, 2] = .ok [edit 'x', edit 'q'] := rfl
  have hpatch : editor.patch ['x'] [edit 'x', edit 'q'] = .error cause := by
    simp only [editor, edit, cause]
    decide +kernel
  obtain ⟨next, happly, -⟩ := applyFile_of_error false (Checkout.target?_single ['x'])
    (Checkout.holds_single ['x']) hedits hpatch
  have hrun : set.apply checkout none false =
      forFiles (set.applyFile editor false) checkout [(['f'], [0, 2]), (['g'], [1])] := rfl
  have hfailed : (set.apply checkout none false).1[0]? =
      some (['f'], .error (.edit ['f'] (some "#2 (f)".toList) cause)) := by
    simp only [hrun, forFiles, checkout, happly]
    rfl
  obtain ⟨-, hblames, -, hcheck⟩ := blames_one_patch set checkout none false rfl hedits hfailed
  exact ⟨hfailed, hblames, hcheck (.inr (.inl fun _ _ ↦ rfl))⟩

/-- Two names lead to one file, of which a line has been disabled twice. What the patch for the
first name leaves there reverts to a text in which the patch for the second name matches twice. The
run fails on that patch, and a check finds nothing wrong with it. -/
theorem not_blames_one_patch :
    let former := "w\nv\nw\n# - PL:a - # # - PL:a - # v\nx\n".toList
    let checkout : Checkout := .single former
    let set : PatchSet :=
      { info := { owner := ['a'], style := .hash, scope := .span }
        patches := [{ file := ['f'], search := some ['x'], before := ['z'] },
          { file := "./f".toList, search := some "w\nv".toList, after := ['u'] }] }
    set.validate = .ok set ∧
      (set.apply checkout none false).1[1]? = some ("./f".toList,
        .error (.edit "./f".toList (some "#1 (./f)".toList) (.multipleMatches 0 2))) ∧
      ∃ report, (set.check checkout none).1[1]? = some ("./f".toList, .ok report) ∧
        report.patches = [⟨"#1 (./f)".toList, [1], none⟩] := by
  intro former checkout set
  let editor : Editor :=
    { owner := ⟨['a'], by simp, List.forall_mem_singleton.mpr rfl⟩, style := .hash
      usable := by decide, scope := .span }
  let first : Edit :=
    { anchors := [['x']], anchors_ne_nil := by simp, anchor_ne_nil := by simp
      before := ['z'] }
  let second : Edit :=
    { anchors := ["w\nv".toList], anchors_ne_nil := by simp, anchor_ne_nil := by simp
      after := ['u'] }
  let middle := "w\nv\nw\n# - PL:a - # v\n# + PL:a + # z\nx\n".toList
  have htarget : checkout.target? ['f'] = some [['f']] := Checkout.target?_single former
  have htarget' : checkout.target? "./f".toList = some [['f']] := by
    simp [checkout, Checkout.single, Checkout.target?, Workspace.resolve, FileSystem.resolve,
      FileSystem.resolveFor, FileSystem.walk, FileSystem.isDirectory, FileSystem.lookup,
      FileSystem.maxNameSize, FileSystem.maxPathSize, PathText.join, PathText.isAbsolute,
      Path.render, Text.splitOn, Char.utf8Size, Except.toOption]
  have hholds : checkout.fs.Holds [['f']] former 0o644 := Checkout.holds_single former
  have hfirst : set.Composes editor ['f'] [0] former middle := by
    refine ⟨[first], rfl, ?_⟩
    simp only [editor, first, former, middle]
    decide +kernel
  have hedits : set.edits "./f".toList [1] = .ok [second] := rfl
  have hpatch : editor.patch middle [second] = .error (.multipleMatches 0 2) := by
    simp only [editor, second, middle]
    decide +kernel
  obtain ⟨next, happly, hrewritten⟩ := applyFile_of_composes htarget hholds hfirst (.inr rfl)
  obtain ⟨last, hrefused, -⟩ := applyFile_of_error false
    ((hrewritten.alike.target?_eq _).trans htarget') (hrewritten.holds hholds) hedits hpatch
  have hrun : set.apply checkout none false = forFiles (set.applyFile editor false) checkout
      [(['f'], [0]), ("./f".toList, [1])] := rfl
  have hread := Checkout.read_ok_iff.mpr ⟨[['f']], 0o644, htarget', hholds, rfl⟩
  have hgate : set.admission none = .ok (.run editor) := rfl
  have hentry : set.files[1]? = some ("./f".toList, [1]) := rfl
  obtain ⟨report, hreport, hpatches⟩ := exists_report_of_check hgate hentry hedits hread
  refine ⟨?_, ?_, report, hreport, hpatches.trans ?_⟩
  · exact if_pos (by simp only [set]; decide +kernel)
  · simp only [hrun, forFiles, happly, hrefused]
    rfl
  · simp only [editor, second, former, set]
    decide +kernel

end PatchSet

end MarkedEdits
