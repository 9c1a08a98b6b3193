import MarkedEdits.Proofs.Batch.Entries
import MarkedEdits.Proofs.Scope.Blame

/-!
# Checks and dry runs

A check and a dry run go through the same files by different ways: the check looks at what the edits
match before it asks what they come to. `CommandLine.check_agrees_with_dry_run` says that the two
tell the same of every file and end with the same code. The only errors that a check puts into a
report are those of edits that can be read. An edit that cannot be read never gets as far as a plan
(`Editor.not_isUnreadable_of_patch`), so no other error is about one.
-/

namespace MarkedEdits

/-- The error is about an edit that cannot be read. -/
def EditError.isUnreadable : EditError → Bool
  | invalidEdit _ _ => true
  | _ => false

/-- The error is about edits that can be read and do not fit the text. -/
def TargetError.isConflict : TargetError → Bool
  | edit _ _ cause => !cause.isUnreadable
  | _ => false

/-! ## What stops an editor -/

/-- Edits that do not fit can be read. -/
theorem EditError.not_isUnreadable_of_isMisfit {error : EditError} (h : error.isMisfit = true) :
    error.isUnreadable = false := by
  cases error with
  | invalidEdit index fault => cases h
  | _ => rfl

namespace Editor

variable {editor : Editor} {t : Text} {edits : List Edit} {error : EditError}

/-- An evaluation fails on edits that can be read. -/
theorem not_isUnreadable_of_evaluate (h : (editor.evaluate t edits).1 = .error error) :
    error.isUnreadable = false := by
  rcases evaluate_error_cases h with rfl | ⟨hmisfit, -⟩
  · rfl
  · exact error.not_isUnreadable_of_isMisfit hmisfit

/-- A patch fails on edits that can be read. -/
theorem not_isUnreadable_of_patch (h : editor.patch t edits = .error error) :
    error.isUnreadable = false :=
  not_isUnreadable_of_evaluate (patch_error_iff.mp h)

end Editor

/-- A patch that declares no edit cannot be read. -/
theorem Patch.isUnreadable_of_edit? {patch : Patch} {error : EditError}
    (h : patch.edit? = .error error) : error.isUnreadable = true := by
  unfold edit? at h
  split at h
  · cases h
    rfl
  · cases h

/-- The edits of a set are stopped by one that cannot be read. -/
theorem PatchSet.not_isConflict_of_edits {set : PatchSet} {file : Text} {indices : List Nat}
    {error : TargetError} (h : set.edits file indices = .error error) :
    error.isConflict = false := by
  obtain ⟨index, patch, cause, -, hedit, rfl⟩ := exists_patch_of_edits h
  simp [TargetError.isConflict, Patch.isUnreadable_of_edit? hedit]

/-! ## One file -/

/-- What a check and a dry run tell of a file is the same. -/
structure Agrees (checked : Except TargetError FileReport)
    (foretold : Except TargetError FileResult) : Prop where
  skipped : (∃ report, checked = .ok report ∧ report.status = .skipped) ↔
    ∃ reason, foretold = .ok (.skipped reason)
  applied : (∃ report, checked = .ok report ∧ report.status = .applied) ↔
    foretold = .ok .unchanged
  pending : (∃ report, checked = .ok report ∧ report.status = .pending) ↔
    ∃ former updated, foretold = .ok (.wouldApply former updated)
  failing : (∃ report, checked = .ok report ∧ report.status = .failing) ↔
    ∃ error, foretold = .error error ∧ error.isConflict
  failed : ∀ error, checked = .error error ↔ foretold = .error error ∧ ¬ error.isConflict
  reason : ∀ report reason, checked = .ok report → foretold = .ok (.skipped reason) →
    report.error = some reason
  message : ∀ report error, checked = .ok report → foretold = .error error →
    report.error = some error.message

namespace Agrees

/-- A check and a dry run agree when neither goes through the files. -/
theorem of_skipped (reason : String) :
    Agrees (.ok ⟨.skipped, [], [], some reason⟩) (.ok (.skipped reason)) := by
  constructor <;> simp

/-- A check and a dry run agree on a file that is as it should be. -/
theorem of_applied {report : FileReport} (h : report.status = .applied) :
    Agrees (.ok report) (.ok .unchanged) := by
  constructor <;> simp [h]

/-- A check and a dry run agree on a file that would be changed. -/
theorem of_pending {report : FileReport} (h : report.status = .pending) (former updated : Text) :
    Agrees (.ok report) (.ok (.wouldApply former updated)) := by
  constructor <;> simp [h]

/-- A check and a dry run agree on a file that the edits do not fit. -/
theorem of_failing {report : FileReport} {error : TargetError} (h : report.status = .failing)
    (hconflict : error.isConflict) (hmessage : report.error = some error.message) :
    Agrees (.ok report) (.error error) := by
  constructor <;> simp [h, hconflict, hmessage]

/-- A check and a dry run agree on a file that the edits are not tried on. -/
theorem of_failed {error : TargetError} (h : error.isConflict = false) :
    Agrees (.error error) (.error error) := by
  constructor <;> simp [h]

/-- A file is a failure to a check when it is one to a dry run. -/
theorem isFailure_eq {checked : Except TargetError FileReport}
    {foretold : Except TargetError FileResult} (h : Agrees checked foretold) :
    Batch.wouldFail checked = Batch.hasFailed foretold := by
  cases foretold with
  | error error =>
      cases hconflict : error.isConflict with
      | true =>
          obtain ⟨report, rfl, hstatus⟩ := h.failing.mpr ⟨error, rfl, hconflict⟩
          simp [Batch.wouldFail, Batch.hasFailed, hstatus]
      | false =>
          obtain rfl := (h.failed error).mpr ⟨rfl, by simp [hconflict]⟩
          rfl
  | ok result =>
      cases checked with
      | error error => simpa using (h.failed error).mp rfl
      | ok report =>
          have hstatus : report.status ≠ .failing := by
            intro hstatus
            obtain ⟨error, herror, -⟩ := h.failing.mp ⟨report, rfl, hstatus⟩
            cases herror
          simp [Batch.wouldFail, Batch.hasFailed, hstatus]

end Agrees

namespace PatchSet

variable {set : PatchSet} {editor : Editor} {file former : Text} {indices : List Nat}
  {edits : List Edit}

/-- Edits that a patch fails on are reported with its error. -/
theorem status_of_error {cause : EditError} (h : editor.patch former edits = .error cause) :
    set.status editor file former indices edits (editor.inspect former edits).error =
      (.failing, some (set.blame file indices cause).message) := by
  have heval := Editor.patch_error_iff.mp h
  simp [status, Editor.inspect, heval]

/-- Edits that a patch carries out are in place when they change nothing. -/
theorem status_of_ok {composed : Text}
    (h : (editor.evaluate (editor.revert former) edits).1 = .ok composed) :
    set.status editor file former indices edits (editor.inspect former edits).error =
      (if composed = former then .applied else .pending, none) := by
  have hpatch := Editor.patch_ok_iff.mpr ⟨composed, h, rfl⟩
  unfold Outcome.between at hpatch
  simp only [status, Editor.inspect, h, hpatch]
  split_ifs <;> rfl

/-- An error of edits that can be read is one when it is put down to a patch. -/
theorem isConflict_blame (set : PatchSet) (file : Text) (indices : List Nat) {cause : EditError}
    (h : cause.isUnreadable = false) : (set.blame file indices cause).isConflict := by
  simp [blame, TargetError.isConflict, h]

/-- Checking a file agrees with a dry run on it. -/
theorem checkFile_agrees (set : PatchSet) (editor : Editor) (checkout : Checkout) (file : Text)
    (indices : List Nat) :
    (set.checkFile editor checkout file indices).2 =
        (set.applyFile editor true checkout file indices).2 ∧
      Agrees (set.checkFile editor checkout file indices).1
        (set.applyFile editor true checkout file indices).1 := by
  unfold checkFile applyFile
  rcases checkout.read file with cause | ⟨former, next⟩
  · exact ⟨rfl, .of_failed rfl⟩
  · cases hedits : set.edits file indices with
    | error error => exact ⟨rfl, .of_failed (not_isConflict_of_edits hedits)⟩
    | ok edits =>
        dsimp only
        cases hpatch : editor.patch former edits with
        | error cause =>
            rw [status_of_error hpatch]
            have hreadable := Editor.not_isUnreadable_of_patch hpatch
            exact ⟨rfl, .of_failing rfl (isConflict_blame set file indices hreadable) rfl⟩
        | ok outcome =>
            obtain ⟨composed, heval, rfl⟩ := Editor.patch_ok_iff.mp hpatch
            rw [status_of_ok heval]
            unfold Outcome.between
            by_cases heq : composed = former
            · simp only [if_pos heq]
              exact ⟨rfl, .of_applied rfl⟩
            · simp only [if_neg heq]
              exact ⟨rfl, .of_pending rfl former composed⟩

/-- The version gate and the editor fail on no edits. -/
theorem not_isConflict_of_admission {version : Option Text} {error : TargetError}
    (h : set.admission version = .error error) : error.isConflict = false := by
  obtain ⟨known, cause, -, rfl⟩ | ⟨cause, -, rfl⟩ := admission_error_cases h
  · rfl
  · rfl

end PatchSet

/-- Checking an entry agrees with a dry run on it. -/
theorem Entry.check_agrees (version : Option Text) (entry : Entry) (checkout : Checkout) :
    (entry.check version checkout).2 = (entry.apply version true checkout).2 ∧
      Agrees (entry.check version checkout).1 (entry.apply version true checkout).1 := by
  unfold Entry.check Entry.apply admitted
  rcases hadmission : entry.set.admission version with error | editor | reason
  · exact ⟨rfl, .of_failed (PatchSet.not_isConflict_of_admission hadmission)⟩
  · exact PatchSet.checkFile_agrees ..
  · exact ⟨rfl, .of_skipped reason⟩

/-! ## Sets and batches -/

namespace Batch

/-- Results that agree have the same failures. -/
theorem any_failure_eq {checked : FileResults FileReport} {foretold : FileResults FileResult}
    (h : List.Forall₂ (fun a b ↦ a.1 = b.1 ∧ Agrees a.2 b.2) checked foretold) :
    checked.any (wouldFail ·.2) = foretold.any (hasFailed ·.2) := by
  induction h with
  | nil => rfl
  | cons hfirst _ ih => rw [List.any_cons, List.any_cons, hfirst.2.isFailure_eq, ih]

/-- A check writes nothing. -/
theorem kept_visit_check {version : Option Text} {checkout : Checkout} {entries : List Entry} :
    Checkout.Kept checkout (visit (Entry.check version) checkout entries).2 := by
  obtain ⟨hsame, -⟩ := visit_related (Entry.check_agrees version) checkout entries
  exact hsame ▸ kept_visit_apply ..

/-- A batch that is checked ends with the code of its dry run. -/
theorem code_check (sets : List LoadedSet) (checkout : Checkout) (version : Option Text) :
    code wouldFail (check sets checkout version).1 =
      code hasFailed (apply sets checkout version true).1 := by
  obtain ⟨-, hentries⟩ := visit_related (Entry.check_agrees version) checkout (entries sets)
  rw [code_eq, code_eq, fileResults_check, fileResults_apply, any_failure_eq hentries]

end Batch

namespace CommandLine

/-- Checking a patch set tells of every file, in the same order, what a dry run of the set tells,
and the two commands end with the same code. -/
theorem check_agrees_with_dry_run (set : PatchSet) (checkout : Checkout) (version : Option Text)
    (palette : Palette) (sets : List LoadedSet) (check dry : Request)
    (hdry : dry.has .dryRun = true)
    (hversion : check.get? .targetVersion = dry.get? .targetVersion) :
    List.Forall₂ (fun checked foretold ↦ checked.1 = foretold.1 ∧ Agrees checked.2 foretold.2)
        (set.check checkout version).1 (set.apply checkout version true).1 ∧
      (checkAndReport palette checkout sets check).code =
        (applyAndReport palette checkout sets dry).code := by
  constructor
  · rw [PatchSet.check_eq_visit, PatchSet.apply_eq_visit]
    exact (Batch.visit_related (Entry.check_agrees version) ..).2
  · have hcode := Batch.code_check sets checkout (check.get? .targetVersion)
    simpa only [checkAndReport, applyAndReport, hdry, ← hversion] using hcode

/-- A check says that an edit is pending, which a dry run would carry out. -/
theorem check_agrees_with_dry_run_pending :
    let checkout : Checkout := .single ['x']
    let set : PatchSet :=
      { info := { owner := ['a'], style := .hash }
        patches := [{ file := ['f'], anchors := [['x']], after := ['z'] }] }
    let sets : List LoadedSet := [⟨"a.toml".toList, set⟩]
    let check : Request := ⟨.check, []⟩
    let dry : Request := ⟨.apply, [(.dryRun, [])]⟩
    dry.has .dryRun = true ∧ check.get? .targetVersion = dry.get? .targetVersion ∧
      (set.apply checkout none true).1 =
        [(['f'], .ok (.wouldApply ['x'] "x\n# + PL:a + # z".toList))] ∧
      List.Forall₂ (fun checked foretold ↦ checked.1 = foretold.1 ∧ Agrees checked.2 foretold.2)
        (set.check checkout none).1 (set.apply checkout none true).1 ∧
      (checkAndReport ⟨false⟩ checkout sets check).code =
        (applyAndReport ⟨false⟩ checkout sets dry).code := by
  intro checkout set sets check dry
  let editor : Editor :=
    { owner := ⟨['a'], by simp, List.forall_mem_singleton.mpr rfl⟩, style := .hash
      usable := by decide, scope := .file }
  let edit : Edit :=
    { anchors := [['x']], anchors_ne_nil := by simp, anchor_ne_nil := by simp
      after := ['z'] }
  have hread := Checkout.read_ok_iff.mpr
    ⟨_, _, Checkout.target?_single ['x'], Checkout.holds_single ['x'], rfl⟩
  have hedits : set.edits ['f'] [0] = .ok [edit] := rfl
  have hpatch : editor.patch ['x'] [edit] = .ok (.patched "x\n# + PL:a + # z".toList) := by
    simp only [editor, edit]
    decide +kernel
  have hrun : set.apply checkout none true =
      PatchSet.forFiles (set.applyFile editor true) checkout [(['f'], [0])] := rfl
  refine ⟨rfl, rfl, ?_,
    check_agrees_with_dry_run set checkout none ⟨false⟩ sets check dry rfl rfl⟩
  simp only [hrun, checkout, PatchSet.forFiles, PatchSet.applyFile, hread, hedits, hpatch,
    PatchSet.finish, if_true]

end CommandLine

end MarkedEdits
