import MarkedEdits.Proofs.Batch.Entries

/-!
# What a run reports

A run reports for every file of a set what it has done there. `Truthful` says when such a report is
right, and `Accounts` that the reports of a run are, one after the other. They are for every run
that applies or reverts a set (`PatchSet.reports_are_truthful`). A write that the operating system
refuses keeps the file, and the report has the text.
-/

namespace MarkedEdits

/-- The result is right about a step on the file, where `makes` relates a text that the step may
find to the one that it makes of it. A file that is reported as written held the former text and now
holds the new one, and nothing else has changed. With any other result all files are as they were. A
dry run tells what the file holds and what would be made of that. A text that could not be written
was made of what the file holds, and the operating system refuses to write there. -/
structure Truthful (dryRun : Bool) (checkout next : Checkout) (file : Text)
    (makes : Text → Text → Prop) (result : Except TargetError FileResult) : Prop where
  applied : ∀ former updated, result = .ok (.applied former updated) → dryRun = false ∧
    ∃ path, checkout.target? file = some path ∧ makes former updated ∧
      Checkout.Rewritten checkout next path former updated
  kept : wasWritten result = false → Checkout.Kept checkout next
  foretold : ∀ former updated, result = .ok (.wouldApply former updated) → dryRun = true ∧
    ∃ path mode, checkout.target? file = some path ∧ checkout.fs.Holds path former mode ∧
      makes former updated
  unchanged : result = .ok .unchanged → ∃ path t mode, checkout.target? file = some path ∧
    checkout.fs.Holds path t mode ∧ makes t t
  unwritten : ∀ named updated cause, result = .error (.unwritten named updated cause) →
    dryRun = false ∧ named = file ∧
      ∃ path former mode refusal, checkout.target? file = some path ∧
        checkout.fs.Holds path former mode ∧ makes former updated ∧
        checkout.fs.refusal? path = some refusal ∧ cause = .system refusal

namespace Truthful

variable {dryRun : Bool} {checkout next : Checkout} {file : Text} {makes : Text → Text → Prop}
  {result : Except TargetError FileResult}

/-- An error that keeps no text is right about a step that keeps all files. -/
theorem of_error {error : TargetError} (hkept : Checkout.Kept checkout next)
    (huntold : error.text? = none) : Truthful dryRun checkout next file makes (.error error) := by
  refine ⟨by simp, fun _ ↦ hkept, by simp, by simp, ?_⟩
  rintro named updated cause ⟨⟩
  cases huntold

/-- That a file is skipped is right about a step that keeps all files. -/
theorem of_skipped (hkept : Checkout.Kept checkout next) (reason : String) :
    Truthful dryRun checkout next file makes (.ok (.skipped reason)) :=
  ⟨by simp, fun _ ↦ hkept, by simp, by simp, by simp⟩

/-- A result may be taken to tell less of what is made of a text. -/
theorem mono {makes' : Text → Text → Prop}
    (h : Truthful dryRun checkout next file makes result)
    (hmono : ∀ former updated, makes former updated → makes' former updated) :
    Truthful dryRun checkout next file makes' result := by
  refine ⟨fun former updated hresult ↦ ?_, h.kept, fun former updated hresult ↦ ?_,
    fun hresult ↦ ?_, fun named updated cause hresult ↦ ?_⟩
  · obtain ⟨hreal, path, htarget, hmade, hrewritten⟩ := h.applied former updated hresult
    exact ⟨hreal, path, htarget, hmono _ _ hmade, hrewritten⟩
  · obtain ⟨hdry, path, mode, htarget, hholds, hmade⟩ := h.foretold former updated hresult
    exact ⟨hdry, path, mode, htarget, hholds, hmono _ _ hmade⟩
  · obtain ⟨path, t, mode, htarget, hholds, hmade⟩ := h.unchanged hresult
    exact ⟨path, t, mode, htarget, hholds, hmono _ _ hmade⟩
  · obtain ⟨hreal, hnamed, path, former, mode, refusal, htarget, hholds, hmade, hrefused⟩ :=
      h.unwritten named updated cause hresult
    exact ⟨hreal, hnamed, path, former, mode, refusal, htarget, hholds, hmono _ _ hmade, hrefused⟩

/-- A step keeps all files or rewrites its target. -/
theorem cases (h : Truthful dryRun checkout next file makes result) :
    Checkout.Kept checkout next ∨ ∃ path former updated, checkout.target? file = some path ∧
      Checkout.Rewritten checkout next path former updated := by
  cases hwritten : wasWritten result with
  | false => exact .inl (h.kept hwritten)
  | true =>
      obtain ⟨former, updated, rfl⟩ : ∃ former updated, result = .ok (.applied former updated) := by
        unfold wasWritten at hwritten
        split at hwritten
        · exact ⟨_, _, rfl⟩
        · cases hwritten
      obtain ⟨-, path, htarget, -, hrewritten⟩ := h.applied former updated rfl
      exact .inr ⟨path, former, updated, htarget, hrewritten⟩

/-- A step keeps where paths lead. -/
theorem alike (h : Truthful dryRun checkout next file makes result) : next.Alike checkout := by
  rcases h.cases with hkept | ⟨path, former, updated, -, hrewritten⟩
  · exact hkept.alike
  · exact hrewritten.alike

/-- A step changes nothing but its target. -/
theorem target?_of_changed (h : Truthful dryRun checkout next file makes result) {path : Path}
    (hchanged : next.fs.lookup path ≠ checkout.fs.lookup path) :
    checkout.target? file = some path := by
  rcases h.cases with hkept | ⟨target, former, updated, htarget, hrewritten⟩
  · exact absurd (congrArg (·.lookup path) hkept.fs) hchanged
  · by_contra hne
    refine hchanged (hrewritten.lookup_of_ne fun heq ↦ hne ?_)
    rw [heq, htarget]

end Truthful

/-- The results are right about a run over the files, from the first checkout to the last. -/
inductive Accounts (dryRun : Bool) (makes : Text → List Nat → Text → Text → Prop) :
    Checkout → List (Text × List Nat) → FileResults FileResult → Checkout → Prop where
  | nil (checkout : Checkout) : Accounts dryRun makes checkout [] [] checkout
  | cons {checkout next last : Checkout} {file : Text} {indices : List Nat}
      {result : Except TargetError FileResult} {rest : List (Text × List Nat)}
      {results : FileResults FileResult}
      (head : Truthful dryRun checkout next file (makes file indices) result)
      (tail : Accounts dryRun makes next rest results last) :
      Accounts dryRun makes checkout ((file, indices) :: rest) ((file, result) :: results) last

/-! ## Steps -/

/-- What a step comes to is right about the files. -/
theorem Trial.truthful {dryRun : Bool} {checkout : Checkout} {file : Text}
    {makes : Text → Text → Prop} {outcome : Except TargetError FileResult × Checkout}
    (h : Trial dryRun checkout file makes outcome) :
    Truthful dryRun checkout outcome.2 file makes outcome.1 := by
  cases h with
  | failing error next kept untold unmade => exact .of_error kept untold
  | unchanged path t mode next target holds made kept =>
      exact ⟨by simp, fun _ ↦ kept, by simp, fun _ ↦ ⟨path, t, mode, target, holds, made⟩, by simp⟩
  | foretold path former updated mode next dry target holds made new kept =>
      refine ⟨by simp, fun _ ↦ kept, ?_, by simp, by simp⟩
      rintro _ _ ⟨⟩
      exact ⟨dry, path, mode, target, holds, made⟩
  | unwritten path former updated mode cause next real target holds made new refusal kept =>
      refine ⟨by simp, fun _ ↦ kept, by simp, by simp, ?_⟩
      rintro _ _ _ ⟨⟩
      exact ⟨real, rfl, path, former, mode, cause, target, holds, made, refusal, rfl⟩
  | applied path former updated next real target made new allowed rewritten =>
      refine ⟨?_, by simp [wasWritten], by simp, by simp, by simp⟩
      rintro _ _ ⟨⟩
      exact ⟨real, path, target, made, rewritten⟩

namespace Entry

/-- What is reported of an entry that is applied is right about the files. -/
theorem truthful_apply (entry : Entry) (checkout : Checkout) (version : Option Text)
    (dryRun : Bool) :
    Truthful dryRun checkout (entry.apply version dryRun checkout).2 entry.file
      (fun former updated ↦ ∃ editor, entry.set.editor? = .ok editor ∧
        entry.set.Composes editor entry.file entry.indices former updated)
      (entry.apply version dryRun checkout).1 := by
  unfold apply admitted
  rcases hadmission : entry.set.admission version with error | editor | reason
  · refine .of_error ⟨rfl, rfl⟩ ?_
    obtain ⟨known, cause, -, rfl⟩ | ⟨cause, -, rfl⟩ := PatchSet.admission_error_cases hadmission
    · rfl
    · rfl
  · have htrial :=
      entry.set.applyFile_trial editor dryRun checkout entry.file entry.indices
    refine htrial.truthful.mono fun former updated hcomposes ↦ ?_
    exact ⟨editor, PatchSet.editor_of_admission hadmission, hcomposes⟩
  · exact .of_skipped ⟨rfl, rfl⟩ reason

/-- What is reported of an entry that is reverted is right about the files. -/
theorem truthful_revert (entry : Entry) (checkout : Checkout) (dryRun : Bool) :
    Truthful dryRun checkout (entry.revert dryRun checkout).2 entry.file
      (fun former updated ↦ ∃ editor, entry.set.editor? = .ok editor ∧
        updated = editor.revert former)
      (entry.revert dryRun checkout).1 := by
  unfold revert
  cases hprepare : entry.set.prepare with
  | error error =>
      obtain ⟨cause, -, rfl⟩ := mapError_error_iff.mp hprepare
      exact .of_error ⟨rfl, rfl⟩ rfl
  | ok editor =>
      have htrial := PatchSet.revertFile_trial editor dryRun checkout entry.file
      refine htrial.truthful.mono fun former updated hmade ↦ ?_
      exact ⟨editor, mapError_ok_iff.mp hprepare, hmade⟩

end Entry

/-! ## Runs -/

namespace PatchSet

/-- The results of a run are right if every step is. -/
theorem accounts_visit {set : PatchSet} {dryRun : Bool}
    {makes : Text → List Nat → Text → Text → Prop}
    {step : Entry → Checkout → Except TargetError FileResult × Checkout}
    (h : ∀ file indices checkout, Truthful dryRun checkout (step ⟨set, file, indices⟩ checkout).2
      file (makes file indices) (step ⟨set, file, indices⟩ checkout).1) (checkout : Checkout) :
    Accounts dryRun makes checkout set.files (Batch.visit step checkout set.entries).1
      (Batch.visit step checkout set.entries).2 := by
  unfold entries
  generalize set.files = groups
  induction groups generalizing checkout with
  | nil => exact .nil checkout
  | cons group rest ih => exact .cons (h group.1 group.2 checkout) (ih _)

/-- What a run reports is what it does, whether it applies the set or reverts it, and whatever
writes the operating system refuses. There is one report for every file of the set, in their
order. -/
theorem reports_are_truthful (set : PatchSet) (checkout : Checkout) (version : Option Text)
    (dryRun : Bool) :
    let applying := set.apply checkout version dryRun
    let reverting := set.revert checkout dryRun
    Accounts dryRun (fun file indices former updated ↦ ∃ editor, set.editor? = .ok editor ∧
        set.Composes editor file indices former updated)
      checkout set.files applying.1 applying.2 ∧
    Accounts dryRun (fun _ _ former updated ↦ ∃ editor, set.editor? = .ok editor ∧
        updated = editor.revert former)
      checkout set.files reverting.1 reverting.2 := by
  intro applying reverting
  simp only [applying, reverting, apply_eq_visit, revert_eq_visit]
  constructor
  · exact accounts_visit (fun file indices current ↦
      Entry.truthful_apply ⟨set, file, indices⟩ current version dryRun) checkout
  · exact accounts_visit (fun file indices current ↦
      Entry.truthful_revert ⟨set, file, indices⟩ current dryRun) checkout

/-- Of two files the operating system lets only the second one be written. The first one is kept,
and the report on it has the text. -/
theorem reports_are_truthful_refused :
    let checkout : Checkout :=
      { Checkout.double ['x'] ['w'] with
        fs := { (Checkout.double ['x'] ['w']).fs with
          refusal? := fun path ↦ if path = [['f']] then some .permissionDenied else none } }
    let set : PatchSet :=
      { info := { owner := ['a'], style := .hash }
        patches := [{ file := ['f'], search := some ['x'], after := ['z'] },
          { file := ['g'], search := some ['w'], before := ['y'] }] }
    let one := "x\n# + PL:a + # z".toList
    let other := "# + PL:a + # y\nw".toList
    let run := set.apply checkout none false
    run.1 = [(['f'], .error (.unwritten ['f'] one (.system .permissionDenied))),
        (['g'], .ok (.applied ['w'] other))] ∧
      run.2.fs.Holds [['f']] ['x'] 0o644 ∧ run.2.fs.Holds [['g']] other 0o644 ∧
      Accounts false (fun file indices former updated ↦ ∃ editor, set.editor? = .ok editor ∧
        set.Composes editor file indices former updated) checkout set.files run.1 run.2 := by
  intro checkout set one other run
  let editor : Editor :=
    { owner := ⟨['a'], by simp, List.forall_mem_singleton.mpr rfl⟩, style := .hash
      usable := by decide, scope := .file }
  let edit : Edit :=
    { anchors := [['x']], anchors_ne_nil := by simp, anchor_ne_nil := by simp
      after := ['z'] }
  let edit' : Edit :=
    { anchors := [['w']], anchors_ne_nil := by simp, anchor_ne_nil := by simp
      before := ['y'] }
  have htarget : checkout.target? ['f'] = some [['f']] ∧
      checkout.target? ['g'] = some [['g']] := by
    constructor <;>
      simp [checkout, Checkout.double, Checkout.target?, Workspace.resolve, FileSystem.resolve,
        FileSystem.resolveFor, FileSystem.walk, FileSystem.isDirectory, FileSystem.lookup,
        FileSystem.maxNameSize, FileSystem.maxPathSize, PathText.join, PathText.isAbsolute,
        Path.render, Text.splitOn, Char.utf8Size, Except.toOption]
  have hholds : checkout.fs.Holds [['f']] ['x'] 0o644 := rfl
  have hholds' : checkout.fs.Holds [['g']] ['w'] 0o644 := rfl
  have hone : set.Composes editor ['f'] [0] ['x'] one := by
    refine ⟨[edit], rfl, ?_⟩
    simp only [editor, edit, one]
    decide +kernel
  have hother : set.Composes editor ['g'] [1] ['w'] other := by
    refine ⟨[edit'], rfl, ?_⟩
    simp only [editor, edit', other]
    decide +kernel
  obtain ⟨next, happly, hkept⟩ :=
    applyFile_of_refusal htarget.1 hholds hone (by simp only [one]; decide) rfl
  obtain ⟨last, happly', hrewritten⟩ := applyFile_of_composes
    ((hkept.alike.target?_eq _).trans htarget.2) (hkept.fs ▸ hholds') hother
    (.inr (hkept.fs ▸ rfl))
  have hrun : run = forFiles (set.applyFile editor false) checkout [(['f'], [0]), (['g'], [1])] :=
    rfl
  simp only [forFiles, happly, happly'] at hrun
  refine ⟨?_, ?_, ?_, (reports_are_truthful set checkout none false).1⟩
  · rw [hrun]
    rfl
  · rw [hrun]
    exact (hrewritten.lookup_of_ne (by decide)).trans (hkept.fs ▸ hholds)
  · rw [hrun]
    exact hrewritten.holds (hkept.fs ▸ hholds')

end PatchSet

end MarkedEdits
