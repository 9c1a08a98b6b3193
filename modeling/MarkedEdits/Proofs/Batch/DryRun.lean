import MarkedEdits.Proofs.Batch.Entries

/-!
# What a dry run foretells

A dry run writes nothing, so each of its entries finds the files as they were at the start, while
those of the real run find them as the entries before have left them. The dry run foretells what
becomes of every file that no earlier entry of the real run has written to, unless its write is
refused, and the code if that is so for all (`CommandLine.dry_run_foretells`). It does not foretell
that an entry is refused because of the markers that an earlier one has written
(`CommandLine.dry_run_misses_markers`).
-/

namespace MarkedEdits

/-- What a dry run tells of a file is what becomes of it. -/
structure Foretells (foretold result : Except TargetError FileResult) : Prop where
  updated : ∀ former updated,
    foretold = .ok (.wouldApply former updated) ↔ result = .ok (.applied former updated)
  unchanged : foretold = .ok .unchanged ↔ result = .ok .unchanged
  skipped : ∀ reason, foretold = .ok (.skipped reason) ↔ result = .ok (.skipped reason)
  failed : ∀ error, foretold = .error error ↔ result = .error error

namespace Foretells

/-- A dry run foretells a failure. -/
theorem of_error (error : TargetError) : Foretells (.error error) (.error error) := by
  constructor <;> simp

/-- A dry run foretells that a file is skipped. -/
theorem of_skipped (reason : String) :
    Foretells (.ok (.skipped reason)) (.ok (.skipped reason)) := by
  constructor <;> simp

/-- A dry run foretells that a file stays as it is. -/
theorem of_unchanged : Foretells (.ok .unchanged) (.ok .unchanged) := by
  constructor <;> simp

/-- A dry run foretells the new text of a file. -/
theorem of_updated (former updated : Text) :
    Foretells (.ok (.wouldApply former updated)) (.ok (.applied former updated)) := by
  constructor <;> simp

/-- A dry run foretells the failures. -/
theorem hasFailed_eq {foretold result : Except TargetError FileResult}
    (h : Foretells foretold result) : Batch.hasFailed foretold = Batch.hasFailed result := by
  cases foretold with
  | error error =>
      rw [(h.failed error).mp rfl]
  | ok found =>
      cases result with
      | error error => simpa using (h.failed error).mpr rfl
      | ok real => rfl

end Foretells

namespace PatchSet

section

variable {set : PatchSet} {editor : Editor} {checkout : Checkout} {file former : Text}
  {indices : List Nat} {path : Path} {mode : Nat} {edits : List Edit}

/-- A dry run tells what a patch of the text in the file comes to. -/
theorem applyFile_of_patch (htarget : checkout.target? file = some path)
    (hholds : checkout.fs.Holds path former mode) (hedits : set.edits file indices = .ok edits)
    {updated : Text} (hpatch : editor.patch former edits = .ok (.patched updated)) :
    ∃ next, set.applyFile editor true checkout file indices =
        (.ok (.wouldApply former updated), next) ∧ Checkout.Kept checkout next := by
  have hread := Checkout.read_ok_iff.mpr ⟨path, mode, htarget, hholds, rfl⟩
  refine ⟨_, ?_, Checkout.kept_of_read hread⟩
  simp only [applyFile, hread, hedits, hpatch, finish, if_true]

/-- A run tells why a patch of the text in the file fails. -/
theorem applyFile_of_error (dryRun : Bool) (htarget : checkout.target? file = some path)
    (hholds : checkout.fs.Holds path former mode) (hedits : set.edits file indices = .ok edits)
    {cause : EditError} (hpatch : editor.patch former edits = .error cause) :
    ∃ next, set.applyFile editor dryRun checkout file indices =
        (.error (set.blame file indices cause), next) ∧ Checkout.Kept checkout next := by
  have hread := Checkout.read_ok_iff.mpr ⟨path, mode, htarget, hholds, rfl⟩
  refine ⟨_, ?_, Checkout.kept_of_read hread⟩
  simp only [applyFile, hread, hedits, hpatch]

end

/-- Finishing a file in a dry run foretells how it is finished, if the write is not refused. -/
theorem finish_foretells {next : Checkout} (dryNext : Checkout) {file former composed : Text}
    (h : wasRefused (finish next file former false (.between former composed)).1 = false) :
    Foretells (finish dryNext file former true (.between former composed)).1
      (finish next file former false (.between former composed)).1 := by
  unfold Outcome.between at h ⊢
  split_ifs at h ⊢
  · exact .of_unchanged
  · simp only [finish, Bool.false_eq_true, if_false, if_true] at h ⊢
    cases hwrite : next.write file composed with
    | error cause => simp [hwrite, wasRefused, TargetError.text?] at h
    | ok last => exact .of_updated former composed

/-- A dry run foretells what becomes of a file, if its target is as it is in the real run and the
write is not refused. -/
theorem applyFile_foretells (set : PatchSet) (editor : Editor) {dry real : Checkout}
    (halike : dry.Alike real) {file : Text} (indices : List Nat)
    (hsame : ∀ path, real.target? file = some path → dry.fs.lookup path = real.fs.lookup path)
    (hwritten : wasRefused (set.applyFile editor false real file indices).1 = false) :
    Foretells (set.applyFile editor true dry file indices).1
      (set.applyFile editor false real file indices).1 := by
  have hread := halike.map_read_eq hsame
  cases hreal : real.read file with
  | error cause =>
      have hdry : dry.read file = .error cause := by
        cases hdry : dry.read file with
        | error other => simpa [hreal, hdry, Except.map] using hread
        | ok found => simp [hreal, hdry, Except.map] at hread
      unfold applyFile
      simp only [hreal, hdry]
      exact .of_error _
  | ok found =>
      obtain ⟨former, next⟩ := found
      obtain ⟨dryNext, hdry⟩ : ∃ next, dry.read file = .ok (former, next) := by
        cases hdry : dry.read file with
        | error other => simp [hreal, hdry, Except.map] at hread
        | ok found =>
            have hformer : found.1 = former := by
              simpa [hreal, hdry, Except.map] using hread
            exact ⟨found.2, hformer ▸ rfl⟩
      unfold applyFile at hwritten ⊢
      simp only [hreal, hdry] at hwritten ⊢
      cases hedits : set.edits file indices with
      | error error => exact .of_error error
      | ok edits =>
          simp only [hedits] at hwritten ⊢
          cases hpatch : editor.patch former edits with
          | error cause => exact .of_error _
          | ok outcome =>
              obtain ⟨composed, -, rfl⟩ := Editor.patch_ok_iff.mp hpatch
              simp only [hpatch] at hwritten ⊢
              exact finish_foretells dryNext hwritten

end PatchSet

/-- A dry run foretells what becomes of an entry, if the target of its file is as it is in the real
run and the write is not refused. -/
theorem Entry.apply_foretells (version : Option Text) (entry : Entry) {dry real : Checkout}
    (halike : dry.Alike real) (hsame : ∀ path, real.target? entry.file = some path →
      dry.fs.lookup path = real.fs.lookup path)
    (hwritten : wasRefused (entry.apply version false real).1 = false) :
    Foretells (entry.apply version true dry).1 (entry.apply version false real).1 := by
  unfold apply admitted at hwritten ⊢
  rcases hadmission : entry.set.admission version with error | editor | reason
  · exact .of_error error
  · rw [hadmission] at hwritten
    exact PatchSet.applyFile_foretells entry.set editor halike entry.indices hsame hwritten
  · exact .of_skipped reason

namespace Batch

/-- A dry run foretells what becomes of an entry that the entries before have left alone, if its
write is not refused. -/
theorem visit_foretells {version : Option Text} {checkout : Checkout} {entries : List Entry}
    {k : Nat} {file : Text} {result : Except TargetError FileResult}
    (hresult : (visit (Entry.apply version false) checkout entries).1[k]? = some (file, result))
    (halone : LeftAlone checkout file
      ((visit (Entry.apply version false) checkout entries).1.take k))
    (hwritten : wasRefused result = false) :
    ∃ foretold, (visit (Entry.apply version true) checkout entries).1[k]? = some (file, foretold) ∧
      Foretells foretold result := by
  rw [take_visit] at halone
  rw [getElem?_visit] at hresult ⊢
  obtain ⟨entry, hentry, hstep⟩ := Option.map_eq_some_iff.mp hresult
  obtain ⟨rfl, rfl⟩ := Prod.mk.inj hstep
  refine ⟨_, by rw [hentry]; rfl, ?_⟩
  have hreal : (visit (Entry.apply version false) checkout (entries.take k)).2.Alike checkout :=
    alike_visit_apply ..
  have hdry : Checkout.Kept checkout
      (visit (Entry.apply version true) checkout (entries.take k)).2 := kept_visit_apply ..
  refine entry.apply_foretells version ?_ (fun path htarget ↦ ?_) hwritten
  · exact hdry.alike.trans hreal.symm
  · rw [hdry.fs, halone.lookup_eq (hreal.target?_eq _ ▸ htarget)]

/-- The dry run has the failures of the real one, if the entries before leave every entry alone and
no write is refused. -/
theorem any_hasFailed_eq {version : Option Text} {checkout : Checkout} {entries : List Entry}
    (halone : ∀ k file result,
      (visit (Entry.apply version false) checkout entries).1[k]? = some (file, result) →
      LeftAlone checkout file ((visit (Entry.apply version false) checkout entries).1.take k) ∧
        wasRefused result = false) :
    (visit (Entry.apply version true) checkout entries).1.any (hasFailed ·.2) =
      (visit (Entry.apply version false) checkout entries).1.any (hasFailed ·.2) := by
  have hmap : (visit (Entry.apply version true) checkout entries).1.map (hasFailed ·.2) =
      (visit (Entry.apply version false) checkout entries).1.map (hasFailed ·.2) := by
    refine List.ext_getElem? fun k ↦ ?_
    rw [List.getElem?_map, List.getElem?_map]
    cases hresult : (visit (Entry.apply version false) checkout entries).1[k]? with
    | none =>
        rw [List.getElem?_eq_none_iff, length_visit] at hresult
        rw [List.getElem?_eq_none_iff.mpr (length_visit ▸ hresult)]
    | some found =>
        obtain ⟨file, result⟩ := found
        obtain ⟨hbefore, hwritten⟩ := halone k file result hresult
        obtain ⟨foretold, hforetold, hsame⟩ := visit_foretells hresult hbefore hwritten
        rw [hforetold]
        exact congrArg some hsame.hasFailed_eq
  have hany := congrArg (List.any · id) hmap
  rwa [List.any_map, List.any_map] at hany

end Batch

namespace CommandLine

/-- A dry run foretells what becomes of every file that no earlier entry of the real run has written
to and of which no write is refused. The two runs end with the same code if that holds of all
entries. -/
theorem dry_run_foretells (palette : Palette) (checkout : Checkout) (sets : List LoadedSet)
    (dry real : Request) (hdry : dry.has .dryRun = true) (hreal : real.has .dryRun = false)
    (hversion : dry.get? .targetVersion = real.get? .targetVersion) :
    let foretold :=
      Batch.fileResults (Batch.apply sets checkout (dry.get? .targetVersion) true).1
    let results :=
      Batch.fileResults (Batch.apply sets checkout (real.get? .targetVersion) false).1
    (∀ k file result, results[k]? = some (file, result) →
        Batch.LeftAlone checkout file (results.take k) → wasRefused result = false →
        ∃ told, foretold[k]? = some (file, told) ∧ Foretells told result) ∧
      ((∀ k file result, results[k]? = some (file, result) →
          Batch.LeftAlone checkout file (results.take k) ∧ wasRefused result = false) →
        (applyAndReport palette checkout sets dry).code =
          (applyAndReport palette checkout sets real).code) := by
  intro foretold results
  simp only [foretold, results, applyAndReport, hdry, hreal, hversion, Batch.code_eq,
    Batch.fileResults_apply]
  constructor
  · intro k file result hresult halone hwritten
    exact Batch.visit_foretells hresult halone hwritten
  · intro halone
    rw [Batch.any_hasFailed_eq halone]

/-- A dry run foretells what two sets of different styles do to two files. -/
theorem dry_run_foretells_two_files :
    let checkout : Checkout := .double ['x'] ['w']
    let first : PatchSet :=
      { info := { owner := ['a'], style := .hash }
        patches := [{ file := ['f'], search := some ['x'], after := ['z'] }] }
    let second : PatchSet :=
      { info := { owner := ['b'] }
        patches := [{ file := ['g'], search := some ['w'], before := ['y'] }] }
    let sets : List LoadedSet := [⟨"a.toml".toList, first⟩, ⟨"b.toml".toList, second⟩]
    let dry : Request := ⟨.apply, [(.dryRun, [])]⟩
    let real : Request := ⟨.apply, []⟩
    let foretold := Batch.fileResults (Batch.apply sets checkout none true).1
    let results := Batch.fileResults (Batch.apply sets checkout none false).1
    let one := "x\n# + PL:a + # z".toList
    let other := "/* + PL:b + */ y\nw".toList
    dry.has .dryRun = true ∧ real.has .dryRun = false ∧
      dry.get? .targetVersion = real.get? .targetVersion ∧
      results = [(['f'], .ok (.applied ['x'] one)), (['g'], .ok (.applied ['w'] other))] ∧
      (∀ k file result, results[k]? = some (file, result) →
        Batch.LeftAlone checkout file (results.take k) ∧ wasRefused result = false) ∧
      foretold[0]? = some (['f'], .ok (.wouldApply ['x'] one)) ∧
      foretold[1]? = some (['g'], .ok (.wouldApply ['w'] other)) ∧
      (applyAndReport ⟨false⟩ checkout sets dry).code =
        (applyAndReport ⟨false⟩ checkout sets real).code := by
  intro checkout first second sets dry real foretold results one other
  let editor : Editor :=
    { owner := ⟨['a'], by simp, List.forall_mem_singleton.mpr rfl⟩, style := .hash
      usable := by decide, scope := .file }
  let editor' : Editor :=
    { owner := ⟨['b'], by simp, List.forall_mem_singleton.mpr rfl⟩, style := .block
      usable := by decide, scope := .file }
  let edit : Edit :=
    { anchors := [['x']], anchors_ne_nil := by simp, anchor_ne_nil := by simp
      after := ['z'] }
  let edit' : Edit :=
    { anchors := [['w']], anchors_ne_nil := by simp, anchor_ne_nil := by simp
      before := ['y'] }
  have hfirst : first.Composes editor ['f'] [0] ['x'] one := by
    refine ⟨[edit], rfl, ?_⟩
    simp only [editor, edit, one]
    decide +kernel
  have hsecond : second.Composes editor' ['g'] [0] ['w'] other := by
    refine ⟨[edit'], rfl, ?_⟩
    simp only [editor', edit', other]
    decide +kernel
  have hresults : results =
      [(['f'], .ok (.applied ['x'] one)), (['g'], .ok (.applied ['w'] other))] :=
    Batch.apply_double none _ _ rfl rfl rfl rfl hfirst hsecond
  obtain ⟨htarget, htarget'⟩ := Checkout.target?_double ['x'] ['w']
  have halone : ∀ k file result, results[k]? = some (file, result) →
      Batch.LeftAlone checkout file (results.take k) ∧ wasRefused result = false := by
    intro k file result hresult
    rw [hresults] at hresult ⊢
    rcases k with _ | _ | k
    · cases hresult
      exact ⟨fun path _ ↦ rfl, rfl⟩
    · -- the file of the first set is not the one of the second
      cases hresult
      refine ⟨fun path hpath ↦ ?_, rfl⟩
      obtain rfl : [['g']] = path := Option.some.inj (htarget'.symm.trans hpath)
      refine List.countP_eq_zero.mpr (List.forall_mem_singleton.mpr ?_)
      simp [checkout, htarget]
    · cases hresult
  obtain ⟨hentries, hcode⟩ := dry_run_foretells ⟨false⟩ checkout sets dry real rfl rfl rfl
  have hresult : results[0]? = some (['f'], .ok (.applied ['x'] one)) := by
    rw [hresults]
    rfl
  have hresult' : results[1]? = some (['g'], .ok (.applied ['w'] other)) := by
    rw [hresults]
    rfl
  obtain ⟨hbefore, hwritten⟩ := halone 0 _ _ hresult
  obtain ⟨hbefore', hwritten'⟩ := halone 1 _ _ hresult'
  obtain ⟨told, htold, hforetells⟩ := hentries 0 _ _ hresult hbefore hwritten
  obtain ⟨told', htold', hforetells'⟩ := hentries 1 _ _ hresult' hbefore' hwritten'
  obtain rfl := (hforetells.updated ['x'] one).mpr rfl
  obtain rfl := (hforetells'.updated ['w'] other).mpr rfl
  exact ⟨rfl, rfl, rfl, hresults, halone, htold, htold', hcode halone⟩

/-- A dry run says that two sets would update a file. In the real run the second is refused because
of the markers of the first. -/
theorem dry_run_misses_markers :
    let former := "x\nw\n".toList
    let one := "# + PL:a + # y\nx\nw\n".toList
    let other := "x\nw\n# + PL:b + # z\n".toList
    let checkout : Checkout := .single former
    let first : PatchSet :=
      { info := { owner := ['a'], style := .hash }
        patches := [{ file := ['f'], search := some ['x'], before := ['y'] }] }
    let second : PatchSet :=
      { info := { owner := ['b'], style := .hash }
        patches := [{ file := ['f'], search := some ['w'], after := ['z'] }] }
    let sets : List LoadedSet := [⟨"a.toml".toList, first⟩, ⟨"b.toml".toList, second⟩]
    let dry : Request := ⟨.apply, [(.dryRun, [])]⟩
    let real : Request := ⟨.apply, []⟩
    Batch.fileResults (Batch.apply sets checkout none true).1 =
        [(['f'], .ok (.wouldApply former one)), (['f'], .ok (.wouldApply former other))] ∧
      Batch.fileResults (Batch.apply sets checkout none false).1 =
        [(['f'], .ok (.applied former one)),
          (['f'], .error (.edit ['f'] none (.foreignMarkers 1 1)))] ∧
      (applyAndReport ⟨false⟩ checkout sets dry).code = 0 ∧
      (applyAndReport ⟨false⟩ checkout sets real).code = 1 := by
  intro former one other checkout first second sets dry real
  let editor : Editor :=
    { owner := ⟨['a'], by simp, List.forall_mem_singleton.mpr rfl⟩, style := .hash
      usable := by decide, scope := .file }
  let editor' : Editor :=
    { editor with owner := ⟨['b'], by simp, List.forall_mem_singleton.mpr rfl⟩ }
  let edit : Edit :=
    { anchors := [['x']], anchors_ne_nil := by simp, anchor_ne_nil := by simp
      before := ['y'] }
  let edit' : Edit :=
    { anchors := [['w']], anchors_ne_nil := by simp, anchor_ne_nil := by simp
      after := ['z'] }
  have htarget := Checkout.target?_single former
  have hholds := Checkout.holds_single former
  have hedits : first.edits ['f'] [0] = .ok [edit] := rfl
  have hedits' : second.edits ['f'] [0] = .ok [edit'] := rfl
  have hpatch : editor.patch former [edit] = .ok (.patched one) := by
    simp only [editor, edit, former, one]
    decide +kernel
  have hpatch' : editor'.patch former [edit'] = .ok (.patched other) := by
    simp only [editor, editor', edit', former, other]
    decide +kernel
  have hrefused : editor'.patch one [edit'] = .error (.foreignMarkers 1 1) := by
    simp only [editor, editor', edit', one]
    decide +kernel
  have happly : ∀ checkout dryRun, first.apply checkout none dryRun =
      PatchSet.forFiles (first.applyFile editor dryRun) checkout [(['f'], [0])] := fun _ _ ↦ rfl
  have happly' : ∀ checkout dryRun, second.apply checkout none dryRun =
      PatchSet.forFiles (second.applyFile editor' dryRun) checkout [(['f'], [0])] := fun _ _ ↦ rfl
  have hforetold : Batch.fileResults (Batch.apply sets checkout none true).1 =
      [(['f'], .ok (.wouldApply former one)), (['f'], .ok (.wouldApply former other))] := by
    obtain ⟨next, hfirst, hkept⟩ :=
      PatchSet.applyFile_of_patch htarget hholds hedits hpatch
    obtain ⟨last, hsecond, -⟩ := PatchSet.applyFile_of_patch
      ((hkept.alike.target?_eq _).trans htarget) (hkept.fs ▸ hholds) hedits' hpatch'
    simp only [sets, Batch.apply, Batch.forSets, Batch.fileResults, happly, happly', checkout,
      PatchSet.forFiles, hfirst, hsecond]
    rfl
  have hresults : Batch.fileResults (Batch.apply sets checkout none false).1 =
      [(['f'], .ok (.applied former one)),
        (['f'], .error (.edit ['f'] none (.foreignMarkers 1 1)))] := by
    have hcomposes : first.Composes editor ['f'] [0] former one := by
      refine ⟨[edit], hedits, ?_⟩
      simp only [editor, edit, former, one]
      decide +kernel
    obtain ⟨next, hfirst, hrewritten⟩ :=
      PatchSet.applyFile_of_composes htarget hholds hcomposes (.inr rfl)
    obtain ⟨last, hsecond, -⟩ := PatchSet.applyFile_of_error false
      ((hrewritten.alike.target?_eq _).trans htarget) (hrewritten.holds hholds) hedits' hrefused
    simp only [sets, Batch.apply, Batch.forSets, Batch.fileResults, happly, happly', checkout,
      PatchSet.forFiles, hfirst, hsecond]
    rfl
  refine ⟨hforetold, hresults, ?_, ?_⟩
  · have hcode : (applyAndReport ⟨false⟩ checkout sets dry).code =
        Batch.code Batch.hasFailed (Batch.apply sets checkout none true).1 := rfl
    rw [hcode, Batch.code_eq, hforetold]
    rfl
  · have hcode : (applyAndReport ⟨false⟩ checkout sets real).code =
        Batch.code Batch.hasFailed (Batch.apply sets checkout none false).1 := rfl
    rw [hcode, Batch.code_eq, hresults]
    rfl

end CommandLine

end MarkedEdits
