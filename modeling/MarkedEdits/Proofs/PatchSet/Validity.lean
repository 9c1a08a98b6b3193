import MarkedEdits.PatchSet.Load
import MarkedEdits.Proofs.Batch.Agreement

/-!
# Valid patch sets

Validation looks for issues by checks of its own. It finds none exactly in the sets that can be used
(`PatchSet.issues_eq_nil_iff`): an editor can be built for them, each of their patches declares an
edit, and the version gate can read their range. So no run of a set that has been loaded fails
because of what the set declares (`PatchSet.validate_exact`).
-/

namespace MarkedEdits

namespace Namespace

/-- The characters of a namespace are visible and belong to ASCII. -/
theorem bounds_of_isNamespaceChar {c : Char} (h : isNamespaceChar c = true) :
    0x20 < c.toNat ∧ c.toNat < 0x7f := by
  simp only [isNamespaceChar, Bool.or_eq_true, beq_iff_eq] at h
  rcases h with ((halphanum | rfl) | rfl) | rfl
  · exact Text.visible_of_isAlphanum halphanum
  all_goals decide

/-- A blank character cannot stand in a namespace. -/
theorem not_isBlank_of_isNamespaceChar {c : Char} (h : isNamespaceChar c = true) :
    Text.isBlank c = false :=
  Text.not_isBlank_of_visible (bounds_of_isNamespaceChar h)

/-- A namespace is no blank text. -/
theorem not_isBlankText (owner : Namespace) : Text.isBlankText owner.name = false := by
  obtain ⟨c, hc⟩ := List.exists_mem_of_ne_nil owner.name owner.name_ne_nil
  rw [Text.isBlankText, List.all_eq_false]
  exact ⟨c, hc, by simp [not_isBlank_of_isNamespaceChar (owner.name_legal c hc)]⟩

/-- The namespace of a name has that name. -/
theorem name_of_ofText? {name : Text} {owner : Namespace} (h : ofText? name = .ok owner) :
    owner.name = name := by
  unfold ofText? at h
  split at h
  · cases h
  · split at h
    · cases h
    · cases h
      rfl

end Namespace

namespace PatchSet

/-- What a set must declare to be used: a namespace and a style that make an editor, patches of
which each names a file and declares an edit in one way, and a version range that can be read. -/
structure Usable (set : PatchSet) : Prop where
  editor : ∃ editor, set.editor? = .ok editor
  patches : set.patches ≠ []
  file : ∀ patch ∈ set.patches, Text.isBlankText patch.file = false
  oneWay : ∀ patch ∈ set.patches, ¬ (patch.anchors ≠ [] ∧ patch.search.isSome)
  edit : ∀ patch ∈ set.patches, ∃ edit, patch.edit? = .ok edit
  range : ∀ range ∈ set.info.versionRange, Text.isBlankText range = true ∨
    ∃ requirement, Version.parseRequirement range = .ok requirement

/-! ## Issues -/

/-- A namespace has no issues when it is one. -/
theorem ownerIssues_eq_nil_iff {owner : Text} :
    ownerIssues owner = [] ↔ ∃ found, Namespace.ofText? owner = .ok found := by
  unfold ownerIssues
  cases hfound : Namespace.ofText? owner with
  | error fault => split <;> simp
  | ok found =>
      have hblank := found.not_isBlankText
      rw [Namespace.name_of_ofText? hfound] at hblank
      simp [hblank]

/-- A style has no issues when it is usable. -/
theorem styleIssues_eq_nil_iff {style : Style} : styleIssues style = [] ↔ style.fault? = none := by
  unfold styleIssues
  cases style.fault? <;> simp

/-- An editor can be built from a namespace and a usable style. -/
theorem exists_editor_iff {set : PatchSet} :
    (∃ editor, set.editor? = .ok editor) ↔
      (∃ owner, Namespace.ofText? set.info.owner = .ok owner) ∧
        set.info.style.style.fault? = none := by
  unfold editor? Editor.ofName?
  cases Namespace.ofText? set.info.owner with
  | error fault => simp
  | ok owner =>
      dsimp only
      split <;> simp_all

/-- A version range has no issues when it is left out, blank or a requirement. -/
theorem rangeIssues_eq_nil_iff {range : Option Text} :
    rangeIssues range = [] ↔ ∀ required ∈ range, Text.isBlankText required = true ∨
      ∃ requirement, Version.parseRequirement required = .ok requirement := by
  cases range with
  | none => simp [rangeIssues]
  | some required =>
      simp only [rangeIssues, Option.mem_some_iff, forall_eq']
      cases Text.isBlankText required with
      | true => simp
      | false => cases Version.parseRequirement required <;> simp

/-- Anchors make an edit when there are some and none of them is empty. -/
theorem exists_ofAnchors_iff {anchors : List Text} :
    (∃ edit, Edit.ofAnchors? anchors = .ok edit) ↔ anchors ≠ [] ∧ [] ∉ anchors := by
  unfold Edit.ofAnchors?
  by_cases hnil : anchors = []
  · simp [hnil]
  · rw [dif_neg hnil]
    split
    · next position hfound =>
        obtain ⟨hlt, hempty, -⟩ := List.findIdx?_eq_some_iff_getElem.mp hfound
        have hmem : [] ∈ anchors := (beq_iff_eq.mp hempty) ▸ List.getElem_mem hlt
        simp [hmem]
    · next hfound =>
        have hnot : [] ∉ anchors := fun hmem ↦ by
          simpa using List.findIdx?_eq_none_iff.mp hfound [] hmem
        simp [hnil, hnot]

/-- A patch declares an edit when its anchors make one. -/
theorem exists_edit_iff {patch : Patch} :
    (∃ edit, patch.edit? = .ok edit) ↔ patch.anchorList ≠ [] ∧ [] ∉ patch.anchorList := by
  rw [← exists_ofAnchors_iff]
  unfold Patch.edit?
  cases Edit.ofAnchors? patch.anchorList <;> simp

/-- A patch has no issues when it names a file and declares an edit in one way. -/
theorem patchIssues_eq_nil_iff {index : Nat} {patch : Patch} :
    patchIssues index patch = [] ↔ Text.isBlankText patch.file = false ∧
      ¬ (patch.anchors ≠ [] ∧ patch.search.isSome) ∧ ∃ edit, patch.edit? = .ok edit := by
  rw [exists_edit_iff]
  simp only [patchIssues, List.append_eq_nil_iff, and_assoc]
  refine and_congr ?_ (and_congr ?_ ?_)
  · cases Text.isBlankText patch.file <;> simp
  · split <;> simp_all
  · by_cases hnil : patch.anchorList = []
    · simp [hnil]
    · by_cases hempty : [] ∈ patch.anchorList <;> simp [hnil, hempty]

/-- Patches have no issues when each of them names a file and declares an edit in one way. -/
theorem flatMap_patchIssues_eq_nil_iff {patches : List Patch} :
    (patches.zipIdx.flatMap fun (patch, index) ↦ patchIssues index patch) = [] ↔
      ∀ patch ∈ patches, Text.isBlankText patch.file = false ∧
        ¬ (patch.anchors ≠ [] ∧ patch.search.isSome) ∧ ∃ edit, patch.edit? = .ok edit := by
  simp only [List.flatMap_eq_nil_iff, patchIssues_eq_nil_iff]
  constructor
  · intro h patch hpatch
    obtain ⟨index, hindex⟩ := List.getElem?_of_mem hpatch
    exact h (patch, index) (List.mem_zipIdx_iff_getElem?.mpr hindex)
  · intro h entry hentry
    exact h entry.1 (List.mem_of_getElem? (List.mem_zipIdx_iff_getElem?.mp hentry))

/-- A set has no issues when it can be used. -/
theorem issues_eq_nil_iff {set : PatchSet} : set.issues = [] ↔ set.Usable := by
  have hlist : (if set.patches = [] then [Issue.noPatches] else []) = [] ↔ set.patches ≠ [] := by
    split <;> simp_all
  simp only [issues, List.append_eq_nil_iff, ownerIssues_eq_nil_iff, styleIssues_eq_nil_iff,
    rangeIssues_eq_nil_iff, flatMap_patchIssues_eq_nil_iff, hlist, ← exists_editor_iff]
  constructor
  · rintro ⟨⟨⟨heditor, hrange⟩, hpatches⟩, hpatch⟩
    exact ⟨heditor, hpatches, fun patch h ↦ (hpatch patch h).1, fun patch h ↦ (hpatch patch h).2.1,
      fun patch h ↦ (hpatch patch h).2.2, hrange⟩
  · intro h
    exact ⟨⟨⟨h.editor, h.range⟩, h.patches⟩, fun patch hpatch ↦
      ⟨h.file patch hpatch, h.oneWay patch hpatch, h.edit patch hpatch⟩⟩

/-- A set is accepted when it can be used. -/
theorem validate_ok_iff {set : PatchSet} : set.validate = .ok set ↔ set.Usable := by
  rw [← issues_eq_nil_iff]
  unfold validate
  split <;> simp_all

/-- A set that a document declares can be used. -/
theorem usable_of_ofDocument {set : PatchSet} {path : Option Text} {document : Text}
    (h : ofDocument path document = .ok set) : set.Usable := by
  unfold ofDocument at h
  simp only [bind_ok_iff, mapError_ok_iff] at h
  obtain ⟨entries, -, h⟩ := h
  split at h
  · cases h
  · next declared hdeclared =>
      have hvalid := mapError_ok_iff.mp h
      unfold validate at hvalid
      split at hvalid
      · next hissues =>
          cases hvalid
          exact issues_eq_nil_iff.mp hissues
      · cases hvalid

end PatchSet

/-! ## Runs of usable sets -/

/-- The error finds fault with what a set declares: with its namespace or style, with an edit or
with its version range. -/
def TargetError.faultsSet : TargetError → Bool
  | invalidSet _ => true
  | edit _ _ cause => cause.isUnreadable
  | version (.requirement _ _) => true
  | version (.version _ _) | unreadable _ _ | unwritten _ _ _ => false

/-- The result is no failure that finds fault with what the set declares. -/
def Faultless {α : Type} (result : Except TargetError α) : Prop :=
  ∀ error, result = .error error → error.faultsSet = false

/-- The report does not tell of a failure that finds fault with what the set declares. -/
def FaultlessReport (result : Except TargetError FileReport) : Prop :=
  ∀ report, result = .ok report → report.status = .failing →
    ∃ error : TargetError, report.error = some error.message ∧ error.faultsSet = false

/-- The version gate fails only on a version that it cannot read, if nothing is required or what is
required can be read. -/
theorem Version.exists_fault_of_passes {value : Text} {range : Option Text} {error : GateError}
    (hrange : ∀ required ∈ range, Text.isBlankText required = true ∨
      ∃ requirement, parseRequirement required = .ok requirement)
    (h : passes value range = .error error) : ∃ fault, error = .version value fault := by
  cases range with
  | none => cases h
  | some required =>
      simp only [passes] at h
      split at h
      · cases h
      · next hblank =>
          obtain ⟨requirement, hrequirement⟩ := (hrange required rfl).resolve_left hblank
          cases hversion : parse (normalize value) with
          | ok version =>
              simp [hrequirement, parseTarget, hversion, Except.mapError, bind, Except.bind, pure,
                Except.pure] at h
          | error fault =>
              refine ⟨fault, ?_⟩
              simpa [hrequirement, parseTarget, hversion, Except.mapError, bind, Except.bind,
                eq_comm] using h

/-- A failure of a text to be written finds no fault with the set. -/
theorem PatchSet.not_faultsSet_of_finish {checkout : Checkout} {file former : Text} {dryRun : Bool}
    {outcome : Outcome} {error : TargetError}
    (h : (finish checkout file former dryRun outcome).1 = .error error) :
    error.faultsSet = false := by
  rcases finish_cases checkout file former dryRun outcome with
    hsame | ⟨updated, htold⟩ | ⟨updated, hwritten⟩ | ⟨updated, cause, hfailed⟩
  · simp [hsame] at h
  · simp [htold] at h
  · simp [hwritten] at h
  · cases hfailed.symm.trans h
    rfl

namespace PatchSet.Usable

variable {set : PatchSet} (h : set.Usable) {editor : Editor} {checkout : Checkout}
  {version : Option Text} {dryRun : Bool} {error : TargetError}

include h

/-- The version gate and the editor find no fault with the set. -/
theorem not_faultsSet_of_admission (hadmission : set.admission version = .error error) :
    error.faultsSet = false := by
  obtain ⟨known, cause, hpasses, rfl⟩ | ⟨cause, hcause, -⟩ := admission_error_cases hadmission
  · obtain ⟨fault, rfl⟩ := Version.exists_fault_of_passes h.range hpasses
    rfl
  · obtain ⟨editor, heditor⟩ := h.editor
    rw [heditor] at hcause
    cases hcause

/-- Every patch declares an edit. -/
theorem edits_ne_error (file : Text) (indices : List Nat) :
    set.edits file indices ≠ .error error := by
  intro herror
  obtain ⟨index, patch, cause, hpatch, hcause, -⟩ := exists_patch_of_edits herror
  obtain ⟨edit, hedit⟩ := h.edit patch (List.mem_of_getElem? hpatch)
  rw [hedit] at hcause
  cases hcause

/-- Applying the set to a file finds no fault with it. -/
theorem not_faultsSet_of_applyFile (file : Text) (indices : List Nat)
    (herror : (set.applyFile editor dryRun checkout file indices).1 = .error error) :
    error.faultsSet = false := by
  unfold applyFile at herror
  split at herror
  · cases herror
    rfl
  · split at herror
    · next hedits => exact absurd hedits (h.edits_ne_error file indices)
    · split at herror
      · next hpatch =>
          cases herror
          exact Editor.not_isUnreadable_of_patch hpatch
      · exact not_faultsSet_of_finish herror

end PatchSet.Usable

/-- Reverting a file finds no fault with a set. -/
theorem PatchSet.faultless_revertFile (editor : Editor) (dryRun : Bool) (checkout : Checkout)
    (file : Text) : Faultless (revertFile editor dryRun checkout file).1 := by
  intro error herror
  unfold revertFile at herror
  split at herror
  · cases herror
    rfl
  · exact not_faultsSet_of_finish herror

namespace Entry

variable {entry : Entry} (h : entry.set.Usable) (checkout : Checkout) (version : Option Text)
  (dryRun : Bool)

include h

/-- Applying an entry of a usable set finds no fault with the set. -/
theorem faultless_apply : Faultless (entry.apply version dryRun checkout).1 := by
  intro error herror
  unfold apply admitted at herror
  split at herror
  · next hadmission =>
      cases herror
      exact h.not_faultsSet_of_admission hadmission
  · cases herror
  · exact h.not_faultsSet_of_applyFile entry.file entry.indices herror

/-- Reverting an entry of a usable set finds no fault with the set. -/
theorem faultless_revert : Faultless (entry.revert dryRun checkout).1 := by
  obtain ⟨editor, heditor⟩ := h.editor
  have hprepare : entry.set.prepare = .ok editor := mapError_ok_iff.mpr heditor
  simp only [revert, hprepare]
  exact PatchSet.faultless_revertFile editor dryRun checkout entry.file

/-- Checking an entry of a usable set finds no fault with the set. -/
theorem faultless_check : Faultless (entry.check version checkout).1 := by
  intro error herror
  obtain ⟨-, hagrees⟩ := entry.check_agrees version checkout
  exact faultless_apply h checkout version true error ((hagrees.failed error).mp herror).1

/-- The report on an entry of a usable set finds no fault with the set. -/
theorem faultlessReport_check : FaultlessReport (entry.check version checkout).1 := by
  intro report hreport hfailing
  obtain ⟨-, hagrees⟩ := entry.check_agrees version checkout
  obtain ⟨error, hforetold, -⟩ := hagrees.failing.mp ⟨report, hreport, hfailing⟩
  exact ⟨error, hagrees.message report error hreport hforetold,
    faultless_apply h checkout version true error hforetold⟩

end Entry

namespace PatchSet

/-- What is true of every step on an entry of a set is true of the results of a visit to all of
them. -/
theorem forall_mem_visit {α : Type} {set : PatchSet} {step : Entry → Checkout → α × Checkout}
    {p : α → Prop} (h : ∀ entry checkout, entry.set = set → p (step entry checkout).1)
    (checkout : Checkout) : ∀ found ∈ (Batch.visit step checkout set.entries).1, p found.2 := by
  intro found hfound
  obtain ⟨entry, hentry, current, -, rfl⟩ :=
    Batch.exists_of_mem_visit (motive := fun _ ↦ True) trivial (fun _ _ _ ↦ trivial) hfound
  exact h entry current (set_of_mem_entries hentry)

/-- Validation accepts a set exactly if it can be used. So whatever the files hold and whatever the
version of the target is, no run of a set that a document declares fails because of what the set
declares. -/
theorem validate_exact (set : PatchSet) :
    (set.validate = .ok set ↔ set.Usable) ∧
      ∀ path document, ofDocument path document = .ok set → ∀ checkout version dryRun,
        (∀ found ∈ (set.apply checkout version dryRun).1, Faultless found.2) ∧
        (∀ found ∈ (set.revert checkout dryRun).1, Faultless found.2) ∧
        ∀ found ∈ (set.check checkout version).1, Faultless found.2 ∧ FaultlessReport found.2 := by
  refine ⟨validate_ok_iff, fun path document hdocument checkout version dryRun ↦ ?_⟩
  have husable : ∀ entry : Entry, entry.set = set → entry.set.Usable := by
    rintro entry rfl
    exact usable_of_ofDocument hdocument
  rw [apply_eq_visit, revert_eq_visit, check_eq_visit]
  refine ⟨?_, ?_, ?_⟩
  · exact forall_mem_visit
      (fun entry current h ↦ Entry.faultless_apply (husable entry h) current version dryRun)
      checkout
  · exact forall_mem_visit
      (fun entry current h ↦ Entry.faultless_revert (husable entry h) current dryRun) checkout
  · exact forall_mem_visit (p := fun result ↦ Faultless result ∧ FaultlessReport result)
      (fun entry current h ↦ ⟨Entry.faultless_check (husable entry h) current version,
        Entry.faultlessReport_check (husable entry h) current version⟩)
      checkout

/-- A set with a version range is loaded. The gate then fails on a target that tells no version, and
on nothing that the set declares. -/
theorem validate_exact_gated :
    let document := "[meta]\nnamespace='a'\nversion_range='>=1'\n[[patches]]\nfile='f'\nsearch='x'"
    let set : PatchSet :=
      { info := { owner := ['a'], versionRange := some ">=1".toList }
        patches := [{ file := ['f'], search := some ['x'] }] }
    let checkout : Checkout := .single ['x']
    ofDocument none document.toList = .ok set ∧ set.Usable ∧
      (set.apply checkout (some ['?']) false).1 =
        [(['f'], .error (.version (.version ['?'] (.unexpectedChar .major '?'))))] ∧
      ∀ found ∈ (set.apply checkout (some ['?']) false).1, Faultless found.2 := by
  intro document set checkout
  have hdocument : ofDocument none document.toList = .ok set := by
    refine toOption_eq_some_iff.mp ?_
    simp only [document, set]
    decide +kernel
  have hexact := validate_exact set
  have hvalid : set.validate = .ok set := if_pos (by simp only [set]; decide +kernel)
  have hgate : set.admission (some ['?']) =
      .error (.version (.version ['?'] (.unexpectedChar .major '?'))) := by
    rfl
  have hrun : (set.apply checkout (some ['?']) false).1 =
      [(['f'], .error (.version (.version ['?'] (.unexpectedChar .major '?'))))] := by
    simp only [apply, hgate]
    rfl
  exact ⟨hdocument, hexact.1.mp hvalid, hrun,
    (hexact.2 none document.toList hdocument checkout (some ['?']) false).1⟩

end PatchSet

end MarkedEdits
