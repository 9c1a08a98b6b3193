import MarkedEdits.PatchSet.Run
import MarkedEdits.Proofs.PatchSet.Groups
import MarkedEdits.Proofs.Session.Basic

/-!
# Steps of a run over files

`Trial` says once what a step of a run can come to, for applying (`PatchSet.applyFile_trial`) and
for reverting (`PatchSet.revertFile_trial`). A step that is not dry leaves the text that it comes to
in the target of its file, unless the operating system refuses that, and keeps all other files
(`Effect`). So a run keeps where paths lead (`PatchSet.alike_forFiles`), and all files that no name
leads to (`PatchSet.lookup_forFiles`).
-/

namespace MarkedEdits

/-- What is reported of a file whose text has come to a composed one. -/
def FileResult.between (former composed : Text) : FileResult :=
  if composed = former then unchanged else applied former composed

/-- The text that the error keeps because it could not be written. -/
def TargetError.text? : TargetError → Option Text
  | unwritten _ text _ => some text
  | _ => none

/-- What a step can come to, when `makes` relates the texts that it may find to those that it makes
of them. It fails if it finds no text or makes none. A text that is not new is left as it is. A new
one is told of by a dry run, and otherwise written or refused by the operating system. -/
inductive Trial (dryRun : Bool) (checkout : Checkout) (file : Text) (makes : Text → Text → Prop) :
    Except TargetError FileResult × Checkout → Prop where
  | failing (error : TargetError) (next : Checkout) (kept : Checkout.Kept checkout next)
      (untold : error.text? = none)
      (unmade : ∀ path former composed mode, checkout.target? file = some path →
        checkout.fs.Holds path former mode → ¬ makes former composed) :
      Trial dryRun checkout file makes (.error error, next)
  | unchanged (path : Path) (t : Text) (mode : Nat) (next : Checkout)
      (target : checkout.target? file = some path) (holds : checkout.fs.Holds path t mode)
      (made : makes t t) (kept : Checkout.Kept checkout next) :
      Trial dryRun checkout file makes (.ok .unchanged, next)
  | foretold (path : Path) (former updated : Text) (mode : Nat) (next : Checkout)
      (dry : dryRun = true) (target : checkout.target? file = some path)
      (holds : checkout.fs.Holds path former mode) (made : makes former updated)
      (new : updated ≠ former) (kept : Checkout.Kept checkout next) :
      Trial dryRun checkout file makes (.ok (.wouldApply former updated), next)
  | unwritten (path : Path) (former updated : Text) (mode : Nat) (cause : SystemError)
      (next : Checkout) (real : dryRun = false) (target : checkout.target? file = some path)
      (holds : checkout.fs.Holds path former mode) (made : makes former updated)
      (new : updated ≠ former) (refusal : checkout.fs.refusal? path = some cause)
      (kept : Checkout.Kept checkout next) :
      Trial dryRun checkout file makes (.error (.unwritten file updated (.system cause)), next)
  | applied (path : Path) (former updated : Text) (next : Checkout) (real : dryRun = false)
      (target : checkout.target? file = some path) (made : makes former updated)
      (new : updated ≠ former) (allowed : checkout.fs.refusal? path = none)
      (rewritten : Checkout.Rewritten checkout next path former updated) :
      Trial dryRun checkout file makes (.ok (.applied former updated), next)

/-- What a step that is not dry makes of a file and a checkout. It fails if it finds no text or
comes to none, or if the operating system refuses the text. Otherwise it leaves the text in the
target. -/
inductive Effect (checkout : Checkout) (file : Text) (makes : Text → Text → Prop) :
    Except TargetError FileResult × Checkout → Prop where
  | failing (error : TargetError) (next : Checkout) (kept : Checkout.Kept checkout next)
      (unmade : ∀ path former composed mode, checkout.target? file = some path →
        checkout.fs.Holds path former mode → ¬ makes former composed) :
      Effect checkout file makes (.error error, next)
  | unwritten (path : Path) (former composed : Text) (mode : Nat) (cause : SystemError)
      (next : Checkout) (target : checkout.target? file = some path)
      (holds : checkout.fs.Holds path former mode) (made : makes former composed)
      (new : composed ≠ former) (refusal : checkout.fs.refusal? path = some cause)
      (kept : Checkout.Kept checkout next) :
      Effect checkout file makes (.error (.unwritten file composed (.system cause)), next)
  | composing (path : Path) (former composed : Text) (next : Checkout)
      (target : checkout.target? file = some path) (made : makes former composed)
      (allowed : composed = former ∨ checkout.fs.refusal? path = none)
      (rewritten : Checkout.Rewritten checkout next path former composed) :
      Effect checkout file makes (.ok (.between former composed), next)

namespace Effect

variable {checkout : Checkout} {file : Text} {makes : Text → Text → Prop}
  {outcome : Except TargetError FileResult × Checkout}

/-- A step keeps all files, or it leaves in its target what it makes of the text there. -/
theorem leaves (h : Effect checkout file makes outcome) :
    Checkout.Kept checkout outcome.2 ∨ ∃ path former composed,
      checkout.target? file = some path ∧ makes former composed ∧
        Checkout.Rewritten checkout outcome.2 path former composed := by
  cases h with
  | failing error next kept unmade => exact .inl kept
  | unwritten path former composed mode cause next target holds made new refusal kept =>
      exact .inl kept
  | composing path former composed next target made allowed rewritten =>
      exact .inr ⟨path, former, composed, target, made, rewritten⟩

/-- A step keeps where paths lead. -/
theorem alike (h : Effect checkout file makes outcome) : outcome.2.Alike checkout := by
  rcases h.leaves with kept | ⟨path, former, composed, -, -, rewritten⟩
  · exact kept.alike
  · exact rewritten.alike

/-- A step keeps all files but its target. -/
theorem lookup_of_ne (h : Effect checkout file makes outcome) {path : Path}
    (hne : checkout.target? file ≠ some path) :
    outcome.2.fs.lookup path = checkout.fs.lookup path := by
  rcases h.leaves with kept | ⟨target, former, composed, htarget, -, rewritten⟩
  · rw [kept.fs]
  · refine rewritten.lookup_of_ne fun heq ↦ ?_
    rw [heq, htarget] at hne
    exact hne rfl

/-- A step keeps a file that the operating system does not let it write. -/
theorem lookup_of_refusal (h : Effect checkout file makes outcome) {path : Path}
    (hrefusal : checkout.fs.refusal? path ≠ none) :
    outcome.2.fs.lookup path = checkout.fs.lookup path := by
  cases h with
  | failing error next kept unmade => rw [kept.fs]
  | unwritten target former composed mode cause next htarget holds made new refusal kept =>
      rw [kept.fs]
  | composing target former composed next htarget made allowed rewritten =>
      by_cases hpath : path = target
      · subst hpath
        obtain ⟨mode, hformer, -⟩ := rewritten.file
        obtain rfl : composed = former := allowed.resolve_right hrefusal
        exact (rewritten.holds hformer).trans hformer.symm
      · exact rewritten.lookup_of_ne hpath

/-- A step that makes only one text out of the one that it finds leaves it there, unless it is new
and the operating system refuses it. -/
theorem cases_of_makes (h : Effect checkout file makes outcome) {path : Path}
    {former composed : Text} {mode : Nat} (htarget : checkout.target? file = some path)
    (hholds : checkout.fs.Holds path former mode) (hmade : makes former composed)
    (hunique : ∀ other, makes former other → other = composed) :
    (∃ next, outcome = (.ok (.between former composed), next) ∧
        (composed = former ∨ checkout.fs.refusal? path = none) ∧
        Checkout.Rewritten checkout next path former composed) ∨
      ∃ cause next, outcome = (.error (.unwritten file composed (.system cause)), next) ∧
        composed ≠ former ∧ checkout.fs.refusal? path = some cause ∧
        Checkout.Kept checkout next := by
  cases h with
  | failing error next kept unmade =>
      exact absurd hmade (unmade path former composed mode htarget hholds)
  | unwritten target found made mode cause next htarget' hfound hmade' new refusal kept =>
      obtain rfl : target = path := Option.some.inj (htarget'.symm.trans htarget)
      obtain ⟨rfl, -⟩ := hfound.unique hholds
      obtain rfl := hunique made hmade'
      exact .inr ⟨cause, next, rfl, new, refusal, kept⟩
  | composing target found made next htarget' hmade' allowed rewritten =>
      obtain rfl : target = path := Option.some.inj (htarget'.symm.trans htarget)
      obtain ⟨mode', hfound, -⟩ := rewritten.file
      obtain ⟨rfl, -⟩ := hfound.unique hholds
      obtain rfl := hunique made hmade'
      exact .inl ⟨next, rfl, allowed, rewritten⟩

end Effect

namespace PatchSet

variable {checkout next : Checkout} {file former : Text}

/-! ## Applying and reverting one file -/

/-- Finishing a file tells that it is unchanged, of its new text, or why that could not be
written. -/
theorem finish_cases (checkout : Checkout) (file former : Text) (dryRun : Bool)
    (outcome : Outcome) :
    (finish checkout file former dryRun outcome).1 = .ok .unchanged ∨
      (∃ updated, (finish checkout file former dryRun outcome).1 =
        .ok (.wouldApply former updated)) ∨
      (∃ updated, (finish checkout file former dryRun outcome).1 =
        .ok (.applied former updated)) ∨
      ∃ updated cause, (finish checkout file former dryRun outcome).1 =
        .error (.unwritten file updated cause) := by
  unfold finish
  split
  · next updated =>
      cases dryRun with
      | true => exact .inr (.inl ⟨updated, rfl⟩)
      | false =>
          cases hwrite : checkout.write file updated with
          | ok next => exact .inr (.inr (.inl ⟨updated, rfl⟩))
          | error cause => exact .inr (.inr (.inr ⟨updated, cause, rfl⟩))
  · exact .inl rfl

/-- A file that has just been read is finished with a text that the step makes of it. -/
theorem finish_trial {makes : Text → Text → Prop} {composed : Text} (dryRun : Bool)
    (h : checkout.read file = .ok (former, next)) (hmade : makes former composed) :
    Trial dryRun checkout file makes
      (finish next file former dryRun (.between former composed)) := by
  obtain ⟨path, mode, htarget, hholds, -⟩ := Checkout.read_ok_iff.mp h
  have hkept := Checkout.kept_of_read h
  unfold Outcome.between
  split_ifs with hsame
  · subst hsame
    exact .unchanged path composed mode next htarget hholds hmade hkept
  · cases dryRun with
    | true => exact .foretold path former composed mode next rfl htarget hholds hmade hsame hkept
    | false =>
        simp only [finish, Bool.false_eq_true, if_false]
        cases hrefusal : checkout.fs.refusal? path with
        | some cause =>
            rw [Checkout.write_of_refusal h htarget hrefusal]
            exact .unwritten path former composed mode cause next rfl htarget hholds hmade hsame
              hrefusal hkept
        | none =>
            obtain ⟨last, hwrite, hrewritten⟩ :=
              Checkout.write_of_read h htarget hrefusal composed
            rw [hwrite]
            exact .applied path former composed last rfl htarget hmade hsame hrefusal hrewritten

end PatchSet

namespace Trial

variable {checkout : Checkout} {file : Text} {makes : Text → Text → Prop}
  {outcome : Except TargetError FileResult × Checkout}

/-- A step that is not dry has an effect. -/
theorem effect (h : Trial false checkout file makes outcome) :
    Effect checkout file makes outcome := by
  cases h with
  | failing error next kept untold unmade => exact .failing error next kept unmade
  | unchanged path t mode next target holds made kept =>
      -- the text is not written, and stands in the file already
      have hrewritten : Checkout.Rewritten checkout next path t t := by
        refine ⟨kept.root, by rw [kept.fs], mode, holds, fun other ↦ ?_⟩
        rw [kept.fs]
        split
        · next hother => exact hother ▸ holds
        · rfl
      have heffect := Effect.composing path t t next target made (.inl rfl) hrewritten
      rwa [FileResult.between, if_pos rfl] at heffect
  | foretold path former updated mode next dry target holds made new kept => cases dry
  | unwritten path former updated mode cause next real target holds made new refusal kept =>
      exact .unwritten path former updated mode cause next target holds made new refusal kept
  | applied path former updated next real target made new allowed rewritten =>
      have heffect :=
        Effect.composing path former updated next target made (.inr allowed) rewritten
      rwa [FileResult.between, if_neg new] at heffect

/-- A step of a dry run keeps all files. -/
theorem kept (h : Trial true checkout file makes outcome) :
    Checkout.Kept checkout outcome.2 := by
  cases h with
  | failing error next kept untold unmade => exact kept
  | unchanged path t mode next target holds made kept => exact kept
  | foretold path former updated mode next dry target holds made new kept => exact kept
  | unwritten path former updated mode cause next real target holds made new refusal kept =>
      cases real
  | applied path former updated next real target made new allowed rewritten => cases real

end Trial

/-- The run reports that it has written to the file that a name leads to. -/
def wasWritten : Except TargetError FileResult → Bool
  | .ok (.applied _ _) => true
  | _ => false

/-- The run reports that it could not write to the file. -/
def wasRefused : Except TargetError FileResult → Bool
  | .ok _ => false
  | .error error => error.text?.isSome

/-- A text is written when it is new. -/
theorem wasWritten_between {former composed : Text} :
    wasWritten (.ok (.between former composed)) = true ↔ composed ≠ former := by
  unfold FileResult.between
  split
  · next heq => simp [wasWritten, heq]
  · next hne => simp [wasWritten, hne]

/-- A step reports that it has written to a file exactly when its target has changed. -/
theorem Effect.wasWritten_iff {checkout : Checkout} {name : Text} {makes : Text → Text → Prop}
    {outcome : Except TargetError FileResult × Checkout} (h : Effect checkout name makes outcome) :
    wasWritten outcome.1 = true ↔ ∃ path, checkout.target? name = some path ∧
      outcome.2.fs.lookup path ≠ checkout.fs.lookup path := by
  cases h with
  | failing error next kept unmade => simp [wasWritten, kept.fs]
  | unwritten path former composed mode cause next target holds made new refusal kept =>
      simp [wasWritten, kept.fs]
  | composing path former composed next target made allowed rewritten =>
      obtain ⟨mode, hformer, -⟩ := rewritten.file
      have hchanged : next.fs.lookup path ≠ checkout.fs.lookup path ↔ composed ≠ former := by
        rw [rewritten.holds hformer, hformer]
        simp [FileSystem.encode_injective.eq_iff]
      simp only [target, Option.some.injEq, exists_eq_left', hchanged, wasWritten_between]

namespace PatchSet

variable {set : PatchSet} {editor : Editor} {checkout : Checkout} {file former : Text}

/-- The patches at the positions make the composed text out of the former one. -/
def Composes (set : PatchSet) (editor : Editor) (file : Text) (indices : List Nat)
    (former composed : Text) : Prop :=
  ∃ edits, set.edits file indices = .ok edits ∧
    (editor.evaluate (editor.revert former) edits).1 = .ok composed

/-- The patches make one text out of another. -/
theorem Composes.unique {indices : List Nat} {a b : Text}
    (ha : set.Composes editor file indices former a)
    (hb : set.Composes editor file indices former b) : a = b := by
  obtain ⟨edits, hedits, ha⟩ := ha
  obtain ⟨edits', hedits', hb⟩ := hb
  rw [hedits] at hedits'
  cases hedits'
  exact Except.ok.inj (ha.symm.trans hb)

/-- Applying the patches of a file comes to the text that they make out of the one in the file. -/
theorem applyFile_trial (set : PatchSet) (editor : Editor) (dryRun : Bool) (checkout : Checkout)
    (file : Text) (indices : List Nat) :
    Trial dryRun checkout file (set.Composes editor file indices)
      (set.applyFile editor dryRun checkout file indices) := by
  unfold applyFile
  cases hread : checkout.read file with
  | error cause =>
      exact .failing _ _ ⟨rfl, rfl⟩ rfl fun _ _ _ _ htarget hholds ↦
        absurd hholds (Checkout.not_holds_of_read hread htarget)
  | ok found =>
      obtain ⟨former, next⟩ := found
      have hkept := Checkout.kept_of_read hread
      cases hedits : set.edits file indices with
      | error error =>
          refine .failing _ _ hkept ?_ ?_
          · obtain ⟨index, patch, cause, -, -, rfl⟩ := exists_patch_of_edits hedits
            rfl
          · intro path t composed mode _ _ hcomposes
            obtain ⟨edits, h, -⟩ := hcomposes
            rw [hedits] at h
            cases h
      | ok edits =>
          dsimp only
          cases hpatch : editor.patch former edits with
          | error cause =>
              refine .failing _ _ hkept rfl ?_
              intro path t composed mode htarget hholds hcomposes
              obtain rfl : t = former := Checkout.eq_of_read hread htarget hholds
              obtain ⟨edits', h, heval⟩ := hcomposes
              rw [hedits] at h
              cases h
              have hok := Editor.patch_ok_iff.mpr ⟨composed, heval, rfl⟩
              rw [hpatch] at hok
              cases hok
          | ok outcome =>
              obtain ⟨composed, heval, rfl⟩ := Editor.patch_ok_iff.mp hpatch
              exact finish_trial dryRun hread ⟨edits, hedits, heval⟩

/-- Reverting a file comes to the reverted text. -/
theorem revertFile_trial (editor : Editor) (dryRun : Bool) (checkout : Checkout) (file : Text) :
    Trial dryRun checkout file (fun former composed ↦ composed = editor.revert former)
      (revertFile editor dryRun checkout file) := by
  unfold revertFile
  cases hread : checkout.read file with
  | error cause =>
      exact .failing _ _ ⟨rfl, rfl⟩ rfl fun _ _ _ _ htarget hholds ↦
        absurd hholds (Checkout.not_holds_of_read hread htarget)
  | ok found => exact finish_trial dryRun hread rfl

/-- Applying the patches of a file leaves the text that they make out of the one in the file. -/
theorem applyFile_effect (set : PatchSet) (editor : Editor) (checkout : Checkout) (file : Text)
    (indices : List Nat) :
    Effect checkout file (set.Composes editor file indices)
      (set.applyFile editor false checkout file indices) :=
  (applyFile_trial set editor false checkout file indices).effect

/-- Reverting a file leaves the reverted text. -/
theorem revertFile_effect (editor : Editor) (checkout : Checkout) (file : Text) :
    Effect checkout file (fun former composed ↦ composed = editor.revert former)
      (revertFile editor false checkout file) :=
  (revertFile_trial editor false checkout file).effect

/-- The text that the patches make out of the one in the file is left there, if the operating system
lets it be written. -/
theorem applyFile_of_composes {indices : List Nat} {path : Path} {mode : Nat} {composed : Text}
    (htarget : checkout.target? file = some path) (hholds : checkout.fs.Holds path former mode)
    (hcomposes : set.Composes editor file indices former composed)
    (hallowed : composed = former ∨ checkout.fs.refusal? path = none) :
    ∃ next, set.applyFile editor false checkout file indices =
        (.ok (.between former composed), next) ∧
      Checkout.Rewritten checkout next path former composed := by
  rcases (applyFile_effect set editor checkout file indices).cases_of_makes htarget hholds hcomposes
    fun other hother ↦ hother.unique hcomposes with
    ⟨next, happly, -, hrewritten⟩ | ⟨cause, next, -, hnew, hrefusal, -⟩
  · exact ⟨next, happly, hrewritten⟩
  · rw [hallowed.resolve_left hnew] at hrefusal
    cases hrefusal

/-- A new text that the patches make out of the one in the file is kept by the error if the
operating system refuses it. -/
theorem applyFile_of_refusal {indices : List Nat} {path : Path} {mode : Nat} {composed : Text}
    {cause : SystemError} (htarget : checkout.target? file = some path)
    (hholds : checkout.fs.Holds path former mode)
    (hcomposes : set.Composes editor file indices former composed) (hnew : composed ≠ former)
    (hrefusal : checkout.fs.refusal? path = some cause) :
    ∃ next, set.applyFile editor false checkout file indices =
        (.error (.unwritten file composed (.system cause)), next) ∧
      Checkout.Kept checkout next := by
  rcases (applyFile_effect set editor checkout file indices).cases_of_makes htarget hholds hcomposes
    fun other hother ↦ hother.unique hcomposes with
    ⟨next, -, hallowed, -⟩ | ⟨cause', next, happly, -, hrefusal', hkept⟩
  · rw [hallowed.resolve_left hnew] at hrefusal
    cases hrefusal
  · obtain rfl : cause' = cause := Option.some.inj (hrefusal'.symm.trans hrefusal)
    exact ⟨next, happly, hkept⟩

/-- The reverted text is left in the file, if the operating system lets it be written. -/
theorem revertFile_of_holds {path : Path} {mode : Nat} (editor : Editor)
    (htarget : checkout.target? file = some path) (hholds : checkout.fs.Holds path former mode)
    (hallowed : checkout.fs.refusal? path = none) :
    ∃ next, revertFile editor false checkout file =
        (.ok (.between former (editor.revert former)), next) ∧
      Checkout.Rewritten checkout next path former (editor.revert former) := by
  rcases (revertFile_effect editor checkout file).cases_of_makes htarget hholds rfl
    fun other hother ↦ hother with
    ⟨next, hrevert, -, hrewritten⟩ | ⟨cause, next, -, -, hrefusal, -⟩
  · exact ⟨next, hrevert, hrewritten⟩
  · rw [hallowed] at hrefusal
    cases hrefusal

/-- Every step of applying a set has an effect. -/
theorem exists_effect_applyFile (set : PatchSet) (editor : Editor) (checkout : Checkout)
    (file : Text) (indices : List Nat) :
    ∃ makes, Effect checkout file makes (set.applyFile editor false checkout file indices) :=
  ⟨_, applyFile_effect set editor checkout file indices⟩

/-! ## Runs -/

section Runs

variable {α : Type} {step : Checkout → Text → List Nat → α × Checkout}
  {groups : List (Text × List Nat)}

/-- A run over more files goes on with the checkout that is left by the first ones. -/
theorem forFiles_append (step : Checkout → Text → List Nat → α × Checkout) (checkout : Checkout)
    (groups others : List (Text × List Nat)) :
    forFiles step checkout (groups ++ others) =
      let first := forFiles step checkout groups
      let second := forFiles step first.2 others
      (first.1 ++ second.1, second.2) := by
  induction groups generalizing checkout with
  | nil => rfl
  | cons group rest ih =>
      simp only [List.cons_append, forFiles, ih]

/-- What a run over the names before a name leaves is what the step on that name finds. -/
theorem forFiles_middle (step : Checkout → Text → List Nat → α × Checkout) (checkout : Checkout)
    (before : List (Text × List Nat)) (name : Text) (indices : List Nat)
    (after : List (Text × List Nat)) :
    forFiles step checkout (before ++ (name, indices) :: after) =
      let first := forFiles step checkout before
      let outcome := step first.2 name indices
      let last := forFiles step outcome.2 after
      (first.1 ++ (name, outcome.1) :: last.1, last.2) :=
  forFiles_append step checkout before ((name, indices) :: after)

/-- There is one result for every name, in their order. -/
theorem map_fst_forFiles : (forFiles step checkout groups).1.map (·.1) = groups.map (·.1) := by
  induction groups generalizing checkout with
  | nil => rfl
  | cons group rest ih => simp only [forFiles, List.map_cons, ih]

/-- What holds before a run and is passed on from file to file holds after the run. -/
theorem forFiles_induction {motive : List (Text × List Nat) → Checkout → Prop}
    (hstart : motive groups checkout)
    (hstep : ∀ file indices rest checkout, motive ((file, indices) :: rest) checkout →
      motive rest (step checkout file indices).2) :
    motive [] (forFiles step checkout groups).2 := by
  induction groups generalizing checkout with
  | nil => exact hstart
  | cons group rest ih => exact ih (hstep group.1 group.2 rest checkout hstart)

end Runs

section Effects

variable {step : Checkout → Text → List Nat → Except TargetError FileResult × Checkout}
  (hstep : ∀ checkout file indices, ∃ makes,
    Effect checkout file makes (step checkout file indices))
  {groups : List (Text × List Nat)}

include hstep

/-- A run keeps where paths lead. -/
theorem alike_forFiles : (forFiles step checkout groups).2.Alike checkout := by
  refine forFiles_induction (motive := fun _ current ↦ current.Alike checkout) (.refl _) ?_
  intro file indices rest current halike
  obtain ⟨makes, heffect⟩ := hstep current file indices
  exact heffect.alike.trans halike

/-- A run keeps all files that none of its names leads to. -/
theorem lookup_forFiles {path : Path}
    (h : ∀ group ∈ groups, checkout.target? group.1 ≠ some path) :
    (forFiles step checkout groups).2.fs.lookup path = checkout.fs.lookup path := by
  refine forFiles_induction
    (motive := fun rest current ↦ (∀ group ∈ rest, checkout.target? group.1 ≠ some path) ∧
      current.Alike checkout ∧ current.fs.lookup path = checkout.fs.lookup path)
    ⟨h, .refl _, rfl⟩ ?_ |>.2.2
  intro file indices rest current h
  obtain ⟨hnames, halike, hlookup⟩ := h
  obtain ⟨hfile, hrest⟩ := List.forall_mem_cons.mp hnames
  obtain ⟨makes, heffect⟩ := hstep current file indices
  refine ⟨hrest, heffect.alike.trans halike, ?_⟩
  rw [heffect.lookup_of_ne (halike.target?_eq file ▸ hfile), hlookup]

end Effects

/-! ## Sets -/

/-- A set goes through its files with its own editor. -/
theorem editor_of_admission {version : Option Text}
    (h : set.admission version = .ok (.run editor)) : set.editor? = .ok editor := by
  have hprepare : set.prepare.map Admission.run = .ok (.run editor) := by
    unfold admission at h
    cases version with
    | none => exact h
    | some version =>
        dsimp only at h
        split at h
        · cases h
        · cases h
        · exact h
  obtain ⟨editor', heditor, ⟨⟩⟩ := map_ok_iff.mp hprepare
  exact mapError_ok_iff.mp heditor

/-- A set is let pass by the version gate and has an editor, or fails on one of them. -/
theorem admission_error_cases {version : Option Text} {error : TargetError}
    (h : set.admission version = .error error) :
    (∃ known cause, Version.passes known set.info.versionRange = .error cause ∧
        error = .version cause) ∨
      ∃ cause, set.editor? = .error cause ∧ error = .invalidSet cause := by
  have hrun : set.prepare.map Admission.run = .error error →
      ∃ cause, set.editor? = .error cause ∧ error = .invalidSet cause := by
    intro h
    obtain ⟨cause, heditor, rfl⟩ := mapError_error_iff.mp (map_error_iff.mp h)
    exact ⟨cause, heditor, rfl⟩
  unfold admission at h
  cases version with
  | none => exact .inr (hrun h)
  | some known =>
      dsimp only at h
      split at h
      · next cause hpasses =>
          cases h
          exact .inl ⟨known, cause, hpasses, rfl⟩
      · cases h
      · exact .inr (hrun h)

/-- The file was written, or is as it should be. -/
def Done (result : Except TargetError FileResult) : Prop :=
  result = .ok .unchanged ∨ ∃ former updated, result = .ok (.applied former updated)

/-- A step that comes to a text is done. -/
theorem done_between (former composed : Text) : Done (.ok (.between former composed)) := by
  unfold FileResult.between
  split
  · exact .inl rfl
  · exact .inr ⟨former, composed, rfl⟩

/-- A step that fails is not done. -/
theorem not_done_error (error : TargetError) : ¬ Done (.error error) := by
  simp [Done]

/-- How often a run with these results has written to the file at the path. -/
def writesTo (checkout : Checkout) (path : Path) (results : FileResults FileResult) : Nat :=
  results.countP fun entry ↦ checkout.target? entry.1 = some path ∧ wasWritten entry.2

/-- A set that is not let pass keeps all files and reports the same of all its names. Otherwise it
goes through them. -/
theorem apply_cases (set : PatchSet) (checkout : Checkout) (version : Option Text) :
    (∃ result, ¬ Done result ∧ set.apply checkout version false =
        (set.names.map fun name ↦ (name, result), checkout)) ∨
      ∃ editor, set.editor? = .ok editor ∧ set.apply checkout version false =
        forFiles (set.applyFile editor false) checkout (set.grouped set.names) := by
  unfold apply
  rw [files_eq]
  cases hadmission : set.admission version with
  | error error =>
      refine .inl ⟨.error error, not_done_error error, ?_⟩
      simp [grouped, Function.comp_def]
  | ok admission =>
      cases admission with
      | skip reason =>
          refine .inl ⟨.ok (.skipped reason), by simp [Done], ?_⟩
          simp [grouped, Function.comp_def]
      | run editor => exact .inr ⟨editor, editor_of_admission hadmission, rfl⟩

/-- There is one result for every name of the set. -/
theorem map_fst_apply (set : PatchSet) (checkout : Checkout) (version : Option Text) :
    (set.apply checkout version false).1.map (·.1) = set.names := by
  rcases apply_cases set checkout version with ⟨result, -, h⟩ | ⟨editor, -, h⟩
  · simp [h, Function.comp_def]
  · rw [h, map_fst_forFiles, map_fst_grouped]

end PatchSet

end MarkedEdits
