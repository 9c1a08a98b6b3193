import MarkedEdits.PatchSet.Target

/-!
# Applying and reverting patch sets

A run reads every file of the set once and writes it at most once. The edits of a file are carried
out together: either all of them or none. A dry run writes nothing and tells what it would write.
-/

namespace MarkedEdits

/-- What a run did to a file. -/
inductive FileResult where
  | applied (former updated : Text)
  | wouldApply (former updated : Text)
  | unchanged
  | skipped (reason : String)
  deriving DecidableEq, Repr

namespace FileResult

/-- The text before and after, for a file that was or would be changed. -/
def change? : FileResult → Option (Text × Text)
  | applied former updated | wouldApply former updated => some (former, updated)
  | unchanged | skipped _ => none

/-- The result for a file in words. -/
def message (file : Text) : FileResult → String
  | applied _ _ => s!"Updated {String.ofList file}"
  | wouldApply _ _ => s!"Would update {String.ofList file}"
  | unchanged => s!"Unchanged {String.ofList file}"
  | skipped reason => s!"Skipped {String.ofList file} (version): {reason}"

end FileResult

/-- What a run tells about the files of a set, in their order. -/
abbrev FileResults (α : Type) := List (Text × Except TargetError α)

namespace PatchSet

/-- Writes the new text of a file, if there is one and the run is not dry. -/
def finish (checkout : Checkout) (file former : Text) (dryRun : Bool) :
    Outcome → Except TargetError FileResult × Checkout
  | .patched updated =>
      if dryRun then (.ok (.wouldApply former updated), checkout)
      else
        match checkout.write file updated with
        | .ok checkout => (.ok (.applied former updated), checkout)
        | .error cause => (.error (.unwritten file updated cause), checkout)
  | _ => (.ok .unchanged, checkout)

/-- Carries out the patches at the positions on the file. -/
def applyFile (set : PatchSet) (editor : Editor) (dryRun : Bool) (checkout : Checkout)
    (file : Text) (indices : List Nat) : Except TargetError FileResult × Checkout :=
  match checkout.read file with
  | .error cause => (.error (.unreadable file cause), checkout)
  | .ok (former, checkout) =>
      match set.edits file indices with
      | .error error => (.error error, checkout)
      | .ok edits =>
          match editor.patch former edits with
          | .error cause => (.error (set.blame file indices cause), checkout)
          | .ok outcome => finish checkout file former dryRun outcome

/-- Takes the editor's namespace out of the file. -/
def revertFile (editor : Editor) (dryRun : Bool) (checkout : Checkout) (file : Text) :
    Except TargetError FileResult × Checkout :=
  match checkout.read file with
  | .error cause => (.error (.unreadable file cause), checkout)
  | .ok (former, checkout) =>
      finish checkout file former dryRun (editor.revertOutcome former)

/-- Carries out the set on all its files, provided that the version of the target lets it pass. -/
def apply (set : PatchSet) (checkout : Checkout) (version : Option Text) (dryRun : Bool) :
    FileResults FileResult × Checkout :=
  match set.admission version with
  | .error error => (set.files.map fun (file, _) ↦ (file, .error error), checkout)
  | .ok (.skip reason) => (set.files.map fun (file, _) ↦ (file, .ok (.skipped reason)), checkout)
  | .ok (.run editor) => forFiles (set.applyFile editor dryRun) checkout set.files

/-- Takes the namespace of the set out of all its files, whatever the version of the target. -/
def revert (set : PatchSet) (checkout : Checkout) (dryRun : Bool) :
    FileResults FileResult × Checkout :=
  match set.prepare with
  | .error error => (set.files.map fun (file, _) ↦ (file, .error error), checkout)
  | .ok editor =>
      forFiles (fun checkout file _ ↦ revertFile editor dryRun checkout file) checkout set.files

end PatchSet

end MarkedEdits
