import MarkedEdits.PatchSet.Check
import MarkedEdits.PatchSet.Run

/-!
# Batches of patch sets

A batch is a list of patch sets that are carried out one after the other on the same checkout, so
that each set finds the files as the sets before it have left them.
-/

namespace MarkedEdits

/-- A patch set and the path that it was loaded from. -/
structure LoadedSet where
  path : Text
  set : PatchSet
  deriving DecidableEq, Repr

/-- What became of the files of a patch set. -/
structure SetResults (α : Type) where
  path : Text
  owner : Text
  files : FileResults α
  deriving Repr

namespace Batch

/-- The results of a step on every set in turn, and the checkout after the last. -/
def forSets {α : Type} (step : PatchSet → Checkout → FileResults α × Checkout) :
    Checkout → List LoadedSet → List (SetResults α) × Checkout
  | checkout, [] => ([], checkout)
  | checkout, ⟨path, set⟩ :: rest =>
      let (files, checkout) := step set checkout
      let (results, checkout) := forSets step checkout rest
      (⟨path, set.info.owner, files⟩ :: results, checkout)

/-- Applies the sets. -/
def apply (sets : List LoadedSet) (checkout : Checkout) (version : Option Text) (dryRun : Bool) :
    List (SetResults FileResult) × Checkout :=
  forSets (fun set checkout ↦ set.apply checkout version dryRun) checkout sets

/-- Reverts the sets. -/
def revert (sets : List LoadedSet) (checkout : Checkout) (dryRun : Bool) :
    List (SetResults FileResult) × Checkout :=
  forSets (fun set checkout ↦ set.revert checkout dryRun) checkout sets

/-- Checks the sets. -/
def check (sets : List LoadedSet) (checkout : Checkout) (version : Option Text) :
    List (SetResults FileReport) × Checkout :=
  forSets (fun set checkout ↦ set.check checkout version) checkout sets

/-- The set fails on a file that it was applied to or reverted in. -/
def hasFailed : Except TargetError FileResult → Bool
  | .ok _ => false
  | .error _ => true

/-- The set would fail on a file that was checked. -/
def wouldFail : Except TargetError FileReport → Bool
  | .ok report => report.status = .failing
  | .error _ => true

/-- The batch ends with the code zero if no file is a failure, and otherwise with the code one. -/
def code {α : Type} (isFailure : Except TargetError α → Bool) (results : List (SetResults α)) :
    Nat :=
  if results.any fun set ↦ set.files.any fun (_, result) ↦ isFailure result then 1 else 0

end Batch

end MarkedEdits
