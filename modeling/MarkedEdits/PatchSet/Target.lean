import MarkedEdits.PatchSet.Basic
import MarkedEdits.Version.Gate
import MarkedEdits.Workspace

/-!
# Targets of a patch set

A run of a patch set goes through the files that the set aims at. Before it touches a file it asks
whether the version of the target lets the set pass, and builds the editor of the set.
-/

namespace MarkedEdits

/-- Why a run failed on a file. A failed write keeps the text. -/
inductive TargetError where
  | version (error : Version.GateError)
  | invalidSet (cause : EditError)
  | unreadable (file : Text) (cause : StoreError)
  | unwritten (file text : Text) (cause : StoreError)
  | edit (file : Text) (patch : Option Text) (cause : EditError)
  deriving DecidableEq, Repr

namespace TargetError

/-- The error in words. -/
def message : TargetError → String
  | version error => s!"version error: {error.message}"
  | invalidSet cause => s!"invalid patch set: {cause.message}"
  | unreadable file cause => s!"cannot read {String.ofList file}: {cause.message}"
  | unwritten file _ cause => s!"cannot write {String.ofList file}: {cause.message}"
  | edit file (some label) cause =>
      s!"{String.ofList file}: patch '{String.ofList label}': {cause.message}"
  | edit file none cause => s!"{String.ofList file}: {cause.message}"

/-- What the error goes back to, the nearest cause first. -/
def causes : TargetError → List String
  | version error => [error.message]
  | invalidSet _ => []
  | unreadable _ cause | unwritten _ _ cause => cause.message :: cause.causes
  | edit _ _ cause => cause.message :: cause.causes

end TargetError

/-- Whether a set goes through its files, and with which editor, or is skipped. -/
inductive Admission where
  | run (editor : Editor)
  | skip (reason : String)
  deriving DecidableEq, Repr

namespace PatchSet

/-- The editor of the set, or the error that concerns all of its files. -/
def prepare (set : PatchSet) : Except TargetError Editor :=
  set.editor?.mapError .invalidSet

/-- Why a version of the target is not let pass. -/
def skipReason (version : Text) (range : Option Text) : String :=
  s!"target version {String.ofList version} does not satisfy version_range " ++
    String.ofList (Text.trim (range.getD []))

/-- Asks the version gate, when the version of the target is known, and then builds the editor. -/
def admission (set : PatchSet) (version : Option Text) : Except TargetError Admission :=
  let run := set.prepare.map .run
  match version with
  | none => run
  | some version =>
      match Version.passes version set.info.versionRange with
      | .error error => .error (.version error)
      | .ok false => .ok (.skip (skipReason version set.info.versionRange))
      | .ok true => run

/-- The edits of the patches at the positions, all of which aim at the file. -/
def edits (set : PatchSet) (file : Text) (indices : List Nat) : Except TargetError (List Edit) :=
  indices.filterMapM fun index ↦
    match set.patches[index]? with
    | none => .ok none
    | some patch =>
        (patch.edit?.map some).mapError fun cause ↦
          .edit file (some (patch.label index)) cause

/-- The label of the patch at a position of the set. -/
def labelAt (set : PatchSet) (index : Nat) : Option Text :=
  set.patches[index]?.map (·.label index)

/-- The error of an edit, with the label of the patch that it belongs to. -/
def blame (set : PatchSet) (file : Text) (indices : List Nat) (cause : EditError) : TargetError :=
  .edit file ((cause.index?.bind (indices[·]?)).bind set.labelAt) cause

/-- The results of a step on every file in turn, and the checkout after the last. -/
def forFiles {α : Type} (step : Checkout → Text → List Nat → α × Checkout) :
    Checkout → List (Text × List Nat) → List (Text × α) × Checkout
  | checkout, [] => ([], checkout)
  | checkout, (file, indices) :: rest =>
      let (result, checkout) := step checkout file indices
      let (results, checkout) := forFiles step checkout rest
      ((file, result) :: results, checkout)

end PatchSet

end MarkedEdits
