import MarkedEdits.PatchSet.Run

/-!
# Checking patch sets

A check tells for every file of a set whether the set is in place, what each patch matches and what
stands in its way, without writing anything. Line numbers refer to the file with the set's own
namespace taken out.
-/

namespace MarkedEdits

/-- The state of a file: the set is in place, would change the file, would fail, or is not meant for
the version of the target. -/
inductive CheckStatus where
  | applied
  | pending
  | failing
  | skipped
  deriving DecidableEq, Repr

/-- The name of the state. -/
def CheckStatus.name : CheckStatus → String
  | applied => "applied"
  | pending => "pending"
  | failing => "failing"
  | skipped => "skipped"

/-- The lines on which the matches of a patch begin, and the error that stopped it. -/
structure PatchReport where
  label : Text
  lines : List Nat
  error : Option EditError
  deriving DecidableEq, Repr

/-- The state of a file, its patches and the lines with markers of other namespaces. -/
structure FileReport where
  status : CheckStatus
  patches : List PatchReport
  foreignLines : List Nat
  error : Option String
  deriving DecidableEq, Repr

namespace PatchSet

/-- The report on the patches at the positions, from what their edits match in a text. -/
def patchReports (set : PatchSet) (baseline : Text) (results : List MatchResult)
    (indices : List Nat) : List PatchReport :=
  indices.zipIdx.map fun (index, position) ↦
    { label := (set.labelAt index).getD []
      lines := (results[position]?.map (·.found)).getD [] |>.map fun found ↦
        Text.lineNumber baseline found.start
      error := results[position]?.bind (·.error) }

/-- The state that the text of a file is in, and the error that would stop the set. -/
def status (set : PatchSet) (editor : Editor) (file former : Text) (indices : List Nat)
    (edits : List Edit) (failure : Option EditError) : CheckStatus × Option String :=
  match failure with
  | some cause => (.failing, some (set.blame file indices cause).message)
  | none =>
      match editor.patch former edits with
      | .ok .unchanged => (.applied, none)
      | .ok _ => (.pending, none)
      | .error cause => (.failing, some (set.blame file indices cause).message)

/-- Reports on the file and the patches at the positions. -/
def checkFile (set : PatchSet) (editor : Editor) (checkout : Checkout) (file : Text)
    (indices : List Nat) : Except TargetError FileReport × Checkout :=
  match checkout.read file with
  | .error cause => (.error (.unreadable file cause), checkout)
  | .ok (former, checkout) =>
      match set.edits file indices with
      | .error error => (.error error, checkout)
      | .ok edits =>
          let baseline := editor.revert former
          let inspection := editor.inspect former edits
          let (status, error) := set.status editor file former indices edits inspection.error
          let report : FileReport :=
            { status
              patches := set.patchReports baseline inspection.results indices
              foreignLines := inspection.foreign.map (Text.lineNumber baseline ·.start)
              error }
          (.ok report, checkout)

/-- Reports on all files of the set, provided that the version of the target lets it pass. -/
def check (set : PatchSet) (checkout : Checkout) (version : Option Text) :
    FileResults FileReport × Checkout :=
  match set.admission version with
  | .error error => (set.files.map fun (file, _) ↦ (file, .error error), checkout)
  | .ok (.skip reason) =>
      (set.files.map fun (file, _) ↦ (file, .ok ⟨.skipped, [], [], some reason⟩), checkout)
  | .ok (.run editor) => forFiles (set.checkFile editor) checkout set.files

end PatchSet

end MarkedEdits
