import MarkedEdits.PatchSet.Load
import MarkedEdits.Terminal

/-!
# Output

What a command prints goes to the standard output or, if it is about a failure, to the standard
error. A command that cannot be carried out at all ends with a message and its causes.
-/

namespace MarkedEdits

namespace CommandLine

/-- What has been printed so far. -/
structure Output where
  out : Text := []
  err : Text := []
  deriving DecidableEq, Repr

/-- The first output and then the second. -/
instance : Append Output where
  append a b := ⟨a.out ++ b.out, a.err ++ b.err⟩

namespace Output

/-- A line of the standard output. -/
def line (t : Text) : Output := ⟨t ++ ['\n'], []⟩

/-- A line of the standard error. -/
def note (t : Text) : Output := ⟨[], t ++ ['\n']⟩

/-- The outputs one after the other. -/
def concat (outputs : List Output) : Output :=
  outputs.foldr (· ++ ·) {}

end Output

/-- Why a command cannot be carried out. -/
inductive Failure where
  | system (cause : SystemError)
  | store (cause : StoreError)
  | load (cause : LoadError)
  | noSets (root : Path)

namespace Failure

/-- The failure in words. -/
def message : Failure → String
  | system cause => cause.message
  | store cause => cause.message
  | load cause => cause.message
  | noSets root =>
      let root := String.ofList root.render
      s!"No .toml patch sets found in either ./patches or {root}/patches"

/-- What the failure goes back to, the nearest cause first. -/
def causes : Failure → List String
  | system _ | noSets _ => []
  | store cause => cause.causes
  | load cause => cause.causes

/-- A cause with its lines below each other, the first one after its number if it has one. -/
def indented (number : Option Nat) (cause : String) : String :=
  match number with
  | none => "    " ++ "\n    ".intercalate (cause.splitOn "\n")
  | some n =>
      let digits := toString n
      let padding := String.ofList (List.replicate (5 - digits.length) ' ')
      s!"{padding}{digits}: " ++ "\n       ".intercalate (cause.splitOn "\n")

/-- The failure with its causes, which are numbered if there are several. -/
def report (failure : Failure) : String :=
  let described :=
    match failure.causes with
    | [] => []
    | [cause] => ["", "Caused by:", indented none cause]
    | causes => "" :: "Caused by:" :: causes.mapIdx fun n cause ↦ indented (some n) cause
  "\n".intercalate (s!"Error: {failure.message}" :: described)

end Failure

end CommandLine

end MarkedEdits
