import MarkedEdits.Text.Blank
import MarkedEdits.Version.Requirement

/-!
# The version gate

A target tells its version in whatever form it has: with leading letters `v`, with fewer than three
numbers or with more. Its normal form has three numbers, missing ones being zero. The gate lets a
version pass when it satisfies the requirement, and every version when nothing is required.
-/

namespace MarkedEdits

namespace Version

/-- Why the gate cannot decide. -/
inductive GateError where
  | version (value : Text) (fault : Fault)
  | requirement (value : Text) (fault : Fault)
  deriving DecidableEq, Repr

/-- The error in words. -/
def GateError.message : GateError → String
  | version value fault =>
      s!"invalid target version '{String.ofList value}': {fault.message}"
  | requirement value fault =>
      s!"invalid version_range '{String.ofList value}': {fault.message}"

/-- The text starts the pre-release or the build metadata of a version. -/
def startsSuffix (c : Char) : Bool :=
  c == '-' || c == '+'

/-- The first three of the dot-separated pieces, with zeros for missing ones. -/
def firstThree (pieces : List Text) : List Text :=
  (pieces ++ [['0'], ['0']]).take 3

/-- The normal form of the text of a version: without blanks and letters `v` in front of it, and
with exactly three numbers before any suffix. -/
def normalize (value : Text) : Text :=
  let trimmed := (Text.trim value).dropWhile (· == 'v')
  let core := trimmed.takeWhile (!startsSuffix ·)
  let suffix := trimmed.dropWhile (!startsSuffix ·)
  Text.join '.' (firstThree (Text.splitOn '.' core)) ++ suffix

/-- The version that a target tells. -/
def parseTarget (value : Text) : Except GateError Version :=
  (parse (normalize value)).mapError (.version value)

/-- The requirement that the text states. -/
def parseRequirement (value : Text) : Except GateError Requirement :=
  (Requirement.parse (Text.trim value)).mapError (.requirement value)

/-- The version passes: nothing is required, or what is required is satisfied. -/
def passes (value : Text) (requirement : Option Text) : Except GateError Bool :=
  match requirement with
  | none => .ok true
  | some required =>
      if Text.isBlankText required then .ok true
      else do
        let requirement ← parseRequirement required
        let version ← parseTarget value
        return requirement.admits version

end Version

end MarkedEdits
