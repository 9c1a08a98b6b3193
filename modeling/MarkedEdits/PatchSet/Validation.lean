import MarkedEdits.PatchSet.Basic
import MarkedEdits.Version.Gate

/-!
# Validation of patch sets

A patch set is valid when an editor can be built for it, when it has patches, when every patch has a
file and an edit, and when its version range is one. Every way in which a set fails is an issue, and
validation lists all of them.
-/

namespace MarkedEdits

/-- One way in which a patch set is not valid. The label names the patch, if it is about one. -/
inductive Issue where
  | noPatches
  | missingField (patch : Option Text) (field : String)
  | invalidPatch (patch : Option Text) (reason : String)
  | invalidInfo (reason : String)
  deriving DecidableEq, Repr

/-- The issue in words. -/
def Issue.message : Issue → String
  | noPatches => "patch set contains no patches"
  | missingField (some label) field =>
      s!"patch '{String.ofList label}' missing required field '{field}'"
  | missingField none field => s!"patch set missing required field '{field}'"
  | invalidPatch (some label) reason =>
      s!"patch '{String.ofList label}' has invalid configuration: {reason}"
  | invalidPatch none reason => s!"invalid patch configuration: {reason}"
  | invalidInfo reason => s!"invalid [meta]: {reason}"

/-- The issues in words, a line for each. -/
def Issue.messages (issues : List Issue) : String :=
  String.intercalate "\n" (issues.map (·.message))

namespace PatchSet

/-- What is wrong with the namespace. -/
def ownerIssues (owner : Text) : List Issue :=
  if Text.isBlankText owner then [.missingField none "meta.namespace"]
  else
    match Namespace.ofText? owner with
    | .error fault => [.invalidInfo (EditError.invalidNamespace owner fault).message]
    | .ok _ => []

/-- What is wrong with the marker style. -/
def styleIssues (style : Style) : List Issue :=
  match style.fault? with
  | some fault => [.invalidInfo (EditError.invalidStyle fault).message]
  | none => []

/-- What is wrong with the version range. -/
def rangeIssues : Option Text → List Issue
  | none => []
  | some range =>
      if Text.isBlankText range then []
      else
        match Version.parseRequirement range with
        | .error error => [.invalidInfo error.message]
        | .ok _ => []

/-- What is wrong with the patch at a position. -/
def patchIssues (index : Nat) (patch : Patch) : List Issue :=
  let label := some (patch.label index)
  let file := if Text.isBlankText patch.file then [.missingField label "file"] else []
  let both :=
    if patch.anchors ≠ [] ∧ patch.search.isSome then
      [.invalidPatch label "use either anchors or search, not both"]
    else []
  let anchors :=
    if patch.anchorList = [] then [.missingField label "anchors"]
    else if patch.anchorList.contains [] then
      [.invalidPatch label "anchors must not be empty strings"]
    else []
  file ++ both ++ anchors

/-- All that is wrong with the set. -/
def issues (set : PatchSet) : List Issue :=
  ownerIssues set.info.owner ++ styleIssues set.info.style.style ++
    rangeIssues set.info.versionRange ++
    (if set.patches = [] then [.noPatches] else []) ++
    set.patches.zipIdx.flatMap fun (patch, index) ↦ patchIssues index patch

/-- Accepts a set without issues. -/
def validate (set : PatchSet) : Except (List Issue) PatchSet :=
  if set.issues = [] then .ok set else .error set.issues

end PatchSet

end MarkedEdits
