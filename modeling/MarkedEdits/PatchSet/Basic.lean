import MarkedEdits.Editor

/-!
# Patch sets

A patch set declares the edits of one namespace to the files of a tree. Its patches are grouped by
the file that they aim at, so that all edits of a file are carried out together.
-/

namespace MarkedEdits

/-- The marker style of a patch set: one of the built-in styles or templates of its own. -/
inductive StyleChoice where
  | block
  | hash
  | custom (style : Style)
  deriving DecidableEq, Repr

/-- The style that is chosen. -/
def StyleChoice.style : StyleChoice → Style
  | block => .block
  | hash => .hash
  | custom style => style

/-- What a patch says about the lines that it matches: whether they are disabled, or the text that
takes their place. -/
inductive ReplaceChoice where
  | flag (disabled : Bool)
  | text (t : Text)
  deriving DecidableEq, Repr

/-- The replacement that is chosen. -/
def ReplaceChoice.replacement : ReplaceChoice → Replacement
  | flag disabled => .ofFlag disabled
  | text t => .ofText t

/-- One declared edit. A single anchor may be given as `search`. -/
structure Patch where
  id : Option Text := none
  file : Text
  anchors : List Text := []
  search : Option Text := none
  before : Text := []
  after : Text := []
  replace : Option ReplaceChoice := none
  allowMultiple : Bool := false
  allowZero : Bool := false
  deriving DecidableEq, Repr

namespace Patch

/-- The name of the patch in reports: its id, or its position in the set and its file. -/
def label (patch : Patch) (index : Nat) : Text :=
  let numbered := s!"#{index} (".toList ++ patch.file ++ [')']
  match patch.id with
  | some id => if Text.isBlankText id then numbered else id
  | none => numbered

/-- The anchors of the patch, or the single one given as `search`. -/
def anchorList (patch : Patch) : List Text :=
  match patch.search, patch.anchors with
  | some search, [] => [search]
  | _, anchors => anchors

/-- The edit that the patch declares. -/
def edit? (patch : Patch) : Except EditError Edit :=
  match Edit.ofAnchors? patch.anchorList with
  | .error fault => .error (.invalidEdit 0 (.anchors fault))
  | .ok edit =>
      .ok { edit with
        before := patch.before
        after := patch.after
        replacement := (patch.replace.map (·.replacement)).getD .keep
        allowMultiple := patch.allowMultiple
        allowZero := patch.allowZero }

end Patch

/-- What a patch set says about itself. -/
structure SetInfo where
  owner : Text := []
  description : Option Text := none
  style : StyleChoice := .block
  scope : Scope := .file
  versionRange : Option Text := none
  deriving DecidableEq, Repr

/-- The patches of one namespace. -/
structure PatchSet where
  info : SetInfo := {}
  patches : List Patch := []
  deriving DecidableEq, Repr

namespace PatchSet

/-- The editor for the namespace, style and scope of the set. -/
def editor? (set : PatchSet) : Except EditError Editor :=
  Editor.ofName? set.info.owner set.info.style.style set.info.scope

/-- The groups with one more patch for a file, in its group or in a new group at the end. -/
def addToGroup (file : Text) (index : Nat) : List (Text × List Nat) → List (Text × List Nat)
  | [] => [(file, [index])]
  | group :: rest =>
      if group.1 = file then (file, group.2 ++ [index]) :: rest
      else group :: addToGroup file index rest

/-- The files that the patches aim at, in the order in which they first occur, each with the
positions of its patches. -/
def files (set : PatchSet) : List (Text × List Nat) :=
  set.patches.zipIdx.foldl (fun groups (patch, index) ↦ addToGroup patch.file index groups) []

end PatchSet

end MarkedEdits
