import MarkedEdits.FileSystem.Resolve
import MarkedEdits.PatchSet.Decode
import MarkedEdits.PatchSet.Validation
import MarkedEdits.Toml.Document

/-!
# Loading patch sets

A patch set is loaded from a document, which must declare a valid set. The patch sets of a directory
are the files directly in it whose names end in `.toml`.
-/

namespace MarkedEdits

/-- Why a document declares no patch set. -/
inductive DocumentFault where
  | toml (fault : Toml.Fault)
  | shape
  deriving DecidableEq, Repr

/-- The fault in words. -/
def DocumentFault.message : DocumentFault → String
  | toml fault => fault.message
  | shape => "a value does not have the type of its field"

/-- Why no patch set could be loaded. The path is that of the file, if there is one. -/
inductive LoadError where
  | unreadable (path : Text) (cause : SystemError)
  | document (path : Option Text) (fault : DocumentFault)
  | invalid (path : Option Text) (issues : List Issue)
  | unlisted (directory path : Text) (cause : SystemError)
  deriving DecidableEq, Repr

namespace LoadError

/-- The failure to list a path, in words. -/
def listingMessage (path : Text) (cause : SystemError) : String :=
  s!"IO error for operation on {String.ofList path}: {cause.message}"

/-- The error in words. -/
def message : LoadError → String
  | unreadable path cause =>
      s!"failed to read patch set {String.ofList path}: {cause.message}"
  | document (some path) fault =>
      s!"failed to parse patch set TOML ({String.ofList path}): {fault.message}"
  | document none fault => s!"failed to parse patch set TOML: {fault.message}"
  | invalid (some path) issues =>
      s!"invalid patch set ({String.ofList path}):\n{Issue.messages issues}"
  | invalid none issues => s!"invalid patch set:\n{Issue.messages issues}"
  | unlisted directory path cause =>
      s!"failed to scan {String.ofList directory} for patch sets: {listingMessage path cause}"

/-- What the error goes back to, the nearest cause first. -/
def causes : LoadError → List String
  | unreadable _ cause => [cause.message]
  | document _ fault => [fault.message]
  | invalid _ issues => [Issue.messages issues]
  | unlisted _ path cause => [listingMessage path cause, cause.message]

end LoadError

namespace PatchSet

/-- The patch set that the document declares. The path is named in errors. -/
def ofDocument (path : Option Text) (t : Text) : Except LoadError PatchSet := do
  let entries ← (Toml.parse t).mapError fun fault ↦ .document path (.toml fault)
  match ofEntries entries with
  | none => throw (.document path .shape)
  | some set => set.validate.mapError (.invalid path)

/-- The patch set that the file at a path declares. -/
def ofFile (fs : FileSystem) (here : Path) (path : Text) : Except LoadError PatchSet := do
  let bytes ← (fs.readFrom here path).mapError (.unreadable path)
  let t ← (FileSystem.decode bytes).mapError (.unreadable path)
  ofDocument (some path) t

/-- The names of the files directly in a directory that may declare patch sets, in order. -/
def fileNames (fs : FileSystem) (directory : Path) : List Text :=
  (fs.list directory).filterMap fun (name, node) ↦
    match node with
    | .file _ _ => if PathText.extension? name = some "toml".toList then some name else none
    | _ => none

/-- The paths of the patch sets in the directory at a path. What is no directory has none. -/
def discover (fs : FileSystem) (here : Path) (directory : Text) :
    Except LoadError (List Text) := do
  let failure := LoadError.unlisted directory directory
  let entry ← (fs.resolveFor .entry here directory).mapError failure
  let target ←
    match fs.lookup entry with
    | some (.link _) => (fs.locate here directory).mapError failure
    | _ => pure entry
  return (fileNames fs target).map (PathText.join directory)

end PatchSet

end MarkedEdits
