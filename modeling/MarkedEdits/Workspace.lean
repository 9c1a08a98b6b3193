import MarkedEdits.FileSystem.Digest
import MarkedEdits.FileSystem.Resolve

/-!
# Workspaces

A workspace gives access to the files below a root directory. It refuses every path that leads out
of the root, and it remembers the digest of each file as it last read or wrote it, so that it does
not overwrite a change that somebody else made in between.
-/

namespace MarkedEdits

/-- A root directory, the digest in use, and the digests of the files read or written so far. -/
structure Workspace where
  root : Path
  digest : ByteArray → UInt64
  seen : List (Path × UInt64) := []

namespace Workspace

/-- The workspace at the directory that a path leads to. -/
def at? (fs : FileSystem) (here : Path) (root : Text) : Except StoreError Workspace :=
  match fs.resolve here root with
  | .ok root => .ok ⟨root, MarkedEdits.digest, []⟩
  | .error cause => .error (.unresolved root cause)

/-- The resolved path of a file of the workspace. Relative paths are taken from the root. -/
def resolve (workspace : Workspace) (fs : FileSystem) (path : Text) : Except StoreError Path :=
  let full := PathText.join workspace.root.render path
  match fs.resolve [] full with
  | .error cause => .error (.unresolved full cause)
  | .ok target =>
      if workspace.root.isPrefixOf target then .ok target
      else .error (.outsideRoot target.render workspace.root.render)

/-- The digest of the file as it was last read or written. -/
def seen? (workspace : Workspace) (target : Path) : Option UInt64 :=
  (workspace.seen.find? (·.1 == target)).map (·.2)

/-- The workspace that remembers the content of a file. -/
def remember (workspace : Workspace) (target : Path) (content : ByteArray) : Workspace :=
  { workspace with seen := (target, workspace.digest content) :: workspace.seen }

/-- The text of a file, and the workspace that remembers it. -/
def read (workspace : Workspace) (fs : FileSystem) (path : Text) :
    Except StoreError (Text × Workspace) := do
  let target ← workspace.resolve fs path
  let content ← (fs.content target).mapError .system
  let text ← (FileSystem.decode content).mapError .system
  return (text, workspace.remember target content)

/-- Refuses a file whose content is not the one that the workspace remembers. -/
def guardUnmodified (workspace : Workspace) (fs : FileSystem) (target : Path) :
    Except StoreError Unit :=
  match workspace.seen? target with
  | none => .ok ()
  | some expected =>
      match fs.content target with
      | .error cause => .error (.system cause)
      | .ok current =>
          if workspace.digest current = expected then .ok () else .error (.modified target.render)

/-- The file system with the text as the new content of a file, and the workspace that remembers
it. -/
def write (workspace : Workspace) (fs : FileSystem) (path text : Text) :
    Except StoreError (FileSystem × Workspace) := do
  let target ← workspace.resolve fs path
  workspace.guardUnmodified fs target
  let content := FileSystem.encode text
  let fs ← (fs.replace target content).mapError .system
  return (fs, workspace.remember target content)

end Workspace

/-- A workspace together with the file system that it works on. -/
structure Checkout where
  fs : FileSystem
  workspace : Workspace

namespace Checkout

/-- The text of a file, and the checkout after reading it. -/
def read (checkout : Checkout) (path : Text) : Except StoreError (Text × Checkout) :=
  (checkout.workspace.read checkout.fs path).map fun (text, workspace) ↦
    (text, { checkout with workspace })

/-- The checkout after writing the text to a file. -/
def write (checkout : Checkout) (path text : Text) : Except StoreError Checkout :=
  (checkout.workspace.write checkout.fs path text).map fun (fs, workspace) ↦ ⟨fs, workspace⟩

/-- Texts are stored in the files of the checkout. -/
instance : Store Checkout where
  write := Checkout.write

end Checkout

end MarkedEdits
