import MarkedEdits.FileSystem.Path
import MarkedEdits.Store

/-!
# File systems

A file system holds files, directories and symbolic links by their resolved paths. The top
directory is always there. Looking a path up in a file system after `put` or `remove` is described
by `lookup_put` and `lookup_remove`. The operating system may refuse to replace the content of some
of the files.
-/

namespace MarkedEdits

/-- Contents are compared byte by byte. -/
instance decidableEqContent : DecidableEq ByteArray :=
  ByteArray.instDecidableEq

/-- What a path leads to: a file with its content and permission bits, a directory with its
permission bits, or a link with the path that it stands for. -/
inductive Node where
  | file (content : ByteArray) (mode : Nat)
  | directory (mode : Nat)
  | link (target : Text)
  deriving DecidableEq

/-- The permission bits of the top directory. -/
def topMode : Nat := 0o755

/-- Files, directories and links by resolved path, and why the operating system refuses to replace
the content of a file, if it does. -/
structure FileSystem where
  entries : List (Path × Node) := []
  refusal? : Path → Option SystemError := fun _ ↦ none

namespace FileSystem

/-- What is at the path. -/
def lookup (fs : FileSystem) (path : Path) : Option Node :=
  if path = [] then some (.directory topMode) else (fs.entries.find? (·.1 == path)).map (·.2)

/-- The file system without what is at the path. -/
def remove (fs : FileSystem) (path : Path) : FileSystem :=
  { fs with entries := fs.entries.filter (·.1 != path) }

/-- The file system with the node at the path, in place of what was there. -/
def put (fs : FileSystem) (path : Path) (node : Node) : FileSystem :=
  { fs with entries := (path, node) :: (fs.remove path).entries }

/-- The path leads to a directory. -/
def isDirectory (fs : FileSystem) (path : Path) : Bool :=
  match fs.lookup path with
  | some (.directory _) => true
  | _ => false

/-- The names in a directory and what they lead to, in the order of their code points. -/
def list (fs : FileSystem) (path : Path) : List (Text × Node) :=
  let inside := fs.entries.filterMap fun (entry, node) ↦
    match entry.getLast? with
    | some name => if entry.dropLast = path then some (name, node) else none
    | none => none
  inside.mergeSort fun a b ↦ !b.1.lex a.1 fun c d ↦ c.toNat < d.toNat

/-- The content of the file at a resolved path. -/
def content (fs : FileSystem) (path : Path) : Except SystemError ByteArray :=
  match fs.lookup path with
  | some (.file content _) => .ok content
  | some (.directory _) => .error .isDirectory
  | some (.link _) => .error .tooManyLinks
  | none => .error .notFound

/-- The file system with new content for the file at a resolved path, unless the operating system
refuses that. A file keeps its permission bits. -/
def replace (fs : FileSystem) (path : Path) (content : ByteArray) :
    Except SystemError FileSystem :=
  match fs.lookup path with
  | some (.file _ mode) =>
      match fs.refusal? path with
      | none => .ok (fs.put path (.file content mode))
      | some cause => .error cause
  | some (.directory _) => .error .isDirectory
  | some (.link _) => .error .tooManyLinks
  | none => .error .notFound

/-- The bytes of a text in UTF-8. -/
def encode (t : Text) : ByteArray :=
  (String.ofList t).toUTF8

/-- The text that has these bytes in UTF-8. -/
def decode (bytes : ByteArray) : Except SystemError Text :=
  match String.fromUTF8? bytes with
  | some s => .ok s.toList
  | none => .error .invalidEncoding

/-- Decoding gives back what was encoded. -/
@[simp] theorem decode_encode (t : Text) : decode (encode t) = .ok t := by
  have h : String.fromUTF8? (String.ofList t).toByteArray = some (String.ofList t) :=
    dif_pos (String.ofList t).isValidUTF8
  simp only [decode, encode, String.toUTF8, h, String.toList_ofList]

/-- Bytes that decode to a text are its encoding. -/
theorem encode_of_decode {bytes : ByteArray} {t : Text} (h : decode bytes = .ok t) :
    encode t = bytes := by
  unfold decode at h
  split at h
  · next s hs =>
      cases h
      simp only [String.fromUTF8?] at hs
      split at hs
      · cases hs
        simp [encode, String.toUTF8, String.fromUTF8]
      · cases hs
  · cases h

/-- Nothing is found at a path whose entries have been filtered out, and other entries are found
as before. -/
theorem find?_filter_ne (entries : List (Path × Node)) (path other : Path) :
    (entries.filter (·.1 != path)).find? (·.1 == other) =
      if other = path then none else entries.find? (·.1 == other) := by
  induction entries with
  | nil => simp
  | cons entry rest ih =>
      by_cases hp : entry.1 = path <;> by_cases ho : entry.1 = other <;>
        by_cases he : other = path <;> simp_all

/-- A removed path leads nowhere, and other paths lead where they did. -/
theorem lookup_remove (fs : FileSystem) (path other : Path) (h : other ≠ []) :
    (fs.remove path).lookup other = if other = path then none else fs.lookup other := by
  simp only [lookup, h, if_false, remove, find?_filter_ne]
  split <;> simp

/-- A path leads to the node that was put there, and other paths lead where they did. -/
theorem lookup_put (fs : FileSystem) (path other : Path) (node : Node) (h : other ≠ []) :
    (fs.put path node).lookup other = if other = path then some node else fs.lookup other := by
  by_cases he : other = path
  · subst he
    simp [lookup, h, put]
  · have := lookup_remove fs path other h
    simp only [lookup, h, if_false, he] at this
    simp [lookup, h, put, he, this, Ne.symm he]

end FileSystem

end MarkedEdits
