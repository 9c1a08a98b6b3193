import MarkedEdits.FileSystem.Basic

/-!
# Resolving paths

A path is resolved segment by segment from a directory. An empty segment or a dot stays where it
is, two dots go to the parent directory, and a link is replaced by the segments of its target. Every
segment is taken in a directory, so a path that goes on after a file leads nowhere.

A path that serves to access something must not be too long as it is given. Where the resolved path
itself is asked for, it is that path which must not be too long, up to every name in it.
-/

namespace MarkedEdits

namespace FileSystem

/-- The most links that one path may pass through. -/
def maxLinks : Nat := 40

/-- The most bytes of a file name. -/
def maxNameSize : Nat := 255

/-- The most bytes of the text of a path. -/
def maxPathSize : Nat := 4095

/-- What a path is resolved for: to learn the resolved path, to access the file behind all links,
or to access what the last segment names, even if that is a link. -/
inductive Purpose where
  | name
  | file
  | entry
  deriving DecidableEq, Repr

/-- Follows the segments from a resolved path, through at most `links` links. -/
def walk (fs : FileSystem) (purpose : Purpose) (links : Nat) (here : Path) (segments : List Text) :
    Except SystemError Path :=
  match segments with
  | [] => .ok here
  | segment :: rest =>
      if fs.isDirectory here = false then .error .notDirectory
      else if segment = [] ∨ segment = ['.'] then walk fs purpose links here rest
      else if segment = ['.', '.'] then walk fs purpose links here.dropLast rest
      else if maxNameSize < segment.size then .error .nameTooLong
      else if purpose = .name ∧ maxPathSize < (Path.render (here ++ [segment])).size then
        .error .nameTooLong
      else
        match fs.lookup (here ++ [segment]) with
        | none => .error .notFound
        | some (.link target) =>
            if rest = [] ∧ purpose = .entry then .ok (here ++ [segment])
            else
              match links with
              | 0 => .error .tooManyLinks
              | links + 1 =>
                  let start := if PathText.isAbsolute target then [] else here
                  walk fs purpose links start (Text.splitOn '/' target ++ rest)
        | some _ => walk fs purpose links (here ++ [segment]) rest
termination_by (links, segments.length)

/-- The resolved path of a path that is taken from the directory `here`. -/
def resolveFor (fs : FileSystem) (purpose : Purpose) (here : Path) (path : Text) :
    Except SystemError Path :=
  if '\x00' ∈ path then .error .nulByte
  else if path = [] then .error .notFound
  else if purpose ≠ .name ∧ maxPathSize < path.size then .error .nameTooLong
  else
    walk fs purpose maxLinks (if PathText.isAbsolute path then [] else here)
      (Text.splitOn '/' path)

/-- The resolved path that a path stands for. -/
def resolve (fs : FileSystem) (here : Path) (path : Text) : Except SystemError Path :=
  fs.resolveFor .name here path

/-- Where the file is that a path gives access to. -/
def locate (fs : FileSystem) (here : Path) (path : Text) : Except SystemError Path :=
  fs.resolveFor .file here path

/-- The content of the file that a path leads to. -/
def readFrom (fs : FileSystem) (here : Path) (path : Text) : Except SystemError ByteArray :=
  fs.locate here path >>= fs.content

end FileSystem

end MarkedEdits
