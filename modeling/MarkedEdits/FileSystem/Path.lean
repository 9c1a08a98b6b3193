import MarkedEdits.Text.Split

/-!
# Paths

The text of a path is a sequence of segments with slashes between them. It is absolute when it
begins with a slash. A resolved path is the list of names that lead from the top directory to a
file, with no links, dots or empty segments left in it.
-/

namespace MarkedEdits

/-- The names that lead from the top directory to a file. -/
abbrev Path := List Text

/-- The path as a text: an absolute path, with a slash before every name. -/
def Path.render (path : Path) : Text :=
  if path = [] then ['/'] else path.flatMap ('/' :: ·)

namespace PathText

/-- The path begins at the top directory. -/
def isAbsolute (path : Text) : Bool :=
  path.head? == some '/'

/-- The path taken from a directory. An absolute path stands for itself. -/
def join (directory path : Text) : Text :=
  if isAbsolute path then path
  else if directory = [] ∨ directory.getLast? = some '/' then directory ++ path
  else directory ++ '/' :: path

/-- The segments of the path that say something: a leading slash, shown as an empty segment, and
every segment that is neither empty nor a dot. A dot at the start of a relative path is kept. -/
def components (path : Text) : List Text :=
  let segments := Text.splitOn '/' path
  let named := segments.filter fun segment ↦ segment ≠ [] ∧ segment ≠ ['.']
  if isAbsolute path then [] :: named
  else if segments.head? = some ['.'] then ['.'] :: named
  else named

/-- The paths have the same components. -/
def same (a b : Text) : Bool :=
  components a == components b

/-- The part of a file name after its last full stop. A name whose only full stop comes first has
none. -/
def extension? (name : Text) : Option Text :=
  match (Text.splitOn '.' name).reverse with
  | last :: before :: rest => if before = [] ∧ rest = [] then none else some last
  | _ => none

end PathText

end MarkedEdits
