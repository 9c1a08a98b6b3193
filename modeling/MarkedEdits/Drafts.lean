import MarkedEdits.FileSystem.Path
import MarkedEdits.Store

/-!
# Drafts

Drafts are texts kept in memory by the path of the file that they are for. Paths that differ only
in repeated or trailing slashes and in inner dots are the same path. Drafts may also be closed, and
then refuse every text.
-/

namespace MarkedEdits

/-- Texts by path, in the order in which the paths came, and whether more are refused. -/
structure Drafts where
  entries : List (Text × Text) := []
  closed : Bool := false
  deriving DecidableEq, Repr

namespace Drafts

/-- The text kept for the path. -/
def get? (drafts : Drafts) (path : Text) : Option Text :=
  (drafts.entries.find? fun entry ↦ PathText.same entry.1 path).map (·.2)

/-- The number of paths that have a text. -/
def size (drafts : Drafts) : Nat :=
  drafts.entries.length

/-- The entries with the text for the path, in place of an older one if there is one. -/
def put (path content : Text) : List (Text × Text) → List (Text × Text)
  | [] => [(path, content)]
  | entry :: rest =>
      if PathText.same entry.1 path then (entry.1, content) :: rest
      else entry :: put path content rest

/-- Keeps the text, unless the drafts are closed. -/
instance : Store Drafts where
  write drafts path content :=
    if drafts.closed then .error .rejected
    else .ok { drafts with entries := put path content drafts.entries }

end Drafts

end MarkedEdits
