import MarkedEdits.Text.Basic

/-!
# TOML values and tables

A table knows how it came about, since that decides what later lines of a document may still add to
it. Numbers that are not integers, and dates and times, are kept as they are written.
-/

namespace MarkedEdits

namespace Toml

/-- How a table came about: as an inline value, by a header of its own, as the parent in a header
of another table, or as the parent in a dotted key. -/
inductive Origin where
  | inline
  | header
  | implied
  | dotted
  deriving DecidableEq, Repr

/-- A value of a document. An array is open when headers may still append tables to it. -/
inductive Value where
  | string (text : Text)
  | integer (n : Int)
  | float (written : Text)
  | boolean (b : Bool)
  | datetime (written : Text)
  | array (isOpen : Bool) (items : List Value)
  | table (origin : Origin) (entries : List (Text × Value))
  deriving Repr

/-- The keys of a table with their values. -/
abbrev Entries := List (Text × Value)

/-- Why a text is no document. -/
inductive Fault where
  | malformed
  | redefined (key : Text)
  | tooDeep
  deriving DecidableEq, Repr

/-- The fault in words. -/
def Fault.message : Fault → String
  | malformed => "malformed document"
  | redefined key => s!"the key {String.ofList key} is defined again"
  | tooDeep => "values are nested too deeply"

/-- The entries with the value for the key, in place of an older one. -/
def Entries.set (key : Text) (value : Value) : Entries → Entries
  | [] => [(key, value)]
  | entry :: rest =>
      if entry.1 = key then (key, value) :: rest else entry :: Entries.set key value rest

/-- The deepest nesting of arrays and inline tables, and the most parts of a dotted key. -/
def maxDepth : Nat := 80

end Toml

end MarkedEdits
