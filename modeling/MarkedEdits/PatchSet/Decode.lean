import MarkedEdits.PatchSet.Basic
import MarkedEdits.Toml.Value

/-!
# Patch sets from tables

A patch set is decoded from the top table of a document. A record is a table with its field names
as keys, or an array of its fields in the order of their declaration; fields that are left out have
their defaults. Keys that name no field are refused in a patch and ignored elsewhere.
-/

namespace MarkedEdits

namespace Toml

/-- The fields of a record, by name or by position. A date or time counts as a table of which no
key is a field. -/
inductive Fields where
  | named (entries : Entries)
  | listed (items : List Value)

/-- The fields of the record that the value is. -/
def Value.fields? : Value → Option Fields
  | table _ entries => some (.named entries)
  | array _ items => some (.listed items)
  | datetime written => some (.named [("$datetime".toList, .string written)])
  | _ => none

/-- The field with the name, which is the one at the position when fields are listed. -/
def Fields.get? (fields : Fields) (name : String) (position : Nat) : Option Value :=
  match fields with
  | .named entries => entries.lookup name.toList
  | .listed items => items[position]?

/-- All named fields have one of the names. -/
def Fields.areAmong (fields : Fields) (names : List String) : Bool :=
  match fields with
  | .named entries => entries.all fun entry ↦ names.contains (String.ofList entry.1)
  | .listed _ => true

/-- The text of a string. -/
def Value.text? : Value → Option Text
  | string text => some text
  | _ => none

/-- The truth value of a boolean. -/
def Value.boolean? : Value → Option Bool
  | boolean b => some b
  | _ => none

/-- The items of an array. -/
def Value.items? : Value → Option (List Value)
  | array _ items => some items
  | _ => none

/-- The field decoded, or the default when it is left out. Nothing when it cannot be decoded. -/
def Fields.decode {α : Type} (fields : Fields) (name : String) (position : Nat) (default : α)
    (decode : Value → Option α) : Option α :=
  match fields.get? name position with
  | none => some default
  | some value => decode value

end Toml

open Toml

namespace PatchSet

/-- The marker style that the value chooses: the name of a built-in style or a table with two
templates. -/
def styleOfValue : Value → Option StyleChoice
  | .string text =>
      if text = "c".toList then some .block
      else if text = "hash".toList then some .hash
      else none
  | .table _ entries => do
      let insert ← (← entries.lookup "insert".toList).text?
      let delete ← (← entries.lookup "delete".toList).text?
      return .custom ⟨insert, delete⟩
  | _ => none

/-- The scope with the name. -/
def scopeOfName (name : Text) : Option Scope :=
  if name = "file".toList then some .file
  else if name = "span".toList then some .span
  else none

/-- The scope that the value chooses: its name, alone or as the only key of a table with an empty
table or array. -/
def scopeOfValue : Value → Option Scope
  | .string name => scopeOfName name
  | .table _ [(name, .table _ [])] | .table _ [(name, .array _ [])] => scopeOfName name
  | _ => none

/-- What becomes of the matched lines: a truth value or a text. -/
def replaceOfValue : Value → Option ReplaceChoice
  | .boolean disabled => some (.flag disabled)
  | .string text => some (.text text)
  | _ => none

/-- The record of what a set says about itself. -/
def infoOfValue (value : Value) : Option SetInfo := do
  let fields ← value.fields?
  let owner ← fields.decode "namespace" 0 [] (·.text?)
  let description ← fields.decode "description" 1 none (·.text?.map some)
  let style ← fields.decode "style" 2 .block styleOfValue
  let scope ← fields.decode "exclusion" 3 .file scopeOfValue
  let versionRange ← fields.decode "version_range" 4 none (·.text?.map some)
  return { owner, description, style, scope, versionRange }

/-- The names of the fields of a patch in the order of their declaration. -/
def patchFields : List String :=
  ["id", "file", "anchors", "search", "before", "after", "replace", "allow_multiple",
    "allow_zero"]

/-- The record of a patch. -/
def patchOfValue (value : Value) : Option Patch := do
  let fields ← value.fields?
  if fields.areAmong patchFields = false then none
  let id ← fields.decode "id" 0 none (·.text?.map some)
  let file ← (← fields.get? "file" 1).text?
  let anchors ← fields.decode "anchors" 2 [] fun value ↦ do (← value.items?).mapM (·.text?)
  let search ← fields.decode "search" 3 none (·.text?.map some)
  let before ← fields.decode "before" 4 [] (·.text?)
  let after ← fields.decode "after" 5 [] (·.text?)
  let replace ← fields.decode "replace" 6 none fun value ↦ (replaceOfValue value).map some
  let allowMultiple ← fields.decode "allow_multiple" 7 false (·.boolean?)
  let allowZero ← fields.decode "allow_zero" 8 false (·.boolean?)
  return { id, file, anchors, search, before, after, replace, allowMultiple, allowZero }

/-- The patch set that the top table of a document declares. -/
def ofEntries (entries : Entries) : Option PatchSet := do
  let fields := Fields.named entries
  let info ← fields.decode "meta" 0 {} infoOfValue
  let patches ← fields.decode "patches" 1 [] fun value ↦ do (← value.items?).mapM patchOfValue
  return { info, patches }

end PatchSet

end MarkedEdits
