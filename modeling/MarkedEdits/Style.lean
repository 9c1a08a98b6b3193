import MarkedEdits.Namespace
import MarkedEdits.Text.Search

/-!
# Marker styles

A style is a pair of templates, one for the marker of inserted lines and one for the marker of
disabled lines. Each template holds a placeholder for the namespace. The text before the
placeholder is the stem of the template: all markers of one style and kind begin with it, whatever
the namespace.

A style is usable when `fault?` finds nothing wrong with it. Then neither stem occurs in the other,
so a line cannot begin with markers of both kinds.
-/

namespace MarkedEdits

/-- The two kinds of marked lines. -/
inductive MarkerKind where
  | insert
  | delete
  deriving DecidableEq, Repr

/-- The name of the kind. -/
def MarkerKind.name : MarkerKind → String
  | insert => "insert"
  | delete => "delete"

/-- The part of a template that the namespace replaces. -/
def placeholder : Text := "\x7bnamespace\x7d".toList

/-- A template for each kind of marker. -/
structure Style where
  insert : Text
  delete : Text
  deriving DecidableEq, Repr

/-- Why a style cannot be used. -/
inductive StyleFault where
  | placeholders (kind : MarkerKind) (found : Nat)
  | newline (kind : MarkerKind)
  | emptyStem
  | nestedStems (insert delete : Text)
  deriving DecidableEq, Repr

/-- The fault in words. -/
def StyleFault.message : StyleFault → String
  | placeholders kind found =>
      s!"{kind.name} template must contain {String.ofList placeholder} exactly once " ++
        s!"(found {found})"
  | newline kind => s!"{kind.name} template must not contain a newline"
  | emptyStem => "templates must not start with the namespace placeholder"
  | nestedStems insert delete =>
      s!"prefixes {String.ofList insert.quoted} and {String.ofList delete.quoted} " ++
        "must not contain each other"

/-- The markers of one namespace, and the stems that they share with all other namespaces. -/
structure Markers where
  insert : Text
  delete : Text
  insertStem : Text
  deleteStem : Text
  deriving DecidableEq, Repr

namespace Style

/-- Markers that are block comments of the C family of languages. -/
def block : Style where
  insert := "/* + PL:".toList ++ placeholder ++ " + */ ".toList
  delete := "/* - PL:".toList ++ placeholder ++ " - /* ".toList

/-- Markers that are comments from a hash sign to the end of the line. -/
def hash : Style where
  insert := "# + PL:".toList ++ placeholder ++ " + # ".toList
  delete := "# - PL:".toList ++ placeholder ++ " - # ".toList

/-- The template before its placeholder. -/
def stem (template : Text) : Text :=
  match Text.splitFirst? placeholder template with
  | some (before, _) => before
  | none => template

/-- The template with the name in place of the placeholder. -/
def fill (template name : Text) : Text :=
  match Text.splitFirst? placeholder template with
  | some (before, after) => before ++ name ++ after
  | none => template

/-- What is wrong with one template by itself. -/
def templateFault? (kind : MarkerKind) (template : Text) : Option StyleFault :=
  let found := Text.occurrences placeholder template
  if found ≠ 1 then some (.placeholders kind found)
  else if '\n' ∈ template then some (.newline kind)
  else none

/-- What is wrong with the two stems together. -/
def stemsFault? (insertStem deleteStem : Text) : Option StyleFault :=
  if insertStem = [] ∨ deleteStem = [] then some .emptyStem
  else if Text.contains deleteStem insertStem || Text.contains insertStem deleteStem then
    some (.nestedStems insertStem deleteStem)
  else none

/-- The first thing that is wrong with the style. -/
def fault? (style : Style) : Option StyleFault :=
  (templateFault? .insert style.insert).or
    ((templateFault? .delete style.delete).or (stemsFault? (stem style.insert) (stem style.delete)))

/-- The markers of the namespace in this style. -/
def markers (style : Style) (owner : Namespace) : Markers where
  insert := fill style.insert owner.name
  delete := fill style.delete owner.name
  insertStem := stem style.insert
  deleteStem := stem style.delete

/-- A style is usable when each template and the pair of stems is. -/
theorem fault?_eq_none_iff {style : Style} :
    style.fault? = none ↔
      templateFault? .insert style.insert = none ∧ templateFault? .delete style.delete = none ∧
        stemsFault? (stem style.insert) (stem style.delete) = none := by
  simp [fault?, Option.or_eq_none_iff]

/-- Stems that go together are not empty. -/
theorem ne_nil_of_stemsFault? {insertStem deleteStem : Text}
    (h : stemsFault? insertStem deleteStem = none) : insertStem ≠ [] ∧ deleteStem ≠ [] := by
  unfold stemsFault? at h
  split at h
  · cases h
  · next hne => exact not_or.mp hne

end Style

end MarkedEdits
