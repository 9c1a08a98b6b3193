import MarkedEdits.Text.Quoted

/-!
# Namespaces

A namespace names the party whose edits a marker belongs to. Its characters are ASCII letters and
digits, the underscore, the hyphen and the full stop.
-/

namespace MarkedEdits

/-- The character may stand in the name of a namespace. -/
def isNamespaceChar (c : Char) : Bool :=
  c.isAlphanum || c == '_' || c == '-' || c == '.'

/-- Why a text is no namespace. -/
inductive NamespaceFault where
  | empty
  | illegal (c : Char)
  deriving DecidableEq, Repr

/-- The fault in words. -/
def NamespaceFault.message : NamespaceFault → String
  | empty => "namespace must not be empty"
  | illegal c => s!"character {String.ofList (Text.quotedChar c)} is not allowed"

/-- A name that is not empty and whose characters are all allowed. -/
structure Namespace where
  name : Text
  name_ne_nil : name ≠ []
  name_legal : ∀ c ∈ name, isNamespaceChar c = true
  deriving DecidableEq, Repr

namespace Namespace

/-- The namespace of that name. The first character that is not allowed is the one at fault. -/
def ofText? (name : Text) : Except NamespaceFault Namespace :=
  if h : name = [] then .error .empty
  else
    match hc : name.find? (!isNamespaceChar ·) with
    | some c => .error (.illegal c)
    | none => .ok ⟨name, h, by simpa using hc⟩

end Namespace

end MarkedEdits
