import MarkedEdits.Text.Basic

/-!
# Edits

An edit says where to look in a text, by fragments that occur there in a given order, and what to
do with the lines that hold them: which text to insert before and after them, and whether to keep,
disable or replace them.
-/

namespace MarkedEdits

/-- What happens to the lines that an edit matches. -/
inductive Replacement where
  | keep
  | disable
  | substitute (text : Text)
  deriving DecidableEq, Repr

namespace Replacement

/-- The replacement that a flag asks for: whether to disable the lines. -/
def ofFlag (disabled : Bool) : Replacement :=
  if disabled then disable else keep

/-- The replacement by a text. An empty text only disables the lines. -/
def ofText (text : Text) : Replacement :=
  if text = [] then disable else substitute text

/-- The matched lines are disabled. -/
def disables : Replacement → Bool
  | keep => false
  | disable | substitute _ => true

end Replacement

/-- Why a list of fragments cannot anchor an edit. -/
inductive AnchorFault where
  | missing
  | empty (position : Nat)
  deriving DecidableEq, Repr

/-- The fault in words. -/
def AnchorFault.message : AnchorFault → String
  | missing => "at least one anchor is required"
  | empty position => s!"anchor {position} is empty"

/-- One edit. It has at least one anchor and no empty one. -/
structure Edit where
  anchors : List Text
  anchors_ne_nil : anchors ≠ []
  anchor_ne_nil : ∀ anchor ∈ anchors, anchor ≠ []
  before : Text := []
  after : Text := []
  replacement : Replacement := .keep
  allowMultiple : Bool := false
  allowZero : Bool := false
  deriving DecidableEq, Repr

namespace Edit

/-- The edit with these anchors that changes nothing. The first empty anchor is the one at
fault. -/
def ofAnchors? (anchors : List Text) : Except AnchorFault Edit :=
  if h : anchors = [] then .error .missing
  else
    match hi : anchors.findIdx? (· == []) with
    | some position => .error (.empty position)
    | none => .ok { anchors, anchors_ne_nil := h, anchor_ne_nil := by simpa using hi }

/-- The text inserted after the matched lines. Lines that are only disabled are followed by a line
with a blank, so that every disabled block is followed by an inserted line. -/
def trailing (edit : Edit) : Text :=
  if edit.replacement = .disable ∧ edit.after = [] then [' '] else edit.after

end Edit

end MarkedEdits
