import MarkedEdits.Edit
import MarkedEdits.Store
import MarkedEdits.Style

/-!
# Errors of edits

An error names the edit at fault by its position in the list of edits, where there is one.
-/

namespace MarkedEdits

/-- Why an edit cannot be carried out. -/
inductive EditFault where
  | anchors (fault : AnchorFault)
  | unknown
  deriving DecidableEq, Repr

/-- The fault in words. -/
def EditFault.message : EditFault → String
  | anchors fault => fault.message
  | unknown => "plan refers to an edit that was not supplied"

/-- Why edits could not be planned, carried out or written. -/
inductive EditError where
  | noMatch (index : Nat) (hint : Option Text)
  | multipleMatches (index count : Nat)
  | collision (index other start : Nat)
  | overlap (index other start : Nat)
  | foreignMarkers (count firstLine : Nat)
  | invalidEdit (index : Nat) (fault : EditFault)
  | invalidNamespace (name : Text) (fault : NamespaceFault)
  | invalidStyle (fault : StyleFault)
  | unwritten (path : Text) (cause : StoreError)
  deriving DecidableEq, Repr

namespace EditError

/-- The error in words. -/
def message : EditError → String
  | noMatch index none => s!"edit #{index}: zero matches not allowed for this edit"
  | noMatch index (some hint) =>
      s!"edit #{index}: zero matches not allowed for this edit " ++
        s!"(closest line: {String.ofList hint.quoted})"
  | multipleMatches index count =>
      s!"edit #{index}: multiple matches not allowed for this edit ({count} found)"
  | collision index other start =>
      s!"edit #{index}: match collides with another edit (#{other}) at byte {start}"
  | overlap index other start =>
      s!"edit #{index}: match overlaps with another edit (#{other}) at byte {start}"
  | foreignMarkers count firstLine =>
      s!"{count} marker line(s) from another namespace still present " ++
        s!"(first at line {firstLine})"
  | invalidEdit index fault => s!"edit #{index}: {fault.message}"
  | invalidNamespace name fault => s!"invalid namespace '{String.ofList name}': {fault.message}"
  | invalidStyle fault => s!"invalid marker style: {fault.message}"
  | unwritten path cause => s!"I/O error on {String.ofList path}: {cause.message}"

/-- The error as it is noted beside the edit that it belongs to. -/
def shortMessage : EditError → String
  | noMatch _ _ => "zero matches not allowed for this edit"
  | multipleMatches _ _ => "multiple matches not allowed for this edit"
  | collision _ _ _ => "match collides with another edit"
  | overlap _ _ _ => "match overlaps with another edit"
  | foreignMarkers _ _ => "foreign markers present"
  | invalidEdit _ _ => "invalid edit"
  | invalidNamespace _ _ => "invalid namespace"
  | invalidStyle _ => "invalid marker style"
  | unwritten _ _ => "write failed"

/-- The position of the edit at fault, where there is one. -/
def index? : EditError → Option Nat
  | noMatch index _ | multipleMatches index _ | collision index _ _ | overlap index _ _
  | invalidEdit index _ => some index
  | foreignMarkers _ _ | invalidNamespace _ _ | invalidStyle _ | unwritten _ _ => none

/-- What the error goes back to, the nearest cause first. -/
def causes : EditError → List String
  | unwritten _ cause => cause.message :: cause.causes
  | _ => []

end EditError

end MarkedEdits
