import MarkedEdits.Marker
import MarkedEdits.Plan.Basic

/-!
# Rendering a plan

Rendering copies the text and carries out the edits at the spans of the plan: the lines to insert
are written with the insert marker before and after the span, and the span itself is copied or
written with the delete marker. It fails when a span begins before the end of the span before it.
-/

namespace MarkedEdits

namespace Plan

/-- The matched lines as the edit leaves them. -/
def body (markers : Markers) (edit : Edit) (matched : Text) : Text :=
  match edit.replacement with
  | .keep => matched
  | .disable => Marker.comment markers.delete matched
  | .substitute text =>
      Marker.comment markers.delete matched ++ Marker.comment markers.insert text

/-- The output with a newline at its end, when something follows and the output is neither empty
nor at the start of a line. -/
def openLine (out following : Text) : Text :=
  if following ≠ [] ∧ out ≠ [] ∧ Text.endsWithNewline out = false then out ++ ['\n'] else out

/-- The output continued by one edit at the lines that it matched. -/
def renderSpan (markers : Markers) (edit : Edit) (out matched : Text) : Text :=
  let edited := out ++ Marker.comment markers.insert edit.before ++ body markers edit matched
  openLine edited edit.trailing ++ Marker.comment markers.insert edit.trailing

/-- The output continued by the text from `cursor` on, with the edits at the remaining spans.
`previous` is the edit of the last span before. -/
def renderFrom (t : Text) (edits : List Edit) (markers : Markers) (out : Text) (cursor : Nat)
    (previous : Option Nat) : List PlannedSpan → Except EditError Text
  | [] => .ok (out ++ Text.dropBytes cursor t)
  | span :: rest =>
      if span.start < cursor then
        .error (.overlap span.owner (previous.getD span.owner) span.start)
      else
        match edits[span.owner]? with
        | none => .error (.invalidEdit span.owner .unknown)
        | some edit =>
            let out := out ++ t.slice cursor span.start
            let out := renderSpan markers edit out (t.slice span.start span.stop)
            renderFrom t edits markers out span.stop (some span.owner) rest

/-- The output without its last newline, when the text it was made from has none at its end. -/
def matchEnding (t out : Text) : Text :=
  if t ≠ [] ∧ Text.endsWithNewline t = false then Text.dropFinalNewline out else out

/-- The text with the edits carried out at the spans of the plan. -/
def render (t : Text) (edits : List Edit) (plan : Plan) (markers : Markers) :
    Except EditError Text :=
  (renderFrom t edits markers [] 0 none plan.spans).map (matchEnding t)

end Plan

end MarkedEdits
