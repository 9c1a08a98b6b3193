import MarkedEdits.Anchor
import MarkedEdits.EditError
import MarkedEdits.Text.Similarity

/-!
# Plans

A plan says which spans of a text belong to which edit. Edits claim the line spans of their matches
one edit after the other: a span that begins where an earlier edit has one is a collision, and
spans of one edit with a common start are joined. Planning stops at the first edit that collides or
that has fewer or more matches than it allows.
-/

namespace MarkedEdits

/-- A match of an edit: a span of whole lines and the text that it covers. -/
structure Match where
  start : Nat
  stop : Nat
  text : Text
  deriving DecidableEq, Repr

/-- The matches of one edit, and the error at which the search for more stopped. -/
structure MatchResult where
  found : List Match
  error : Option EditError
  deriving DecidableEq, Repr

/-- A span of the plan and the position of the edit that it belongs to. -/
structure PlannedSpan where
  start : Nat
  stop : Nat
  owner : Nat
  deriving DecidableEq, Repr

/-- The spans in ascending order of their starts, and what every edit matched. -/
structure Plan where
  spans : List PlannedSpan
  results : List MatchResult
  deriving DecidableEq, Repr

/-- The error that ended the planning, and what every edit matched up to then. -/
structure PlanFailure where
  error : EditError
  results : List MatchResult
  deriving DecidableEq, Repr

namespace Plan

/-- The spans with one more for an edit, or the position of another edit that already has a span
with that start. Spans of one edit with the same start become one span. -/
def claim (owner : Nat) (span : Span) : List PlannedSpan → Except Nat (List PlannedSpan)
  | [] => .ok [⟨span.start, span.stop, owner⟩]
  | taken :: rest =>
      if span.start < taken.start then .ok (⟨span.start, span.stop, owner⟩ :: taken :: rest)
      else if span.start = taken.start then
        if taken.owner = owner then
          .ok (⟨taken.start, max taken.stop span.stop, owner⟩ :: rest)
        else .error taken.owner
      else (claim owner span rest).map (taken :: ·)

/-- The whole lines that hold the matches of the edit, in the order in which they are found. -/
def matchesOf (t : Text) (edit : Edit) : List Match :=
  (Anchor.findAll t edit.anchors 0).map fun span ↦
    let lines := Anchor.align t span
    ⟨lines.start, lines.stop, t.slice lines.start lines.stop⟩

/-- Claims the remaining matches of the edit at position `index`. The matches that were claimed
before come first in what is found, also when an error ends the claims. -/
def claimAll (t : Text) (index : Nat) (edit : Edit) (found : List Match)
    (spans : List PlannedSpan) :
    List Match → Except (EditError × List Match) (List PlannedSpan × List Match)
  | [] =>
      if found = [] ∧ edit.allowZero = false then
        .error (.noMatch index (edit.anchors.head?.bind (Text.suggestLine t)), found)
      else .ok (spans, found)
  | next :: rest =>
      let found := found ++ [next]
      match claim index ⟨next.start, next.stop⟩ spans with
      | .error other => .error (.collision index other next.start, found)
      | .ok spans =>
          if 1 < found.length ∧ edit.allowMultiple = false then
            .error (.multipleMatches index found.length, found)
          else claimAll t index edit found spans rest

/-- Plans the remaining edits, the first of which has the position `index`, on top of the spans and
results of the edits before. -/
def extend (t : Text) (index : Nat) (plan : Plan) : List Edit → Except PlanFailure Plan
  | [] => .ok plan
  | edit :: rest =>
      match claimAll t index edit [] plan.spans (matchesOf t edit) with
      | .error (error, found) => .error ⟨error, plan.results ++ [⟨found, some error⟩]⟩
      | .ok (spans, found) => extend t (index + 1) ⟨spans, plan.results ++ [⟨found, none⟩]⟩ rest

/-- The plan for a list of edits. -/
def ofEdits (t : Text) (edits : List Edit) : Except PlanFailure Plan :=
  extend t 0 ⟨[], []⟩ edits

end Plan

end MarkedEdits
