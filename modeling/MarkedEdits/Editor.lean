import MarkedEdits.Plan.Render

/-!
# Editors

An editor carries out edits on behalf of one namespace. It first reverts what its namespace did to
the text before, so the same edits always lead to the same text, and it refuses to work around the
markers of other namespaces: anywhere in the text, or only where its own edits touch them.
-/

namespace MarkedEdits

/-- How far the markers of other namespaces block an edit: anywhere in the file, or only on the
lines of the edit's own spans. -/
inductive Scope where
  | file
  | span
  deriving DecidableEq, Repr

/-- The namespace, marker style and scope of one party. -/
structure Editor where
  owner : Namespace
  style : Style
  usable : style.fault? = none
  scope : Scope := .file
  deriving DecidableEq, Repr

/-- What became of a text. -/
inductive Outcome where
  | unchanged
  | patched (text : Text)
  | persisted (path : Text)
  | failed (path text : Text) (error : EditError)
  deriving DecidableEq, Repr

namespace Outcome

/-- The text is not as it was. -/
def isChanged : Outcome → Bool
  | unchanged => false
  | patched _ | persisted _ | failed _ _ _ => true

/-- The new text, unless there is none or it has been stored. -/
def text? : Outcome → Option Text
  | unchanged | persisted _ => none
  | patched text | failed _ text _ => some text

end Outcome

/-- What the edits match in a text, the lines with markers of other namespaces, and the error that
the edits lead to. -/
structure Inspection where
  results : List MatchResult
  foreign : List Match
  error : Option EditError
  deriving DecidableEq, Repr

/-- The line holds the stem of a marker of any namespace. -/
def Markers.onLine (markers : Markers) (line : Text) : Bool :=
  Text.contains markers.insertStem line || Text.contains markers.deleteStem line

/-- The numbers of the lines that hold a marker stem. -/
def Markers.foreignLines (markers : Markers) (t : Text) : List Nat :=
  ((Text.lines t).zipIdx 1).filterMap fun (line, number) ↦
    if markers.onLine line then some number else none

/-- The error that reports the lines with a marker stem. -/
def Markers.foreignError (markers : Markers) (t : Text) : EditError :=
  let numbers := markers.foreignLines t
  .foreignMarkers numbers.length (numbers.headD 0)

namespace Editor

/-- The editor for a namespace, in a style that must be usable. -/
def ofName? (name : Text) (style : Style) (scope : Scope) : Except EditError Editor :=
  match Namespace.ofText? name with
  | .error fault => .error (.invalidNamespace name fault)
  | .ok owner =>
      match h : style.fault? with
      | some fault => .error (.invalidStyle fault)
      | none => .ok ⟨owner, style, h, scope⟩

/-- The markers of the editor. -/
def markers (editor : Editor) : Markers :=
  editor.style.markers editor.owner

/-- The stems of the editor's markers are not empty. -/
theorem stems_ne_nil (editor : Editor) :
    editor.markers.insertStem ≠ [] ∧ editor.markers.deleteStem ≠ [] :=
  Style.ne_nil_of_stemsFault? (Style.fault?_eq_none_iff.mp editor.usable).2.2

/-- The edit that matches every occurrence of a stem and changes nothing. -/
def guardFor (stem : Text) (h : stem ≠ []) : Edit where
  anchors := [stem]
  anchors_ne_nil := by simp
  anchor_ne_nil := by simpa using h
  allowMultiple := true
  allowZero := true

/-- The edits that find the markers of other namespaces. -/
def guards (editor : Editor) : List Edit :=
  [guardFor editor.markers.insertStem editor.stems_ne_nil.1,
    guardFor editor.markers.deleteStem editor.stems_ne_nil.2]

/-- The text without what the editor's namespace did to it: its inserted lines are deleted and its
disabled lines enabled. A text without a final newline stays so. -/
def revert (editor : Editor) (t : Text) : Text :=
  let reverted :=
    Marker.uncomment editor.markers.delete (Marker.strip editor.markers.insert t)
  if Text.endsWithNewline t then reverted else Text.dropFinalNewline reverted

/-- The outcome of reverting the text. -/
def revertOutcome (editor : Editor) (t : Text) : Outcome :=
  let reverted := editor.revert t
  if reverted = t then .unchanged else .patched reverted

/-- An error that names a guard, among the edits from position `count` on, means that there are
markers of other namespaces. -/
def blame (editor : Editor) (t : Text) (count : Nat) (error : EditError) : EditError :=
  let namesGuard :=
    match error with
    | .collision index other _ | .overlap index other _ =>
        decide (count ≤ index) || decide (count ≤ other)
    | error => error.index?.any (count ≤ ·)
  if namesGuard then editor.markers.foreignError t else error

/-- The text that the edits lead to, and the matches of the edits and then of the guards, in a text
that is already reverted. -/
def evaluate (editor : Editor) (t : Text) (edits : List Edit) :
    Except EditError Text × List MatchResult :=
  let guarded := edits ++ editor.guards
  match Plan.ofEdits t guarded with
  | .error failure => (.error (editor.blame t edits.length failure.error), failure.results)
  | .ok plan =>
      let foreign := (plan.results.drop edits.length).any (·.found ≠ [])
      if foreign && editor.scope = .file then
        (.error (editor.markers.foreignError t), plan.results)
      else
        ((plan.render t guarded editor.markers).mapError (editor.blame t edits.length),
          plan.results)

/-- The outcome of carrying out the edits on the reverted text. -/
def patch (editor : Editor) (t : Text) (edits : List Edit) : Except EditError Outcome :=
  (editor.evaluate (editor.revert t) edits).1.map fun patched ↦
    if patched = t then .unchanged else .patched patched

/-- What the edits match in the reverted text, without carrying them out. -/
def inspect (editor : Editor) (t : Text) (edits : List Edit) : Inspection :=
  let (patched, results) := editor.evaluate (editor.revert t) edits
  { results := results.take edits.length
    foreign := (results.drop edits.length).flatMap (·.found)
    error := match patched with
      | .error error => some error
      | .ok _ => none }

/-- Writes a new text to the store. When that fails the store is as it was and the outcome keeps
the text. -/
def persist {σ : Type} [Store σ] (store : σ) (path : Text) : Outcome → Outcome × σ
  | .patched text =>
      match Store.write store path text with
      | .ok store => (.persisted path, store)
      | .error cause => (.failed path text (.unwritten path cause), store)
  | outcome => (outcome, store)

/-- Carries out the edits and writes the text to the store if it is new. -/
def apply {σ : Type} [Store σ] (editor : Editor) (store : σ) (path t : Text) (edits : List Edit) :
    Except EditError (Outcome × σ) :=
  (editor.patch t edits).map (persist store path)

/-- Reverts the text and writes it to the store if it is new. -/
def revertTo {σ : Type} [Store σ] (editor : Editor) (store : σ) (path t : Text) : Outcome × σ :=
  persist store path (editor.revertOutcome t)

end Editor

end MarkedEdits
