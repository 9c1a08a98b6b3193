import MarkedEdits.Proofs.Checked.Planning
import MarkedEdits.Proofs.Scope.Sightings

/-!
# Editing with checked cuts

Rendering a plan cuts the text between the spans and at them, and judging the result cuts the list
of matches behind those of the edits. The cuts are checked as those of the planning are, and again
none of them fails: the spans of a plan are runs of lines, and a span that begins before the end of
the one before it is refused before anything is cut at it. Reverting, which comes first, takes
prefixes off whole lines and cuts nothing at offsets. So editing and inspecting a text always come
to their end (`editing_never_halts`).
-/

namespace MarkedEdits

namespace Checked

open Text

/-! ## Rendering -/

/-- The output continued by the text from `cursor` on, with the edits at the remaining spans.
`previous` is the edit of the last span before. -/
def renderFrom? (t : Text) (edits : List Edit) (markers : Markers) (out : Text) (cursor : Nat)
    (previous : Option Nat) : List PlannedSpan → Option (Except EditError Text)
  | [] => do
      let left ← cut? t cursor (bytes t).length
      return .ok (out ++ left)
  | span :: rest =>
      if span.start < cursor then
        some (.error (.overlap span.owner (previous.getD span.owner) span.start))
      else
        match edits[span.owner]? with
        | none => some (.error (.invalidEdit span.owner .unknown))
        | some edit => do
            let skipped ← cut? t cursor span.start
            let lines ← cut? t span.start span.stop
            let out := Plan.renderSpan markers edit (out ++ skipped) lines
            renderFrom? t edits markers out span.stop (some span.owner) rest

/-- The text with the edits carried out at the spans of the plan. -/
def render? (t : Text) (edits : List Edit) (plan : Plan) (markers : Markers) :
    Option (Except EditError Text) := do
  let rendered ← renderFrom? t edits markers [] 0 none plan.spans
  return rendered.map (Plan.matchEnding t)

/-- What is left behind a boundary can be cut out. -/
theorem cut?_end {t : Text} {cursor : Nat} (h : IsBoundary t cursor) :
    cut? t cursor (bytes t).length = some (dropBytes cursor t) := by
  obtain ⟨front, rest, rfl, rfl⟩ := isBoundary_iff.mp h
  have hend := (isBreak_size (front ++ rest)).isBoundary
  have hle : size front ≤ size (front ++ rest) := by
    rw [size_append]
    exact Nat.le_add_right _ _
  have hcut := dropBytes_eq_slice_append h hend hle
  have hnil : dropBytes (size (front ++ rest)) (front ++ rest) = [] := by
    simpa using dropBytes_size_append (front ++ rest) []
  rw [hnil, List.append_nil] at hcut
  rw [length_bytes, hcut]
  exact cut?_eq_some_iff.mpr ⟨⟨hle, h, hend⟩, rfl⟩

/-- Spans that are runs of lines are rendered to the end, or up to one that overlaps. -/
theorem renderFrom?_eq {t : Text} {edits : List Edit} {markers : Markers} {out : Text}
    {cursor : Nat} {previous : Option Nat} {spans : List PlannedSpan}
    (hcursor : IsBoundary t cursor)
    (hruns : ∀ span ∈ spans, IsLineRun t span.start span.stop) :
    renderFrom? t edits markers out cursor previous spans =
      some (Plan.renderFrom t edits markers out cursor previous spans) := by
  induction spans generalizing out cursor previous with
  | nil =>
      rw [renderFrom?, cut?_end hcursor]
      rfl
  | cons span rest ih =>
      obtain ⟨hrun, hrest⟩ := List.forall_mem_cons.mp hruns
      rw [renderFrom?, Plan.renderFrom]
      split
      · rfl
      · next hlt =>
          have hskipped : cut? t cursor span.start = some (slice t cursor span.start) :=
            cut?_eq_some_iff.mpr
              ⟨⟨Nat.le_of_not_lt hlt, hcursor, hrun.isBreak_start.isBoundary⟩, rfl⟩
          cases edits[span.owner]? with
          | none => rfl
          | some edit =>
              dsimp only
              rw [hskipped, cut?_of_isLineRun hrun]
              exact ih hrun.isBreak_stop.isBoundary hrest

/-- A plan for a text can be rendered to the end, or up to an overlap, whatever edits are rendered
at its spans. -/
theorem render?_eq {t : Text} {edits : List Edit} {plan : Plan}
    (hplan : Plan.ofEdits t edits = .ok plan) (others : List Edit) (markers : Markers) :
    render? t others plan markers = some (plan.render t others markers) := by
  rw [render?, renderFrom?_eq (isBreak_zero t).isBoundary fun _ ↦ Plan.isLineRun_span hplan]
  rfl

/-! ## Markers of other namespaces -/

/-- The two parts of a list, cut at an index that must not lie behind its end. -/
def split? {α : Type} (l : List α) (n : Nat) : Option (List α × List α) :=
  if n ≤ l.length then some (l.take n, l.drop n) else none

/-- The number of the line that holds the offset, from the newline bytes before it. -/
def lineNumber? (t : Text) (pos : Nat) : Option Nat := do
  let (front, _) ← split? (bytes t) (min pos (bytes t).length)
  return front.count '\n'.toUInt8 + 1

/-- The error that reports the lines with a marker stem. -/
def foreignError? (editor : Editor) (t : Text) : Option EditError :=
  match editor.stemLines t with
  | [] => some (.foreignMarkers 0 0)
  | first :: rest => do
      let number ← lineNumber? t first.start
      return .foreignMarkers (rest.length + 1) number

/-- An error that names a guard, among the edits from position `count` on, means that there are
markers of other namespaces. -/
def blame? (editor : Editor) (t : Text) (count : Nat) (error : EditError) : Option EditError :=
  if error.named.any (count ≤ ·) then foreignError? editor t else some error

/-- A list can be cut at an index within it. -/
theorem split?_of_le {α : Type} {l : List α} {n : Nat} (h : n ≤ l.length) :
    split? l n = some (l.take n, l.drop n) :=
  if_pos h

/-- The line of a boundary has the number that counting newlines gives. -/
theorem lineNumber?_eq {t : Text} {pos : Nat} (h : IsBoundary t pos) :
    lineNumber? t pos = some (lineNumber t pos) := by
  obtain ⟨front, rest, rfl, rfl⟩ := isBoundary_iff.mp h
  have hle : size front ≤ (bytes (front ++ rest)).length := by
    rw [length_bytes, size_append]
    exact Nat.le_add_right _ _
  rw [lineNumber?, Nat.min_eq_left hle, split?_of_le hle]
  show some ((bytes (front ++ rest)).take (size front) |>.count '\n'.toUInt8 |>.succ) = _
  rw [take_bytes, count_newline_bytes, lineNumber, newlinesBefore_size_append]

/-- The lines with a marker stem can be reported. -/
theorem foreignError?_eq (editor : Editor) (t : Text) :
    foreignError? editor t = some (editor.markers.foreignError t) := by
  rw [Markers.foreignError, Editor.foreignLines_eq]
  unfold foreignError?
  cases hlines : editor.stemLines t with
  | nil => rfl
  | cons first rest =>
      have hstart : IsBoundary t first.start := by
        have hmem : first ∈ editor.stemLines t := by simp [hlines]
        obtain ⟨p, hp, -, rfl⟩ := Editor.mem_stemLines_iff.mp hmem
        obtain ⟨before, after, hall, hbegin⟩ := mem_placeFrom_iff.mp hp
        refine isBoundary_iff.mpr
          ⟨before.flatten, (p.line :: after).flatten, ?_, by simpa using hbegin⟩
        rw [← List.flatten_append, ← hall, flatten_lines]
      simp [lineNumber?_eq hstart]

/-- The error that edits lead to can be told. -/
theorem blame?_eq (editor : Editor) (t : Text) (count : Nat) (error : EditError) :
    blame? editor t count error = some (editor.blame t count error) := by
  rw [blame?, foreignError?_eq, Editor.blame_eq]
  split <;> rfl

/-! ## Editing -/

/-- The text that the edits lead to, and the matches of the edits and then of the guards, in a text
that is already reverted. -/
def evaluate? (editor : Editor) (t : Text) (edits : List Edit) :
    Option (Except EditError Text × List MatchResult) := do
  let guarded := edits ++ editor.guards
  match ← ofEdits? t guarded with
  | .error failure =>
      let error ← blame? editor t edits.length failure.error
      return (.error error, failure.results)
  | .ok plan =>
      let (_, guardResults) ← split? plan.results edits.length
      if guardResults.any (·.found ≠ []) && editor.scope = .file then
        let error ← foreignError? editor t
        return (.error error, plan.results)
      else
        match ← render? t guarded plan editor.markers with
        | .error error =>
            let error ← blame? editor t edits.length error
            return (.error error, plan.results)
        | .ok rendered => return (.ok rendered, plan.results)

/-- The outcome of carrying out the edits on the reverted text. -/
def patch? (editor : Editor) (t : Text) (edits : List Edit) :
    Option (Except EditError Outcome) := do
  let (evaluated, _) ← evaluate? editor (editor.revert t) edits
  return evaluated.map fun patched ↦ if patched = t then .unchanged else .patched patched

/-- What the edits match in the reverted text, without carrying them out. The matches of the guards
are cut off when there are any. -/
def inspect? (editor : Editor) (t : Text) (edits : List Edit) : Option Inspection := do
  let (evaluated, results) ← evaluate? editor (editor.revert t) edits
  let error :=
    match evaluated with
    | .error error => some error
    | .ok _ => none
  if edits.length < results.length then
    let (own, others) ← split? results edits.length
    return { results := own, foreign := others.flatMap (·.found), error }
  else return { results, foreign := [], error }

/-- Edits are evaluated to the end: a plan has results for the guards behind those of the edits. -/
theorem evaluate?_eq (editor : Editor) (t : Text) (edits : List Edit) :
    evaluate? editor t edits = some (editor.evaluate t edits) := by
  unfold evaluate? Editor.evaluate
  dsimp only
  rw [ofEdits?_eq]
  cases hplan : Plan.ofEdits t (edits ++ editor.guards) with
  | error failure =>
      simp only [Option.bind_eq_bind, Option.bind_some, blame?_eq, Option.pure_def]
  | ok plan =>
      have hle : edits.length ≤ plan.results.length := by
        rw [Plan.ofEdits_results hplan, List.length_map, List.length_append]
        exact Nat.le_add_right _ _
      simp only [Option.bind_eq_bind, Option.bind_some, split?_of_le hle, Option.pure_def,
        foreignError?_eq, render?_eq hplan]
      split
      · rfl
      · cases plan.render t (edits ++ editor.guards) editor.markers with
        | error error =>
            simp only [blame?_eq, Option.bind_some]
            rfl
        | ok rendered => rfl

/-- Edits are carried out to the end. -/
theorem patch?_eq (editor : Editor) (t : Text) (edits : List Edit) :
    patch? editor t edits = some (editor.patch t edits) := by
  rw [patch?, evaluate?_eq]
  rfl

/-- What edits match is listed to the end. -/
theorem inspect?_eq (editor : Editor) (t : Text) (edits : List Edit) :
    inspect? editor t edits = some (editor.inspect t edits) := by
  rw [inspect?, evaluate?_eq, Editor.inspect]
  obtain ⟨evaluated, results⟩ := editor.evaluate (editor.revert t) edits
  show (if edits.length < results.length then _ else _) = _
  split
  · next hlt =>
      rw [split?_of_le (Nat.le_of_lt hlt)]
      rfl
  · next hle =>
      have hshort := Nat.le_of_not_lt hle
      dsimp only
      rw [List.take_of_length_le hshort, List.drop_of_length_le hshort]
      rfl

/-- Planning, rendering the plan for the text, evaluating, patching and inspecting come to their end
on every text, for all edits and editors, with the results that they are defined to have. No cut on
the way fails: each range is in order, within the text and between characters, and the results are
cut at an index within them. -/
theorem editing_never_halts (t : Text) (edits : List Edit) :
    ofEdits? t edits = some (Plan.ofEdits t edits) ∧
      (∀ plan, Plan.ofEdits t edits = .ok plan → ∀ others markers,
        render? t others plan markers = some (plan.render t others markers)) ∧
      ∀ editor : Editor, evaluate? editor t edits = some (editor.evaluate t edits) ∧
        patch? editor t edits = some (editor.patch t edits) ∧
        inspect? editor t edits = some (editor.inspect t edits) :=
  ⟨ofEdits?_eq t edits, fun _ hplan ↦ render?_eq hplan, fun editor ↦
    ⟨evaluate?_eq editor t edits, patch?_eq editor t edits, inspect?_eq editor t edits⟩⟩

/-- Characters of two, three and four bytes. Cuts inside them would fail, but the matches end
between them, and of two spans that overlap the second is refused. -/
theorem editing_never_halts_wide :
    let edit (anchors : List Text) (hne : anchors ≠ []) (h : ∀ anchor ∈ anchors, anchor ≠ []) :
        Edit :=
      { anchors, anchors_ne_nil := hne, anchor_ne_nil := h }
    let edits := [edit [['→'], ['𝄞']] (by simp) (by simp), edit [['ß']] (by simp) (by simp)]
    let t := "é→\n𝄞ß\n".toList
    let markers := Style.hash.markers ⟨['a'], by simp, List.forall_mem_singleton.mpr rfl⟩
    cut? t 0 1 = none ∧ cut? t 2 4 = none ∧ cut? t 2 5 = some ['→'] ∧
      ∃ plan, Plan.ofEdits t edits = .ok plan ∧ plan.spans = [⟨0, 13, 0⟩, ⟨6, 13, 1⟩] ∧
        render? t edits plan markers = some (.error (.overlap 1 0 6)) := by
  intro edit edits t markers
  let plan : Plan :=
    { spans := [⟨0, 13, 0⟩, ⟨6, 13, 1⟩]
      results := [⟨[⟨0, 13, t⟩], none⟩, ⟨[⟨6, 13, "𝄞ß\n".toList⟩], none⟩] }
  have hplan : Plan.ofEdits t edits = .ok plan := by
    simp only [plan, edits, edit, t]
    decide +kernel
  have hrender : plan.render t edits markers = .error (.overlap 1 0 6) := by
    simp only [plan, edits, edit, t, markers]
    decide +kernel
  obtain ⟨-, hrendered, -⟩ := editing_never_halts t edits
  refine ⟨by decide, by decide, by decide, plan, hplan, rfl, ?_⟩
  rw [hrendered plan hplan edits markers, hrender]

end Checked

end MarkedEdits
