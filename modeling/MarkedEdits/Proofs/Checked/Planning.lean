import MarkedEdits.Proofs.Plan.Rounds
import MarkedEdits.Proofs.Text.Bytes

/-!
# Planning with checked cuts

A program must not cut a text where there is no character boundary, or from a place to one before
it: it would come to a halt. Here planning is written down as it is carried out, with searches among
bytes and with cuts that are checked, and `none` stands for the halt. A cut that succeeds gives the
bytes between its ends (`bytes_of_cut?`), and every cut succeeds: whatever the text and the anchors
are, all matches and all near misses can be cut out, and what is planned is the plan
(`ofEdits?_eq`).
-/

namespace MarkedEdits

namespace Checked

open Text

/-! ## Cuts -/

/-- The text between two offsets. Nothing is cut out unless they are in order and at boundaries of
characters. -/
def cut? (t : Text) (start stop : Nat) : Option Text :=
  if start ≤ stop ∧ IsCharBoundary (bytes t) start ∧ IsCharBoundary (bytes t) stop then
    some (slice t start stop)
  else none

/-- A cut succeeds on the ranges that can be cut out of the text, and gives the slice. -/
theorem cut?_eq_some_iff {t part : Text} {start stop : Nat} :
    cut? t start stop = some part ↔ Sliceable t start stop ∧ part = slice t start stop := by
  unfold cut?
  simp only [isCharBoundary_bytes_iff]
  split
  · next h => simp [Sliceable, h, eq_comm]
  · next h =>
      constructor
      · intro hnone
        cases hnone
      · exact fun hsome ↦ absurd hsome.1 h

/-- What is cut out has the bytes between the offsets, which lie within the text. -/
theorem bytes_of_cut? {t part : Text} {start stop : Nat} (h : cut? t start stop = some part) :
    stop ≤ (bytes t).length ∧ bytes part = ((bytes t).take stop).drop start := by
  obtain ⟨⟨hle, hstart, hstop⟩, rfl⟩ := cut?_eq_some_iff.mp h
  obtain ⟨front, middle, rest, rfl, rfl, rfl, hslice⟩ := exists_parts hstart hstop hle
  rw [hslice, ← size_append, take_bytes, drop_bytes, length_bytes, size_append _ rest]
  exact ⟨Nat.le_add_right _ _, rfl⟩

/-- Runs of lines can be cut out. -/
theorem cut?_of_isLineRun {t : Text} {start stop : Nat} (h : IsLineRun t start stop) :
    cut? t start stop = some (slice t start stop) :=
  cut?_eq_some_iff.mpr
    ⟨⟨Nat.le_of_lt h.lt, h.isBreak_start.isBoundary, h.isBreak_stop.isBoundary⟩, rfl⟩

/-! ## Matches -/

/-- Where the last anchor ends when the bytes of every anchor are found as early as possible. -/
def earliestEnd (t : Text) : List Text → Nat → Option Nat
  | [], stop => some stop
  | anchor :: rest, start => do
      let found ← findBytes t anchor start
      earliestEnd t rest (found + (bytes anchor).length)

/-- Where the last of the anchors begins when the bytes of every anchor are found as late as
possible, back from an offset. -/
def latestStart (t : Text) : List Text → Nat → Option Nat
  | [], start => some start
  | anchor :: rest, stop => do
      let found ← rfindBytes t anchor stop
      latestStart t rest found

/-- The smallest span from `start` on that holds the bytes of all anchors in order. -/
def find? (t : Text) (anchors : List Text) (start : Nat) : Option Span :=
  if anchors = [] ∨ anchors.contains [] then none
  else do
    let stop ← earliestEnd t anchors start
    let first ← latestStart t anchors.reverse stop
    return ⟨first, stop⟩

/-- The span widened from the newline byte before it to the next one behind it. -/
def align (t : Text) (span : Span) : Span where
  start := match rfindBytes t ['\n'] span.start with
    | some newline => newline + 1
    | none => 0
  stop := match findBytes t ['\n'] span.stop with
    | some newline => newline + 1
    | none => (bytes t).length

/-- Anchors that are not empty end where they end in the text. -/
theorem earliestEnd_eq {t : Text} {anchors : List Text} (hempty : [] ∉ anchors) (start : Nat) :
    earliestEnd t anchors start = Anchor.earliestEnd t anchors start := by
  induction anchors generalizing start with
  | nil => rfl
  | cons anchor rest ih =>
      obtain ⟨hne, hrest⟩ := not_or.mp (List.mem_cons.not.mp hempty)
      simp only [earliestEnd, Anchor.earliestEnd, findBytes_eq (Ne.symm hne), length_bytes,
        ih hrest]

/-- Anchors that are not empty begin where they begin in the text. -/
theorem latestStart_eq {t : Text} {anchors : List Text} (hempty : [] ∉ anchors) (stop : Nat) :
    latestStart t anchors stop = Anchor.latestStart t anchors stop := by
  induction anchors generalizing stop with
  | nil => rfl
  | cons anchor rest ih =>
      obtain ⟨hne, hrest⟩ := not_or.mp (List.mem_cons.not.mp hempty)
      simp only [latestStart, Anchor.latestStart, rfindBytes_eq (Ne.symm hne), ih hrest]

/-- The matches among bytes are those in the text. -/
theorem find?_eq (t : Text) (anchors : List Text) (start : Nat) :
    find? t anchors start = Anchor.find? t anchors start := by
  unfold find? Anchor.find?
  split
  · rfl
  · next h =>
      have hempty : [] ∉ anchors := fun hmem ↦ h (.inr (List.elem_eq_true_of_mem hmem))
      have hreverse : [] ∉ anchors.reverse := by
        rwa [List.mem_reverse]
      simp only [earliestEnd_eq hempty, latestStart_eq hreverse]

/-- Newline bytes are the newlines of the text. -/
theorem align_eq (t : Text) (span : Span) : align t span = Anchor.align t span := by
  have hne : ['\n'] ≠ [] := List.cons_ne_nil _ _
  unfold align
  rw [rfindBytes_eq hne, findBytes_eq hne, length_bytes]
  rfl

/-! ## Near misses -/

/-- The pieces of a text that are `width` characters wide. There are no pieces without width. -/
def windows? (width : Nat) (t : Text) : Option (List Text) :=
  if width = 0 then none else some (windows width t)

/-- The distance of the fragment from the part of the line that comes closest to it. -/
def fragmentDistance? (fragment line : Text) : Option Nat :=
  if line.length ≤ fragment.length then some (distance line fragment)
  else (windows? fragment.length line).map fun pieces ↦
    (pieces.map (distance · fragment)).min?.getD fragment.length

/-- The trimmed line of the text that comes closest to the trimmed fragment, if one is close. -/
def suggestLine? (t fragment : Text) : Option (Option Text) :=
  let fragment := trim fragment
  if fragment = [] then some none
  else do
    let candidates := ((lines t).map trim).filter (· ≠ [])
    let scored ← candidates.mapM fun line ↦
      (fragmentDistance? fragment line).map fun distance ↦ (line, distance)
    return (closest (scored.filter fun scored ↦ isClose fragment scored.2)).map (·.1)

/-- What an edit without matches may have been meant to match. -/
def hint? (t : Text) (edit : Edit) : Option (Option Text) :=
  match edit.anchors.head? with
  | none => some none
  | some anchor => suggestLine? t anchor

/-- The distance of a fragment that is not empty can be told. -/
theorem fragmentDistance?_eq {fragment : Text} (hne : fragment ≠ []) (line : Text) :
    fragmentDistance? fragment line = some (fragmentDistance fragment line) := by
  have hwidth : fragment.length ≠ 0 := mt List.length_eq_zero_iff.mp hne
  unfold fragmentDistance? fragmentDistance windows?
  rw [if_neg hwidth, Option.map_some]
  split <;> rfl

/-- Near misses can be told. -/
theorem suggestLine?_eq (t fragment : Text) :
    suggestLine? t fragment = some (suggestLine t fragment) := by
  unfold suggestLine? suggestLine
  dsimp only
  split
  · rfl
  · next hne =>
      simp only [fragmentDistance?_eq hne, Option.map_some]
      have hscored := List.mapM_pure (m := Option)
        (l := ((lines t).map trim).filter (· ≠ []))
        (f := fun line ↦ (line, fragmentDistance (trim fragment) line))
      simp only [Option.pure_def] at hscored
      rw [hscored]
      rfl

/-- The hint for an edit without matches can be given. -/
theorem hint?_eq (t : Text) (edit : Edit) :
    hint? t edit = some (edit.anchors.head?.bind (suggestLine t)) := by
  unfold hint?
  cases edit.anchors.head? with
  | none => rfl
  | some anchor => exact suggestLine?_eq t anchor

/-! ## Claims -/

/-- Searches for the remaining matches of the edit at position `index`, cuts each out and claims it.
The matches that were claimed before come first in what is found, also when an error ends the
claims. -/
def collect? (t : Text) (index : Nat) (edit : Edit) (start : Nat) (found : List Match)
    (spans : List PlannedSpan) :
    Option (Except (EditError × List Match) (List PlannedSpan × List Match)) :=
  match h : find? t edit.anchors start with
  | none =>
      if found = [] ∧ edit.allowZero = false then
        (hint? t edit).map fun hint ↦ .error (.noMatch index hint, found)
      else some (.ok (spans, found))
  | some raw =>
      have := Anchor.find?_bounds (find?_eq t edit.anchors start ▸ h)
      let lines := align t raw
      match cut? t lines.start lines.stop with
      | none => none
      | some text =>
          let found := found ++ [⟨lines.start, lines.stop, text⟩]
          match Plan.claim index lines spans with
          | .error other => some (.error (.collision index other lines.start, found))
          | .ok spans =>
              if 1 < found.length ∧ edit.allowMultiple = false then
                some (.error (.multipleMatches index found.length, found))
              else collect? t index edit raw.stop found spans
termination_by t.size - start

/-- Plans the remaining edits, the first of which has the position `index`, on top of the spans and
results of the edits before. -/
def extend? (t : Text) (index : Nat) (plan : Plan) : List Edit → Option (Except PlanFailure Plan)
  | [] => some (.ok plan)
  | edit :: rest => do
      match ← collect? t index edit 0 [] plan.spans with
      | .error (error, found) =>
          return .error ⟨error, plan.results ++ [⟨found, some error⟩]⟩
      | .ok (spans, found) =>
          extend? t (index + 1) ⟨spans, plan.results ++ [⟨found, none⟩]⟩ rest

/-- The plan for a list of edits. -/
def ofEdits? (t : Text) (edits : List Edit) : Option (Except PlanFailure Plan) :=
  extend? t 0 ⟨[], []⟩ edits

variable {t : Text} {index start : Nat} {edit : Edit} {found : List Match}
  {spans : List PlannedSpan}

/-- When nothing more is found, the matches are counted. -/
theorem collect?_of_none (h : Anchor.find? t edit.anchors start = none) :
    collect? t index edit start found spans =
      some (Plan.claimAll t index edit found spans []) := by
  rw [← find?_eq] at h
  rw [collect?]
  split
  · rw [Plan.claimAll, hint?_eq]
    split <;> rfl
  · next raw hraw => cases h.symm.trans hraw

/-- The lines of a match can be cut out. -/
theorem cut?_of_find? {raw : Span} (h : Anchor.find? t edit.anchors start = some raw) :
    cut? t (align t raw).start (align t raw).stop = some (Plan.matchAt t raw).text := by
  have hmem : raw ∈ Anchor.findAll t edit.anchors start := by
    rw [Anchor.findAll_of_some h]
    exact List.mem_cons_self
  rw [align_eq]
  exact cut?_of_isLineRun (Anchor.isLineRun_align hmem)

/-- Matches are searched for, cut out and claimed to the end, with the outcome that the claims of
all matches have. -/
theorem collect?_eq (t : Text) (index : Nat) (edit : Edit) (start : Nat) (found : List Match)
    (spans : List PlannedSpan) :
    collect? t index edit start found spans = some (Plan.claimAll t index edit found spans
      ((Anchor.findAll t edit.anchors start).map (Plan.matchAt t))) := by
  fun_induction Anchor.findAll t edit.anchors start generalizing found spans with
  | case1 start hnone => exact collect?_of_none hnone
  | case2 start raw hraw hbounds ih =>
      have hcut := cut?_of_find? hraw
      have hfind : find? t edit.anchors start = some raw :=
        (find?_eq t edit.anchors start).trans hraw
      rw [align_eq] at hcut
      rw [collect?, List.map_cons, Plan.claimAll]
      split
      · next hnone => cases hnone.symm.trans hfind
      · next raw' hraw' =>
          cases hraw'.symm.trans hfind
          have hlines : (⟨(Plan.matchAt t raw).start, (Plan.matchAt t raw).stop⟩ : Span) =
              Anchor.align t raw := rfl
          simp only [align_eq, hcut, hlines]
          cases Plan.claim index (Anchor.align t raw) spans with
          | error other => rfl
          | ok spans' =>
              dsimp only
              split
              · next hmany => exact (congrArg some (if_pos hmany)).symm
              · next hfew =>
                  rw [ih]
                  exact (congrArg some (if_neg hfew)).symm

/-- Planning goes on to the end. -/
theorem extend?_eq (t : Text) (index : Nat) (plan : Plan) (edits : List Edit) :
    extend? t index plan edits = some (Plan.extend t index plan edits) := by
  induction edits generalizing index plan with
  | nil => rfl
  | cons edit rest ih =>
      rw [extend?, collect?_eq, Plan.extend]
      show (match Plan.claimAll t index edit [] plan.spans (Plan.matchesOf t edit) with
        | .error (error, found) => _
        | .ok (spans, found) => _) = _
      cases Plan.claimAll t index edit [] plan.spans (Plan.matchesOf t edit) with
      | error failed => rfl
      | ok claimed => exact ih _ _

/-- Planning comes to its end, with the plan or the failure that the edits lead to. -/
theorem ofEdits?_eq (t : Text) (edits : List Edit) :
    ofEdits? t edits = some (Plan.ofEdits t edits) :=
  extend?_eq t 0 ⟨[], []⟩ edits

end Checked

end MarkedEdits
