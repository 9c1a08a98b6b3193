import MarkedEdits.Text.Lines

/-!
# Matching anchors

A list of anchors is matched by the smallest span of a text that holds all of them in order: the
end of the span is as early as it can be, and its start is then as late as it can be. Matches are
found one after the other, each from the end of the one before, and are widened to whole lines.
-/

namespace MarkedEdits

/-- A range of byte offsets. -/
structure Span where
  start : Nat
  stop : Nat
  deriving DecidableEq, Repr

namespace Anchor

/-- Where the last anchor ends when every anchor is taken as early as possible, one after the
other, from an offset on. -/
def earliestEnd (t : Text) : List Text → Nat → Option Nat
  | [], stop => some stop
  | anchor :: rest, start => do
      let found ← Text.findFrom t anchor start
      earliestEnd t rest (found + anchor.size)

/-- Where the last of the anchors begins when every anchor is taken as late as possible, one before
the other, back from an offset. -/
def latestStart (t : Text) : List Text → Nat → Option Nat
  | [], start => some start
  | anchor :: rest, stop => do
      let found ← Text.rfindWithin t anchor stop
      latestStart t rest found

/-- The smallest span from `start` on that holds all anchors in order. There is none for an empty
list of anchors or an empty anchor. -/
def find? (t : Text) (anchors : List Text) (start : Nat) : Option Span :=
  if anchors = [] ∨ anchors.contains [] then none
  else do
    let stop ← earliestEnd t anchors start
    let first ← latestStart t anchors.reverse stop
    return ⟨first, stop⟩

/-- The span widened to whole lines. -/
def align (t : Text) (span : Span) : Span :=
  ⟨Text.lineStart t span.start, Text.lineEnd t span.stop⟩

/-- Anchors end no earlier than where their search starts, and within the text. -/
theorem earliestEnd_bounds {t : Text} {anchors : List Text} {start stop : Nat}
    (h : earliestEnd t anchors start = some stop) :
    start + Text.size anchors.flatten ≤ stop ∧ (anchors ≠ [] → stop ≤ t.size) := by
  induction anchors generalizing start with
  | nil =>
      cases h
      simp
  | cons anchor rest ih =>
      simp only [earliestEnd, Option.bind_eq_bind, Option.bind_eq_some_iff] at h
      obtain ⟨found, hfind, hrest⟩ := h
      have hbounds := Text.findFrom_bounds hfind
      have htail := ih hrest
      refine ⟨?_, fun _ ↦ ?_⟩
      · simp only [List.flatten_cons, Text.size_append]
        omega
      · cases rest with
        | nil =>
            cases hrest
            exact hbounds.2
        | cons next rest => exact htail.2 (by simp)

/-- A search finds a span when the forward pass ends where the span ends and the backward pass leads
from there to where it begins. -/
theorem find?_eq_some_iff {t : Text} {anchors : List Text} {start : Nat} {span : Span} :
    find? t anchors start = some span ↔
      (anchors ≠ [] ∧ [] ∉ anchors) ∧ earliestEnd t anchors start = some span.stop ∧
        latestStart t anchors.reverse span.stop = some span.start := by
  obtain ⟨first, stop⟩ := span
  have hvalid : (anchors ≠ [] ∧ [] ∉ anchors) ↔ ¬ (anchors = [] ∨ anchors.contains []) := by
    simp [not_or]
  rw [hvalid]
  unfold find?
  split
  · next hinvalid => simp only [hinvalid, not_true_eq_false, false_and, reduceCtorEq]
  · next hne =>
      simp only [hne, not_false_eq_true, true_and, Option.bind_eq_bind,
        Option.bind_eq_some_iff, Option.pure_def, Option.some.injEq, Span.mk.injEq]
      constructor
      · rintro ⟨_, hstop, _, hfirst, rfl, rfl⟩
        exact ⟨hstop, hfirst⟩
      · rintro ⟨hstop, hfirst⟩
        exact ⟨stop, hstop, first, hfirst, rfl, rfl⟩

/-- A match ends after the start of its search and within the text. -/
theorem find?_bounds {t : Text} {anchors : List Text} {start : Nat} {span : Span}
    (h : find? t anchors start = some span) : start < span.stop ∧ span.stop ≤ t.size := by
  obtain ⟨⟨hnil, hempty⟩, hstop, -⟩ := find?_eq_some_iff.mp h
  obtain ⟨hsum, hle⟩ := earliestEnd_bounds hstop
  refine ⟨?_, hle hnil⟩
  cases anchors with
  | nil => exact absurd rfl hnil
  | cons anchor rest =>
      have hpos := Text.size_pos (t := anchor) fun hanchor ↦ hempty (by simp [hanchor])
      simp only [List.flatten_cons, Text.size_append] at hsum
      omega

/-- All matches from `start` on, each found from the end of the one before. -/
def findAll (t : Text) (anchors : List Text) (start : Nat) : List Span :=
  match h : find? t anchors start with
  | none => []
  | some span =>
      have := find?_bounds h
      span :: findAll t anchors span.stop
termination_by t.size - start

end Anchor

end MarkedEdits
