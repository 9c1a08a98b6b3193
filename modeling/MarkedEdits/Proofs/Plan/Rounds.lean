import Mathlib.Logic.Basic
import MarkedEdits.Proofs.Embedding
import MarkedEdits.Proofs.Plan.Claims

/-!
# The rounds in which an edit claims its matches

An edit searches for one match at a time, from the end of the one before, and claims it before it
searches for the next. `Rounds` follows this loop. It always ends, as the claims of all matches do
(`exists_rounds`, `outcome_of_rounds`), and the matches of its rounds are the first ones of a scan.
`search_misses_nothing` says that the loop passes over no embedding of the anchors, neither between
two matches nor, unless an error stops it, behind the last one.
-/

namespace MarkedEdits

open Text

namespace Anchor

variable {t : Text} {anchors : List Text} {start : Nat}

/-! ## Scans -/

/-- A scan ends where a search finds nothing. -/
theorem findAll_of_none (h : find? t anchors start = none) : findAll t anchors start = [] := by
  rw [findAll]
  split
  · rfl
  · next hspan => cases h.symm.trans hspan

/-- A scan goes on from the end of what a search finds. -/
theorem findAll_of_some {span : Span} (h : find? t anchors start = some span) :
    findAll t anchors start = span :: findAll t anchors span.stop := by
  rw [findAll]
  split
  · next hnone => cases h.symm.trans hnone
  · next found hfound =>
      cases h.symm.trans hfound
      rfl

/-- No match of a scan begins before the scan. -/
theorem start_le_of_mem_findAll {span : Span} (h : span ∈ findAll t anchors start) :
    start ≤ span.start := by
  fun_induction findAll t anchors start with
  | case1 start hnone => cases h
  | case2 start first hfirst hbounds ih =>
      rcases List.mem_cons.mp h with rfl | hbehind
      · exact (find?_embeds hfirst).1
      · exact Nat.le_trans (Nat.le_of_lt hbounds.1) (ih hbehind)

/-- Every match of a scan ends before the next one begins. -/
theorem pairwise_findAll (t : Text) (anchors : List Text) (start : Nat) :
    (findAll t anchors start).Pairwise (·.stop ≤ ·.start) := by
  fun_induction findAll t anchors start with
  | case1 start hnone => exact List.Pairwise.nil
  | case2 start first hfirst hbounds ih =>
      exact List.pairwise_cons.mpr ⟨fun _ ↦ start_le_of_mem_findAll, ih⟩

/-- The anchors are embedded in every match of a scan. -/
theorem embeds_of_mem_findAll {span : Span} (h : span ∈ findAll t anchors start) :
    Embeds t anchors span.start span.stop := by
  obtain ⟨start', hfind⟩ := find?_of_mem_findAll h
  exact (find?_embeds hfind).2.2.1

/-- The matches of a scan have room behind its start. -/
theorem length_findAll_mul_le (t : Text) (anchors : List Text) (start : Nat) :
    (findAll t anchors start).length * size anchors.flatten ≤ size t - start := by
  fun_induction findAll t anchors start with
  | case1 start hnone => simp
  | case2 start first hfirst hbounds ih =>
      have hsize := (find?_embeds hfirst).2.2.1.size_le
      have hbegin := (find?_embeds hfirst).1
      have hend := hbounds.2
      rw [List.length_cons, Nat.succ_mul]
      omega

/-- A match of a scan behind another is the next thing found from the end of that one. -/
theorem find?_of_findAll_eq_append {before after : List Span} {raw next : Span}
    (h : findAll t anchors start = before ++ raw :: next :: after) :
    find? t anchors raw.stop = some next := by
  fun_induction findAll t anchors start generalizing before with
  | case1 start hnone => simp at h
  | case2 start first hfirst hbounds ih =>
      cases before with
      | cons other before => exact ih (List.cons.inj h).2
      | nil =>
          obtain ⟨rfl, hrest⟩ := List.cons.inj h
          cases hnext : find? t anchors first.stop with
          | none => simp [findAll_of_none hnext] at hrest
          | some found =>
              rw [findAll_of_some hnext] at hrest
              rw [(List.cons.inj hrest).1]

/-- Nothing is embedded behind all matches of a scan. -/
theorem not_embeds_of_findAll (hempty : [] ∉ anchors) (hstart : IsBoundary t start)
    {first stop : Nat} (hle : start ≤ first)
    (hbehind : ∀ raw ∈ findAll t anchors start, raw.stop ≤ first) :
    ¬ Embeds t anchors first stop := by
  fun_induction findAll t anchors start with
  | case1 start hnone => exact not_embeds_of_find?_eq_none hempty hstart hnone hle
  | case2 start span hspan hbounds ih =>
      obtain ⟨hfirst, hrest⟩ := List.forall_mem_cons.mp hbehind
      exact ih (find?_spec hspan).2.1 hfirst hrest

/-- A match lies within the lines that it is widened to. -/
theorem within_align {span : Span} (h : Embeds t anchors span.start span.stop) :
    (align t span).start ≤ span.start ∧ span.stop ≤ (align t span).stop :=
  ⟨(lineStart_spec h.isBoundary).2, (lineEnd_spec h.isBoundary_end).2⟩

end Anchor

namespace Plan

open Anchor

variable {t : Text} {index : Nat} {edit : Edit}

/-- The lines of a match and the text that they hold. -/
def matchAt (t : Text) (raw : Span) : Match :=
  let lines := align t raw
  ⟨lines.start, lines.stop, t.slice lines.start lines.stop⟩

/-- The matches that an edit has found, also when an error has stopped it. -/
def recorded : Except (EditError × List Match) (List PlannedSpan × List Match) → List Match
  | .ok (_, found) | .error (_, found) => found

/-- The rounds of an edit from the offset `start` on, when it has found some matches and spans are
claimed. Each round searches for a match, records it and claims its lines. `raws` are the matches
of the rounds before they are widened to whole lines. -/
inductive Rounds (t : Text) (index : Nat) (edit : Edit) :
    Nat → List Match → List PlannedSpan → List Span →
      Except (EditError × List Match) (List PlannedSpan × List Match) → Prop
  | missing {start : Nat} {spans : List PlannedSpan}
      (hnone : find? t edit.anchors start = none) (hzero : edit.allowZero = false) :
      Rounds t index edit start [] spans []
        (.error (.noMatch index (edit.anchors.head?.bind (suggestLine t)), []))
  | finished {start : Nat} {found : List Match} {spans : List PlannedSpan}
      (hnone : find? t edit.anchors start = none)
      (hzero : found ≠ [] ∨ edit.allowZero = true) :
      Rounds t index edit start found spans [] (.ok (spans, found))
  | collides {start other : Nat} {found : List Match} {spans : List PlannedSpan} {raw : Span}
      (hraw : find? t edit.anchors start = some raw)
      (hclaim : claim index (align t raw) spans = .error other) :
      Rounds t index edit start found spans [raw]
        (.error (.collision index other (align t raw).start, found ++ [matchAt t raw]))
  | exceeds {start : Nat} {found : List Match} {spans spans' : List PlannedSpan} {raw : Span}
      (hraw : find? t edit.anchors start = some raw)
      (hclaim : claim index (align t raw) spans = .ok spans')
      (hmany : found ≠ [] ∧ edit.allowMultiple = false) :
      Rounds t index edit start found spans [raw]
        (.error (.multipleMatches index (found.length + 1), found ++ [matchAt t raw]))
  | next {start : Nat} {found : List Match} {spans spans' : List PlannedSpan} {raw : Span}
      {raws : List Span} {outcome : Except (EditError × List Match) (List PlannedSpan × List Match)}
      (hraw : find? t edit.anchors start = some raw)
      (hclaim : claim index (align t raw) spans = .ok spans')
      (hfew : found = [] ∨ edit.allowMultiple = true)
      (rest : Rounds t index edit raw.stop (found ++ [matchAt t raw]) spans' raws outcome) :
      Rounds t index edit start found spans (raw :: raws) outcome

/-! ## The end of the rounds -/

/-- The rounds end, and they end as the claims of all matches of a scan do. -/
theorem exists_rounds (t : Text) (index : Nat) (edit : Edit) (start : Nat) (found : List Match)
    (spans : List PlannedSpan) :
    ∃ raws, Rounds t index edit start found spans raws
      (claimAll t index edit found spans ((findAll t edit.anchors start).map (matchAt t))) := by
  fun_induction findAll t edit.anchors start generalizing found spans with
  | case1 start hnone =>
      simp only [List.map_nil, claimAll]
      split
      · next hfew =>
          obtain ⟨rfl, hzero⟩ := hfew
          exact ⟨[], .missing hnone hzero⟩
      · next henough =>
          refine ⟨[], .finished hnone ?_⟩
          rwa [not_and_or, Bool.not_eq_false] at henough
  | case2 start raw hraw hbounds ih =>
      simp only [List.map_cons, claimAll]
      split
      · next other hclaim => exact ⟨[raw], .collides hraw hclaim⟩
      · next spans' hclaim =>
          rw [List.length_append, List.length_singleton]
          split
          · next hmany =>
              refine ⟨[raw], .exceeds hraw hclaim ⟨?_, hmany.2⟩⟩
              exact List.length_pos_iff.mp (Nat.lt_of_succ_lt_succ hmany.1)
          · next hfew =>
              obtain ⟨raws, hrest⟩ := ih (found ++ [matchAt t raw]) spans'
              refine ⟨raw :: raws, .next hraw hclaim ?_ hrest⟩
              rw [not_and_or, Bool.not_eq_false, Nat.succ_lt_succ_iff, List.length_pos_iff,
                not_not] at hfew
              exact hfew

/-- However the rounds end, they end as the claims of all matches of a scan do, with the first
matches of the scan. -/
theorem outcome_of_rounds {start : Nat} {found : List Match} {spans : List PlannedSpan}
    {raws : List Span} {outcome : Except (EditError × List Match) (List PlannedSpan × List Match)}
    (h : Rounds t index edit start found spans raws outcome) :
    outcome = claimAll t index edit found spans ((findAll t edit.anchors start).map (matchAt t)) ∧
      raws <+: findAll t edit.anchors start ∧ recorded outcome = found ++ raws.map (matchAt t) := by
  induction h with
  | missing hnone hzero => simp [findAll_of_none hnone, claimAll, hzero, recorded]
  | @finished start found spans hnone hzero =>
      have henough : ¬ (found = [] ∧ edit.allowZero = false) := by
        rwa [not_and_or, Bool.not_eq_false]
      simp [findAll_of_none hnone, claimAll, henough, recorded]
  | collides hraw hclaim =>
      rw [findAll_of_some hraw, List.map_cons, claimAll]
      simp [matchAt, hclaim, recorded]
  | exceeds hraw hclaim hmany =>
      rw [findAll_of_some hraw, List.map_cons, claimAll]
      simp [matchAt, hclaim, hmany, recorded, List.length_pos_iff]
  | @next start found spans spans' raw raws outcome hraw hclaim hfew rest ih =>
      obtain ⟨houtcome, hbegin, hrecorded⟩ := ih
      have hallowed : ¬ (1 < (found ++ [matchAt t raw]).length ∧ edit.allowMultiple = false) := by
        rw [List.length_append, List.length_singleton, Nat.succ_lt_succ_iff, List.length_pos_iff,
          not_and_or, not_not, Bool.not_eq_false]
        exact hfew
      have hlines : claim index ⟨(matchAt t raw).start, (matchAt t raw).stop⟩ spans = .ok spans' :=
        hclaim
      rw [findAll_of_some hraw, List.map_cons, claimAll]
      refine ⟨?_, List.cons_prefix_cons.mpr ⟨rfl, hbegin⟩, by simpa using hrecorded⟩
      simp only [hlines, if_neg hallowed, houtcome]

/-! ## What the rounds find -/

/-- The matches come one after the other from the start of the text on, they pass over no embedding
of the anchors, and the lines that they are widened to come in their order. -/
structure Sweeps (t : Text) (anchors : List Text) (raws : List Span) : Prop where
  bounded : raws.length * size anchors.flatten ≤ size t
  embedded : ∀ raw ∈ raws, Embeds t anchors raw.start raw.stop
  proper : ∀ raw ∈ raws, raw.start < raw.stop
  apart : raws.Pairwise (·.stop ≤ ·.start)
  earliest_first : ∀ next ∈ raws.head?, ∀ first stop, Embeds t anchors first stop →
    next.stop ≤ stop
  earliest : ∀ before raw next after, raws = before ++ raw :: next :: after →
    ∀ first stop, raw.stop ≤ first → Embeds t anchors first stop → next.stop ≤ stop
  ordered : (raws.map (matchAt t)).Pairwise fun a b ↦ a.start ≤ b.start ∧ a.stop ≤ b.stop
  within : ∀ raw ∈ raws, (matchAt t raw).start ≤ raw.start ∧ raw.stop ≤ (matchAt t raw).stop

/-- A scan from the start of the text passes over nothing. -/
theorem sweeps_findAll (t : Text) {anchors : List Text} :
    Sweeps t anchors (findAll t anchors 0) where
  bounded := length_findAll_mul_le t anchors 0
  embedded := fun _ ↦ embeds_of_mem_findAll
  proper := by
    intro raw hraw
    obtain ⟨start, hfind⟩ := find?_of_mem_findAll hraw
    exact (find?_spec hfind).2.2
  apart := pairwise_findAll t anchors 0
  earliest_first := by
    intro next hnext first stop hembeds
    cases hfind : find? t anchors 0 with
    | none => simp [findAll_of_none hfind] at hnext
    | some span =>
        obtain rfl : span = next := by simpa [findAll_of_some hfind] using hnext
        exact (find?_embeds hfind).2.1.2 ⟨first, Nat.zero_le first, hembeds⟩
  earliest := by
    intro before raw next after hscan first stop hbehind hembeds
    have hfind := find?_of_findAll_eq_append hscan
    exact (find?_embeds hfind).2.1.2 ⟨first, hbehind, hembeds⟩
  ordered := by
    rw [List.pairwise_map]
    refine (pairwise_findAll t anchors 0).imp_of_mem fun {a b} ha hb hapart ↦ ?_
    have hfirst := embeds_of_mem_findAll ha
    have hsecond := embeds_of_mem_findAll hb
    -- a match has some length, so both of its ends come before those of a later one
    have hlong := hfirst.size_le
    have hlong' := hsecond.size_le
    exact ⟨lineStart_mono hsecond.isBoundary (by omega),
      lineEnd_mono hfirst.isBoundary_end (by omega)⟩
  within := fun _ hraw ↦ within_align (embeds_of_mem_findAll hraw)

/-- The first matches of a sweep are a sweep. -/
theorem Sweeps.of_beginning {anchors : List Text} {raws all : List Span} (h : Sweeps t anchors all)
    (hbegin : raws <+: all) : Sweeps t anchors raws where
  bounded := Nat.le_trans (Nat.mul_le_mul_right _ hbegin.length_le) h.bounded
  embedded := fun raw hraw ↦ h.embedded raw (hbegin.subset hraw)
  proper := fun raw hraw ↦ h.proper raw (hbegin.subset hraw)
  apart := h.apart.sublist hbegin.sublist
  earliest_first := by
    obtain ⟨behind, rfl⟩ := hbegin
    intro next hnext
    exact h.earliest_first next (by simp [Option.mem_def.mp hnext])
  earliest := by
    obtain ⟨behind, rfl⟩ := hbegin
    rintro before raw next after rfl
    exact h.earliest before raw next (after ++ behind) (by simp)
  ordered := h.ordered.sublist (hbegin.sublist.map _)
  within := fun raw hraw ↦ h.within raw (hbegin.subset hraw)

/-- The rounds of an edit end in exactly one way, and what they find passes over no embedding of the
anchors: none between two matches, and none behind the last one unless an error has ended the
rounds. The matches are recorded in this order with the whole lines that hold them. -/
theorem search_misses_nothing (t : Text) (index : Nat) (edit : Edit) (spans : List PlannedSpan) :
    let outcome := claimAll t index edit [] spans (matchesOf t edit)
    ∃ raws,
      (∀ raws' outcome', Rounds t index edit 0 [] spans raws' outcome' ↔
        raws' = raws ∧ outcome' = outcome) ∧
      Sweeps t edit.anchors raws ∧ recorded outcome = raws.map (matchAt t) ∧
      ∀ result, outcome = .ok result → ∀ first stop, (∀ raw ∈ raws, raw.stop ≤ first) →
        ¬ Embeds t edit.anchors first stop := by
  intro outcome
  obtain ⟨raws, hrounds⟩ := exists_rounds t index edit 0 [] spans
  obtain ⟨-, hbegin, hrecorded⟩ := outcome_of_rounds hrounds
  refine ⟨raws, fun raws' outcome' ↦ ⟨fun hrounds' ↦ ?_, ?_⟩,
    (sweeps_findAll t).of_beginning hbegin, hrecorded, fun result hok first stop hbehind ↦ ?_⟩
  · -- both are the beginning of the scan, with as many matches as are recorded
    obtain ⟨rfl, hbegin', hrecorded'⟩ := outcome_of_rounds hrounds'
    have hlength : raws'.length = raws.length := by
      simpa using congrArg List.length (hrecorded'.symm.trans hrecorded)
    refine ⟨?_, rfl⟩
    rw [List.prefix_iff_eq_take.mp hbegin, List.prefix_iff_eq_take.mp hbegin', hlength]
  · rintro ⟨rfl, rfl⟩
    exact hrounds
  · -- without an error every match of the scan is recorded
    obtain ⟨hfound, -⟩ := claimAll_ok (hok : claimAll t index edit [] spans (matchesOf t edit) = _)
    have hlength : raws.length = (findAll t edit.anchors 0).length := by
      have hall : result.2 = [] ++ raws.map (matchAt t) := by
        rw [← hrecorded]
        exact (congrArg recorded hok).symm
      simpa [matchesOf] using congrArg List.length (hall.symm.trans hfound)
    rw [hbegin.eq_of_length hlength] at hbehind
    refine not_embeds_of_findAll ?_ (isBreak_zero t).isBoundary (Nat.zero_le first) hbehind
    exact fun hempty ↦ edit.anchor_ne_nil [] hempty rfl

end Plan

end MarkedEdits
