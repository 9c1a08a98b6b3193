import MarkedEdits.Proofs.Plan.Acceptance
import MarkedEdits.Proofs.Plan.Failure

/-!
# Which plans cannot be rendered

Rendering compares every span with the one before it only. As the spans are in order that is enough:
as long as no span begins before the one before it ends, none meets any span before it. Read
`rejects_overlaps` first: a plan is rejected when two of its spans have a byte in common, and the
error names the first span that meets one before it, and the owner of that one.
-/

namespace MarkedEdits

open Text

/-- The spans have a byte in common. -/
def PlannedSpan.Meets (a b : PlannedSpan) : Prop :=
  ∃ byte, (a.start ≤ byte ∧ byte < a.stop) ∧ b.start ≤ byte ∧ byte < b.stop

/-- Spans meet when the later of their starts is before the earlier of their ends. -/
theorem PlannedSpan.meets_iff_max_lt {a b : PlannedSpan} :
    a.Meets b ↔ max a.start b.start < min a.stop b.stop := by
  constructor
  · rintro ⟨byte, ha, hb⟩
    omega
  · intro h
    exact ⟨max a.start b.start, by omega⟩

/-- Whether spans meet is decided by comparing their ends. -/
instance (a b : PlannedSpan) : Decidable (a.Meets b) :=
  decidable_of_iff _ PlannedSpan.meets_iff_max_lt.symm

/-- Spans that are not empty meet when neither ends before the other begins. -/
theorem PlannedSpan.not_meets_iff_apart {a b : PlannedSpan} (ha : a.start < a.stop)
    (hb : b.start < b.stop) : ¬ a.Meets b ↔ a.Apart b := by
  rw [meets_iff_max_lt, Apart]
  omega

/-- A span meets one that begins later when that one begins before the span ends. -/
theorem PlannedSpan.meets_iff_of_lt {a b : PlannedSpan} (hstart : a.start < b.start)
    (hb : b.start < b.stop) : a.Meets b ↔ b.start < a.stop := by
  rw [meets_iff_max_lt]
  omega

namespace Plan

/-- The span `later` is the first one, in the order of the starts, that meets a span that begins
before it, and `earlier` is such a span. -/
structure FirstOverlap (spans : List PlannedSpan) (earlier later : PlannedSpan) : Prop where
  earlier_mem : earlier ∈ spans
  later_mem : later ∈ spans
  begins : earlier.start < later.start
  meets : earlier.Meets later
  first : ∀ a ∈ spans, ∀ b ∈ spans, a.start < b.start → a.Meets b → later.start ≤ b.start

section Spans

variable {spans : List PlannedSpan} (hord : spans.Pairwise (·.start < ·.start))
  (hspans : ∀ span ∈ spans, span.start < span.stop)

include hord hspans

/-- The first span that begins before the span before it ends is the first that meets any span
before it. -/
theorem firstOverlap_of_split {before after : List PlannedSpan} {a b : PlannedSpan}
    (hsplit : spans = before ++ a :: b :: after) (hfits : Fits 0 (before ++ [a]))
    (hlt : b.start < a.stop) : FirstOverlap spans a b := by
  have hsplit' : spans = (before ++ [a]) ++ b :: after := by simp [hsplit]
  have hmem : ∀ span ∈ before ++ [a], span ∈ spans := by
    intro span hspan
    rw [hsplit']
    exact List.mem_append_left _ hspan
  have hb : b ∈ spans := by simp [hsplit]
  have hbehind : ∀ span ∈ before ++ [a], span.start < b.start := by
    rw [hsplit'] at hord
    intro span hspan
    exact (List.pairwise_append.mp hord).2.2 span hspan b List.mem_cons_self
  have hstart : a.start < b.start := hbehind a (by simp)
  refine ⟨hmem a (by simp), hb, hstart, ?_, ?_⟩
  · exact (PlannedSpan.meets_iff_of_lt hstart (hspans b hb)).mpr hlt
  · intro first hfirst second hsecond hlater hmeets
    apply Nat.le_of_not_lt
    intro hearly
    -- otherwise both spans are among those that fit
    have hfront : ∀ span ∈ spans, span.start < b.start → span ∈ before ++ [a] := by
      intro span hspan hspanStart
      rw [hsplit'] at hspan hord
      rcases List.mem_append.mp hspan with hspan | hspan
      · exact hspan
      · have htail := (List.pairwise_append.mp hord).2.1
        rcases List.mem_cons.mp hspan with rfl | hspan
        · omega
        · have := List.rel_of_pairwise_cons htail hspan
          omega
    have hwithin := (PlannedSpan.meets_iff_of_lt hlater (hspans second hsecond)).mp hmeets
    have hsame := hfits.eq_of_start_within (fun span hspan ↦ hspans span (hmem span hspan))
      (hfront first hfirst (by omega)) (hfront second hsecond hearly) (Nat.le_of_lt hlater) hwithin
    rw [hsame] at hlater
    omega

/-- There is only one first overlap. -/
theorem FirstOverlap.unique {a b a' b' : PlannedSpan} (h : FirstOverlap spans a b)
    (h' : FirstOverlap spans a' b') : a = a' ∧ b = b' := by
  have hle := h.first a' h'.earlier_mem b' h'.later_mem h'.begins h'.meets
  have hle' := h'.first a h.earlier_mem b h.later_mem h.begins h.meets
  have hlater : b = b' := eq_of_start_eq hord h.later_mem h'.later_mem (by omega)
  refine ⟨?_, hlater⟩
  subst hlater
  have hb := hspans b h.later_mem
  have hends := (PlannedSpan.meets_iff_of_lt h.begins hb).mp h.meets
  have hends' := (PlannedSpan.meets_iff_of_lt h'.begins hb).mp h'.meets
  -- of two spans that reach to the later one, the one that begins first would meet the other
  have hnot : ∀ x y, x ∈ spans → y ∈ spans → b.start < x.stop → y.start < b.start →
      ¬ x.start < y.start := by
    intro x y hx hy hreach hearly hlt
    have hmeets : x.Meets y :=
      (PlannedSpan.meets_iff_of_lt hlt (hspans y hy)).mpr (by omega)
    have := h.first x hx y hy hlt hmeets
    omega
  have hge := hnot a a' h.earlier_mem h'.earlier_mem hends h'.begins
  have hge' := hnot a' a h'.earlier_mem h.earlier_mem hends' h.begins
  exact eq_of_start_eq hord h.earlier_mem h'.earlier_mem (by omega)

end Spans

variable {t : Text} {edits : List Edit} {plan : Plan}

/-- The spans of a plan fit when no two of them meet. -/
theorem fits_iff_not_meets (hplan : ofEdits t edits = .ok plan) :
    Fits 0 plan.spans ↔ ∀ a ∈ plan.spans, ∀ b ∈ plan.spans, a ≠ b → ¬ a.Meets b := by
  rw [fits_spans_iff hplan]
  have happart : ∀ a ∈ plan.spans, ∀ b ∈ plan.spans, ¬ a.Meets b ↔ a.Apart b :=
    fun a ha b hb ↦ PlannedSpan.not_meets_iff_apart (isLineRun_span hplan ha).lt
      (isLineRun_span hplan hb).lt
  constructor
  · exact fun h a ha b hb hne ↦ (happart a ha b hb).mpr (h a ha b hb hne)
  · exact fun h a ha b hb hne ↦ (happart a ha b hb).mp (h a ha b hb hne)

/-- When a plan cannot be rendered, the error names the owners of its first overlap. -/
theorem exists_firstOverlap {markers : Markers} {error : EditError}
    (hplan : ofEdits t edits = .ok plan) (h : plan.render t edits markers = .error error) :
    ∃ earlier later, FirstOverlap plan.spans earlier later ∧
      error = .overlap later.owner earlier.owner later.start := by
  obtain ⟨before, a, b, after, hsplit, hfits, hlt, herror⟩ := render_error_split hplan h
  refine ⟨a, b, ?_, herror⟩
  exact firstOverlap_of_split (ofEdits_accounts hplan).ordered
    (fun _ hspan ↦ (isLineRun_span hplan hspan).lt) hsplit hfits hlt

/-- A plan with an overlap cannot be rendered. -/
theorem exists_error_of_overlap (markers : Markers) (hplan : ofEdits t edits = .ok plan)
    (h : ∃ a ∈ plan.spans, ∃ b ∈ plan.spans, a ≠ b ∧ a.Meets b) :
    ∃ error, plan.render t edits markers = .error error := by
  cases hrender : plan.render t edits markers with
  | error error => exact ⟨error, rfl⟩
  | ok result =>
      obtain ⟨a, ha, b, hb, hne, hmeets⟩ := h
      have hfits := (render_ok_iff markers hplan).mp ⟨result, hrender⟩
      exact absurd hmeets ((fits_iff_not_meets hplan).mp hfits a ha b hb hne)

/-- A plan is rejected exactly if two of its spans have a byte in common. The error then gives the
start and the owner of the first span that meets one that begins before it, and the owner of a span
that it meets. All other plans are rendered. -/
theorem rejects_overlaps (markers : Markers) (hplan : ofEdits t edits = .ok plan) :
    ((∃ error, plan.render t edits markers = .error error) ↔
      ∃ a ∈ plan.spans, ∃ b ∈ plan.spans, a ≠ b ∧ a.Meets b) ∧
    (∀ error, plan.render t edits markers = .error error ↔
      ∃ earlier later, FirstOverlap plan.spans earlier later ∧
        error = .overlap later.owner earlier.owner later.start) ∧
    ((¬ ∃ a ∈ plan.spans, ∃ b ∈ plan.spans, a ≠ b ∧ a.Meets b) →
      ∃ result, plan.render t edits markers = .ok result) := by
  have hoverlaps : ∀ {a b : PlannedSpan}, FirstOverlap plan.spans a b →
      ∃ a ∈ plan.spans, ∃ b ∈ plan.spans, a ≠ b ∧ a.Meets b := by
    intro a b h
    exact ⟨a, h.earlier_mem, b, h.later_mem, PlannedSpan.ne_of_start_lt h.begins, h.meets⟩
  refine ⟨⟨?_, exists_error_of_overlap markers hplan⟩, fun error ↦ ⟨exists_firstOverlap hplan, ?_⟩,
    fun hnone ↦ ?_⟩
  · rintro ⟨error, h⟩
    obtain ⟨a, b, hfirst, -⟩ := exists_firstOverlap hplan h
    exact hoverlaps hfirst
  · rintro ⟨earlier, later, hfirst, rfl⟩
    obtain ⟨error, h⟩ := exists_error_of_overlap markers hplan (hoverlaps hfirst)
    obtain ⟨a, b, hfirst', rfl⟩ := exists_firstOverlap hplan h
    obtain ⟨rfl, rfl⟩ := hfirst.unique (ofEdits_accounts hplan).ordered
      (fun _ hspan ↦ (isLineRun_span hplan hspan).lt) hfirst'
    exact h
  · cases hrender : plan.render t edits markers with
    | ok result => exact ⟨result, rfl⟩
    | error error =>
        obtain ⟨a, b, hfirst, -⟩ := exists_firstOverlap hplan hrender
        exact absurd (hoverlaps hfirst) hnone

/-- Of three spans each begins before the one before it ends, and the error is about the first
two. -/
theorem rejects_overlaps_chain :
    let edit (first last : Char) : Edit :=
      { anchors := [[first], [last]], anchors_ne_nil := by simp, anchor_ne_nil := by simp }
    let edits := [edit 'v' 'w', edit 'x' 'y', edit 'u' 'x']
    let t := "u\nw x\nv\ny w".toList
    let markers := Style.hash.markers ⟨['a'], by simp, List.forall_mem_singleton.mpr rfl⟩
    ∃ plan, ofEdits t edits = .ok plan ∧ plan.spans = [⟨0, 6, 2⟩, ⟨2, 11, 1⟩, ⟨6, 11, 0⟩] ∧
      plan.render t edits markers = .error (.overlap 1 2 2) := by
  intro edit edits t markers
  let plan : Plan :=
    { spans := [⟨0, 6, 2⟩, ⟨2, 11, 1⟩, ⟨6, 11, 0⟩]
      results := [⟨[⟨6, 11, "v\ny w".toList⟩], none⟩, ⟨[⟨2, 11, "w x\nv\ny w".toList⟩], none⟩,
        ⟨[⟨0, 6, "u\nw x\n".toList⟩], none⟩] }
  have hplan : ofEdits t edits = .ok plan := by
    simp only [plan, edits, edit, t]
    decide +kernel
  have hfirst : FirstOverlap plan.spans ⟨0, 6, 2⟩ ⟨2, 11, 1⟩ :=
    { earlier_mem := by simp [plan]
      later_mem := by simp [plan]
      begins := by decide
      meets := by decide
      first := by
        simp only [plan]
        decide }
  obtain ⟨-, herror, -⟩ := rejects_overlaps markers hplan
  exact ⟨plan, hplan, rfl, (herror _).mpr ⟨_, _, hfirst, rfl⟩⟩

end Plan

end MarkedEdits
