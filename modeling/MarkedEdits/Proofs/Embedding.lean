import Mathlib.Order.Bounds.Basic
import MarkedEdits.Proofs.Anchor

/-!
# The smallest span that holds the anchors

Anchors are embedded in a text when they occur in it one after the other without overlap. The
forward pass of a search ends no later than any embedding from its start on
(`exists_earliestEnd`), and the backward pass begins no earlier than any embedding that ends by
its bound (`exists_latestStart`), so it never fails behind a forward pass. Together they find the
smallest span: `smallest_span` says that a search misses no embedding, that no embedding ends
earlier than the span or begins later and ends with it, and that none lies within the span but the
one that fills it. So a scan finds the same in two texts that have the same embeddings
(`findAll_congr`).
-/

namespace MarkedEdits

namespace Anchor

open Text

/-- The anchors occur in the text in their order and without overlap. The first of them begins at
`first`, and the last ends at `stop`. -/
inductive Embeds (t : Text) : List Text → Nat → Nat → Prop
  | single {anchor : Text} {first : Nat} (occurs : OccursAt t anchor first) :
      Embeds t [anchor] first (first + size anchor)
  | cons {anchor : Text} {rest : List Text} {first next stop : Nat}
      (occurs : OccursAt t anchor first) (behind : first + size anchor ≤ next)
      (tail : Embeds t rest next stop) : Embeds t (anchor :: rest) first stop

variable {t : Text} {anchors : List Text} {start stop first bound : Nat}

/-- An embedding begins at a boundary. -/
theorem Embeds.isBoundary (h : Embeds t anchors first stop) : IsBoundary t first := by
  cases h with
  | single occurs => exact occurs.isBoundary
  | cons occurs behind tail => exact occurs.isBoundary

/-- An embedding ends at a boundary. -/
theorem Embeds.isBoundary_end (h : Embeds t anchors first stop) : IsBoundary t stop := by
  induction h with
  | single occurs => exact occurs.isBoundary_end
  | cons occurs behind tail ih => exact ih

/-- All anchors fit between the ends of an embedding. -/
theorem Embeds.size_le (h : Embeds t anchors first stop) :
    first + size anchors.flatten ≤ stop := by
  induction h with
  | single occurs => simp
  | cons occurs behind tail ih =>
      rw [List.flatten_cons, size_append]
      omega

/-! ## The forward pass -/

/-- What the forward pass finds is the end of an embedding. -/
theorem embeds_of_earliestEnd (hne : anchors ≠ []) (h : earliestEnd t anchors start = some stop) :
    ∃ first, start ≤ first ∧ Embeds t anchors first stop := by
  induction anchors generalizing start with
  | nil => exact absurd rfl hne
  | cons anchor rest ih =>
      simp only [earliestEnd, Option.bind_eq_bind, Option.bind_eq_some_iff] at h
      obtain ⟨found, hfound, hrest⟩ := h
      obtain ⟨-, hle, hocc, -⟩ := findFrom_first hfound
      by_cases hnil : rest = []
      · subst hnil
        cases hrest
        exact ⟨found, hle, .single hocc⟩
      · obtain ⟨next, hnext, htail⟩ := ih hnil hrest
        exact ⟨found, hle, .cons hocc hnext htail⟩

/-- The forward pass ends no later than any embedding from its start on. -/
theorem exists_earliestEnd (hstart : IsBoundary t start) (h : Embeds t anchors first bound)
    (hle : start ≤ first) : ∃ stop ≤ bound, earliestEnd t anchors start = some stop := by
  induction h generalizing start with
  | single occurs =>
      obtain ⟨found, hfound⟩ := exists_findFrom hstart hle occurs
      obtain ⟨-, -, -, hleast⟩ := findFrom_first hfound
      refine ⟨found + size _, Nat.add_le_add_right (hleast _ hle occurs) _, ?_⟩
      simp [earliestEnd, hfound]
  | cons occurs behind tail ih =>
      -- taking the first anchor as early as possible leaves more room for the others
      obtain ⟨found, hfound⟩ := exists_findFrom hstart hle occurs
      obtain ⟨-, -, hocc, hleast⟩ := findFrom_first hfound
      have hearly := hleast _ hle occurs
      obtain ⟨stop, hstop, hrest⟩ := ih hocc.isBoundary_end (by omega)
      exact ⟨stop, hstop, by simpa [earliestEnd, hfound] using hrest⟩

/-! ## The backward pass -/

/-- Anchors behind others are taken first on the way back. -/
theorem latestStart_append (last front : List Text) :
    latestStart t (last ++ front) stop = (latestStart t last stop).bind (latestStart t front) := by
  induction last generalizing stop with
  | nil => rfl
  | cons anchor rest ih =>
      simp only [List.cons_append, latestStart, Option.bind_eq_bind, Option.bind_assoc, ih]

/-- The first of several anchors is the last one on the way back. -/
theorem latestStart_reverse_cons (anchor : Text) (rest : List Text) :
    latestStart t (anchor :: rest).reverse stop =
      (latestStart t rest.reverse stop).bind (rfindWithin t anchor) := by
  rw [List.reverse_cons, latestStart_append]
  congr 1
  funext next
  simp [latestStart]

/-- What the backward pass finds is the start of an embedding. -/
theorem embeds_of_latestStart (hne : anchors ≠ [])
    (h : latestStart t anchors.reverse bound = some first) :
    ∃ stop ≤ bound, Embeds t anchors first stop := by
  induction anchors generalizing first with
  | nil => exact absurd rfl hne
  | cons anchor rest ih =>
      rw [latestStart_reverse_cons, Option.bind_eq_some_iff] at h
      obtain ⟨next, hrest, hfound⟩ := h
      obtain ⟨-, hocc, hle, -⟩ := rfindWithin_last hfound
      by_cases hnil : rest = []
      · subst hnil
        cases hrest
        exact ⟨_, hle, .single hocc⟩
      · obtain ⟨stop, hstop, htail⟩ := ih hnil hrest
        exact ⟨stop, hstop, .cons hocc hle htail⟩

/-- The backward pass begins no earlier than any embedding that ends by its bound. -/
theorem exists_latestStart (hbound : IsBoundary t bound) (h : Embeds t anchors first stop)
    (hle : stop ≤ bound) :
    ∃ last, first ≤ last ∧ latestStart t anchors.reverse bound = some last := by
  induction h with
  | single occurs =>
      obtain ⟨last, hlast⟩ := exists_rfindWithin hbound occurs hle
      obtain ⟨-, -, -, hgreatest⟩ := rfindWithin_last hlast
      refine ⟨last, hgreatest _ occurs hle, ?_⟩
      rw [latestStart_reverse_cons]
      exact hlast
  | cons occurs behind tail ih =>
      -- taking the other anchors as late as possible leaves more room for the first one
      obtain ⟨next, hnext, hrest⟩ := ih hle
      have hboundary := (latestStart_spec hbound hrest).1
      obtain ⟨last, hlast⟩ := exists_rfindWithin hboundary occurs (by omega)
      obtain ⟨-, -, -, hgreatest⟩ := rfindWithin_last hlast
      refine ⟨last, hgreatest _ occurs (by omega), ?_⟩
      rw [latestStart_reverse_cons, hrest]
      exact hlast

/-! ## Both passes -/

/-- Behind a forward pass the backward pass does not fail, and it begins no earlier than the forward
pass. -/
theorem exists_latestStart_of_earliestEnd (hne : anchors ≠ [])
    (h : earliestEnd t anchors start = some stop) :
    ∃ first, start ≤ first ∧ latestStart t anchors.reverse stop = some first := by
  obtain ⟨first, hle, hembeds⟩ := embeds_of_earliestEnd hne h
  obtain ⟨last, hlast, hback⟩ :=
    exists_latestStart hembeds.isBoundary_end hembeds (Nat.le_refl stop)
  exact ⟨last, Nat.le_trans hle hlast, hback⟩

/-- A search finds something when the anchors are embedded from its start on. -/
theorem exists_find? (hempty : [] ∉ anchors) (hstart : IsBoundary t start)
    (h : Embeds t anchors first stop) (hle : start ≤ first) :
    ∃ span, find? t anchors start = some span ∧ span.stop ≤ stop := by
  have hne : anchors ≠ [] := by
    rintro rfl
    cases h
  obtain ⟨last, hlast, hforward⟩ := exists_earliestEnd hstart h hle
  obtain ⟨begin, -, hbackward⟩ := exists_latestStart_of_earliestEnd hne hforward
  exact ⟨⟨begin, last⟩, find?_eq_some_iff.mpr ⟨⟨hne, hempty⟩, hforward, hbackward⟩, hlast⟩

/-- A search that finds nothing misses no embedding from its start on. -/
theorem not_embeds_of_find?_eq_none (hempty : [] ∉ anchors) (hstart : IsBoundary t start)
    (hnone : find? t anchors start = none) (hle : start ≤ first) :
    ¬ Embeds t anchors first stop := by
  intro h
  obtain ⟨span, hfind, -⟩ := exists_find? hempty hstart h hle
  rw [hnone] at hfind
  cases hfind

/-- The anchors are embedded in the span that a search finds. No embedding from the start of the
search on ends earlier, and none that ends where the span ends begins later. -/
theorem find?_embeds {span : Span} (h : find? t anchors start = some span) :
    start ≤ span.start ∧
      IsLeast {stop | ∃ first, start ≤ first ∧ Embeds t anchors first stop} span.stop ∧
      IsGreatest {first | Embeds t anchors first span.stop} span.start := by
  obtain ⟨⟨hne, -⟩, hforward, hbackward⟩ := find?_eq_some_iff.mp h
  have hstart := isBoundary_of_earliestEnd hne hforward
  have hstop := isBoundary_earliestEnd hstart hforward
  obtain ⟨first, hle, hbackward'⟩ := exists_latestStart_of_earliestEnd hne hforward
  obtain rfl : span.start = first := Option.some.inj (hbackward.symm.trans hbackward')
  have hleast : ∀ other last, start ≤ other → Embeds t anchors other last → span.stop ≤ last := by
    intro other last hother hembeds
    obtain ⟨stop, hearly, hforward'⟩ := exists_earliestEnd hstart hembeds hother
    obtain rfl : span.stop = stop := Option.some.inj (hforward.symm.trans hforward')
    exact hearly
  -- the backward pass ends by the span's end, and an embedding cannot end earlier
  obtain ⟨last, hlast, hembeds⟩ := embeds_of_latestStart hne hbackward
  obtain rfl : last = span.stop := Nat.le_antisymm hlast (hleast _ _ hle hembeds)
  refine ⟨hle, ⟨⟨span.start, hle, hembeds⟩, ?_⟩, hembeds, ?_⟩
  · rintro last ⟨other, hother, hothers⟩
    exact hleast other last hother hothers
  · intro other hother
    obtain ⟨late, hlate, hback⟩ := exists_latestStart hstop hother (Nat.le_refl _)
    obtain rfl : span.start = late := Option.some.inj (hbackward.symm.trans hback)
    exact hlate

/-! ## Searches in two texts -/

section Congruence

variable {u : Text}

/-- Anchors are embedded in another text in which they occur at the same offsets. -/
theorem Embeds.of_occursAt (h : Embeds t anchors first stop)
    (hoccurs : ∀ anchor ∈ anchors, ∀ i, OccursAt t anchor i → OccursAt u anchor i) :
    Embeds u anchors first stop := by
  induction h with
  | single occurs => exact .single (hoccurs _ (List.mem_singleton_self _) _ occurs)
  | cons occurs behind tail ih =>
      refine .cons (hoccurs _ List.mem_cons_self _ occurs) behind (ih fun anchor hanchor ↦ ?_)
      exact hoccurs anchor (List.mem_cons_of_mem _ hanchor)

variable (hembeds : ∀ first stop, Embeds t anchors first stop ↔ Embeds u anchors first stop)
  (hempty : [] ∉ anchors)

include hembeds hempty

/-- A search finds the same in two texts with the same embeddings. -/
theorem find?_congr (hstart : IsBoundary t start) (hstart' : IsBoundary u start) :
    find? t anchors start = find? u anchors start := by
  cases hfind : find? t anchors start with
  | none =>
      cases hfind' : find? u anchors start with
      | none => rfl
      | some span =>
          obtain ⟨-, ⟨⟨first, hle, h⟩, -⟩, -⟩ := find?_embeds hfind'
          exact absurd ((hembeds _ _).mpr h) (not_embeds_of_find?_eq_none hempty hstart hfind hle)
  | some span =>
      obtain ⟨-, hleast, hgreatest⟩ := find?_embeds hfind
      obtain ⟨first, hle, h⟩ := hleast.1
      obtain ⟨span', hfind', -⟩ := exists_find? hempty hstart' ((hembeds _ _).mp h) hle
      obtain ⟨-, hleast', hgreatest'⟩ := find?_embeds hfind'
      simp only [← hembeds] at hleast' hgreatest'
      obtain ⟨begin, stop⟩ := span
      obtain ⟨begin', stop'⟩ := span'
      obtain rfl : stop = stop' := hleast.unique hleast'
      obtain rfl : begin = begin' := hgreatest.unique hgreatest'
      exact hfind'.symm

/-- The scan finds the same in two texts with the same embeddings. -/
theorem findAll_congr (hbounds : ∀ n, IsBoundary t n → IsBoundary u n)
    (hstart : IsBoundary t start) : findAll t anchors start = findAll u anchors start := by
  fun_induction findAll t anchors start with
  | case1 start hnone =>
      rw [find?_congr hembeds hempty hstart (hbounds start hstart)] at hnone
      rw [findAll.eq_def u]
      split
      · rfl
      · next hsome =>
          rw [hnone] at hsome
          cases hsome
  | case2 start span hfind _ ih =>
      have hrest := ih (find?_spec hfind).2.1
      rw [find?_congr hembeds hempty hstart (hbounds start hstart)] at hfind
      rw [findAll.eq_def u, hrest]
      split
      · next hnone =>
          rw [hfind] at hnone
          cases hnone
      · next span' hfind' =>
          obtain rfl : span = span' := Option.some.inj (hfind.symm.trans hfind')
          rfl

end Congruence

/-! ## The smallest span -/

/-- A search from a boundary for anchors that are not empty finds nothing exactly if no embedding
begins there or later. Otherwise it finds the span with the least end of any such embedding and the
greatest start of any embedding with that end, and no other part of the span holds an embedding. The
backward pass finds something whenever the forward pass does. -/
theorem smallest_span {t : Text} {anchors : List Text} {start : Nat} (hne : anchors ≠ [])
    (hempty : [] ∉ anchors) (hstart : IsBoundary t start) :
    (find? t anchors start = none ↔ ¬ ∃ first stop, start ≤ first ∧ Embeds t anchors first stop) ∧
    (∀ span, find? t anchors start = some span →
      start ≤ span.start ∧
      IsLeast {stop | ∃ first, start ≤ first ∧ Embeds t anchors first stop} span.stop ∧
      IsGreatest {first | Embeds t anchors first span.stop} span.start ∧
      ∀ first stop, span.start ≤ first → stop ≤ span.stop → Embeds t anchors first stop →
        first = span.start ∧ stop = span.stop) ∧
    ∀ stop, earliestEnd t anchors start = some stop →
      ∃ first, latestStart t anchors.reverse stop = some first := by
  refine ⟨⟨?_, ?_⟩, fun span hfind ↦ ?_, fun stop hforward ↦ ?_⟩
  · rintro hnone ⟨first, stop, hle, hembeds⟩
    exact not_embeds_of_find?_eq_none hempty hstart hnone hle hembeds
  · intro hnone
    cases hfind : find? t anchors start with
    | none => rfl
    | some span =>
        obtain ⟨-, ⟨⟨first, hle, hembeds⟩, -⟩, -⟩ := find?_embeds hfind
        exact absurd ⟨first, span.stop, hle, hembeds⟩ hnone
  · obtain ⟨hle, hleast, hgreatest⟩ := find?_embeds hfind
    refine ⟨hle, hleast, hgreatest, fun first stop hfirst hstop hembeds ↦ ?_⟩
    have hend : stop = span.stop :=
      Nat.le_antisymm hstop (hleast.2 ⟨first, Nat.le_trans hle hfirst, hembeds⟩)
    rw [hend] at hembeds
    exact ⟨Nat.le_antisymm (hgreatest.2 hembeds) hfirst, hend⟩
  · obtain ⟨first, -, hbackward⟩ := exists_latestStart_of_earliestEnd hne hforward
    exact ⟨first, hbackward⟩

/-- Behind a character of two bytes, the later one of two overlapping occurrences of the first
anchor is taken, and behind that one nothing is found. -/
theorem smallest_span_overlapping :
    let t := "éaaab".toList
    let anchors := [['a', 'a'], ['b']]
    anchors ≠ [] ∧ [] ∉ anchors ∧ IsBoundary t 2 ∧ IsBoundary t 4 ∧
      find? t anchors 2 = some ⟨3, 6⟩ ∧
      IsLeast {stop | ∃ first, 2 ≤ first ∧ Embeds t anchors first stop} 6 ∧
      IsGreatest {first | Embeds t anchors first 6} 3 ∧
      ¬ ∃ first stop, 4 ≤ first ∧ Embeds t anchors first stop := by
  intro t anchors
  have hne : anchors ≠ [] := by simp [anchors]
  have hempty : [] ∉ anchors := by simp [anchors]
  have hbounds : IsBoundary t 2 ∧ IsBoundary t 4 := by
    simp only [t]
    decide +kernel
  have hfind : find? t anchors 2 = some ⟨3, 6⟩ ∧ find? t anchors 4 = none := by
    simp only [t, anchors]
    decide +kernel
  obtain ⟨-, hspan, -⟩ := smallest_span hne hempty hbounds.1
  obtain ⟨hnone, -, -⟩ := smallest_span hne hempty hbounds.2
  obtain ⟨-, hleast, hgreatest, -⟩ := hspan _ hfind.1
  exact ⟨hne, hempty, hbounds.1, hbounds.2, hfind.1, hleast, hgreatest, hnone.mp hfind.2⟩

end Anchor

end MarkedEdits
