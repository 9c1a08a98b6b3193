import MarkedEdits.Anchor
import MarkedEdits.Proofs.Text.Breaks

/-!
# Where matches lie

A match begins and ends at boundaries and is not empty, so the lines that it is widened to begin and
end at breaks (`isLineRun_align`). The scan for the matches of a single anchor is greedy, and it
meets every occurrence: each one overlaps a match (`exists_match_over`). An anchor without newlines
therefore has a match in every line in which it occurs (`exists_match_in_line`).
-/

namespace MarkedEdits

namespace Anchor

open Text

/-- Anchors end at a boundary when their search starts at one. -/
theorem isBoundary_earliestEnd {t : Text} {anchors : List Text} {start stop : Nat}
    (hstart : IsBoundary t start) (h : earliestEnd t anchors start = some stop) :
    IsBoundary t stop := by
  induction anchors generalizing start with
  | nil =>
      cases h
      exact hstart
  | cons anchor rest ih =>
      simp only [earliestEnd, Option.bind_eq_bind, Option.bind_eq_some_iff] at h
      obtain ⟨found, hfound, hrest⟩ := h
      obtain ⟨-, -, hocc, -⟩ := findFrom_first hfound
      exact ih hocc.isBoundary_end hrest

/-- Anchors that have an end are searched from a boundary. -/
theorem isBoundary_of_earliestEnd {t : Text} {anchors : List Text} {start stop : Nat}
    (hne : anchors ≠ []) (h : earliestEnd t anchors start = some stop) : IsBoundary t start := by
  cases anchors with
  | nil => exact absurd rfl hne
  | cons anchor rest =>
      simp only [earliestEnd, Option.bind_eq_bind, Option.bind_eq_some_iff] at h
      obtain ⟨found, hfound, -⟩ := h
      exact (findFrom_first hfound).1

/-- Anchors begin at a boundary, and together they fit before where their search begins. -/
theorem latestStart_spec {t : Text} {anchors : List Text} {stop first : Nat}
    (hstop : IsBoundary t stop) (h : latestStart t anchors stop = some first) :
    IsBoundary t first ∧ first + size anchors.flatten ≤ stop := by
  induction anchors generalizing stop with
  | nil =>
      cases h
      exact ⟨hstop, by simp⟩
  | cons anchor rest ih =>
      simp only [latestStart, Option.bind_eq_bind, Option.bind_eq_some_iff] at h
      obtain ⟨found, hfound, hrest⟩ := h
      obtain ⟨-, hocc, hle, -⟩ := rfindWithin_last hfound
      obtain ⟨hfirst, hsum⟩ := ih hocc.isBoundary hrest
      refine ⟨hfirst, ?_⟩
      simp only [List.flatten_cons, size_append]
      omega

/-- A match begins and ends at boundaries and is not empty. -/
theorem find?_spec {t : Text} {anchors : List Text} {start : Nat} {span : Span}
    (h : find? t anchors start = some span) :
    IsBoundary t span.start ∧ IsBoundary t span.stop ∧ span.start < span.stop := by
  obtain ⟨⟨hnil, hempty⟩, hstop, hfirst⟩ := find?_eq_some_iff.mp h
  have hbound := isBoundary_earliestEnd (isBoundary_of_earliestEnd hnil hstop) hstop
  obtain ⟨hstart, hsum⟩ := latestStart_spec hbound hfirst
  refine ⟨hstart, hbound, ?_⟩
  obtain ⟨anchor, rest, rfl⟩ := List.exists_cons_of_ne_nil hnil
  have hpos : 0 < size anchor := size_pos fun hanchor ↦ hempty (by simp [hanchor])
  rw [List.reverse_cons, List.flatten_append, List.flatten_singleton, size_append] at hsum
  omega

/-- Every match of the scan is found by a search. -/
theorem find?_of_mem_findAll {t : Text} {anchors : List Text} {start : Nat} {span : Span}
    (h : span ∈ findAll t anchors start) : ∃ from', find? t anchors from' = some span := by
  fun_induction findAll t anchors start with
  | case1 start hnone => cases h
  | case2 start first hfirst _ ih =>
      rcases List.mem_cons.mp h with rfl | h
      · exact ⟨start, hfirst⟩
      · exact ih h

/-- A match is widened to a run of lines. -/
theorem isLineRun_align {t : Text} {anchors : List Text} {start : Nat} {span : Span}
    (h : span ∈ findAll t anchors start) :
    IsLineRun t (align t span).start (align t span).stop := by
  obtain ⟨_, hfind⟩ := find?_of_mem_findAll h
  obtain ⟨hstart, hstop, hlt⟩ := find?_spec hfind
  obtain ⟨hbreak, hle⟩ := lineStart_spec hstart
  obtain ⟨hbreak', hle'⟩ := lineEnd_spec hstop
  refine ⟨hbreak, hbreak', ?_⟩
  show lineStart t span.start < lineEnd t span.stop
  omega

/-! ## A single anchor -/

/-- A single anchor is matched by its first occurrence. -/
theorem find?_singleton {t anchor : Text} (hne : anchor ≠ []) {start i : Nat}
    (h : findFrom t anchor start = some i) :
    find? t [anchor] start = some ⟨i, i + size anchor⟩ := by
  obtain ⟨-, -, hocc, -⟩ := findFrom_first h
  have hback : rfindWithin t anchor (i + size anchor) = some i := by
    refine rfindWithin_eq_some_iff.mpr ⟨hocc.isBoundary_end, hocc, Nat.le_refl _, ?_⟩
    intro j _ hj
    omega
  simp [find?, Ne.symm hne, earliestEnd, latestStart, h, hback]

/-- A match of a single anchor is an occurrence of it. -/
theorem occursAt_of_mem_findAll {t anchor : Text} (hne : anchor ≠ []) {start : Nat} {span : Span}
    (h : span ∈ findAll t [anchor] start) :
    OccursAt t anchor span.start ∧ span.stop = span.start + size anchor := by
  obtain ⟨from', hfind⟩ := find?_of_mem_findAll h
  cases hi : findFrom t anchor from' with
  | none => simp [find?, earliestEnd, hi] at hfind
  | some i =>
      rw [find?_singleton hne hi] at hfind
      cases hfind
      exact ⟨(findFrom_first hi).2.2.1, rfl⟩

/-- Every occurrence of a single anchor overlaps a match of the scan that begins no later. -/
theorem exists_match_over {t anchor : Text} (hne : anchor ≠ []) {start j : Nat}
    (hstart : IsBoundary t start) (hj : start ≤ j) (hocc : OccursAt t anchor j) :
    ∃ i, ⟨i, i + size anchor⟩ ∈ findAll t [anchor] start ∧ OccursAt t anchor i ∧
      i ≤ j ∧ j < i + size anchor := by
  obtain ⟨i, hi⟩ := exists_findFrom hstart hj hocc
  fun_induction findAll t [anchor] start generalizing i with
  | case1 start hnone =>
      rw [find?_singleton hne hi] at hnone
      cases hnone
  | case2 start span hspan _ ih =>
      rw [find?_singleton hne hi] at hspan
      cases hspan
      obtain ⟨-, -, hocc', hleast⟩ := findFrom_first hi
      by_cases hover : j < i + size anchor
      · exact ⟨i, List.mem_cons_self, hocc', hleast j hj hocc, hover⟩
      · -- the occurrence lies behind the first match, where the scan goes on
        have hnext : i + size anchor ≤ j := Nat.le_of_not_lt hover
        obtain ⟨next, hfind⟩ := exists_findFrom hocc'.isBoundary_end hnext hocc
        obtain ⟨k, hmem, hrest⟩ := ih hocc'.isBoundary_end hnext next hfind
        exact ⟨k, List.mem_cons_of_mem _ hmem, hrest⟩

/-- An anchor without newlines has a match in the line of every occurrence. -/
theorem exists_match_in_line {t anchor : Text} (hne : anchor ≠ []) (hline : '\n' ∉ anchor) {j : Nat}
    (hocc : OccursAt t anchor j) :
    ∃ span ∈ findAll t [anchor] 0, (align t span).start = lineStart t j := by
  have hzero : IsBoundary t 0 := (isBreak_zero t).isBoundary
  obtain ⟨i, hmem, ⟨a, b, hab, rfl⟩, hle, hlt⟩ := exists_match_over hne hzero (Nat.zero_le j) hocc
  obtain ⟨c, d, hcd, rfl⟩ := hocc
  obtain ⟨between, rfl, hbetween⟩ :=
    exists_between (x := anchor ++ b) (y := anchor ++ d) (by simpa using hab.symm.trans hcd) hle
  -- what lies between the two occurrences is a part of the first one
  obtain ⟨rest, hanchor, -⟩ := exists_between (a := between) (b := anchor) hbetween.symm
    (by simp at hlt; omega)
  refine ⟨_, hmem, ?_⟩
  show lineStart t (size a) = lineStart t (size (a ++ between))
  have hbody : '\n' ∉ between := fun h ↦ hline (by simp [hanchor, h])
  have hcongr := lineStart_congr (a := a) (b := anchor ++ d) hbody
  rw [hcd, size_append]
  simpa using hcongr.symm

end Anchor

end MarkedEdits
