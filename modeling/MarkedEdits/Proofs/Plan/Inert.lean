import MarkedEdits.Proofs.Plan.Acceptance

/-!
# Edits that change nothing

An inert edit keeps the lines that it matches and inserts none. Inert edits behind a list of edits
take spans of their own, and they may keep the other edits from being carried out. When they do not,
the text is rendered as without them (`render_append_inert`).
-/

namespace MarkedEdits

open Text

/-- The edit keeps the lines that it matches and inserts none. -/
structure Edit.Inert (edit : Edit) : Prop where
  before : edit.before = []
  after : edit.after = []
  keep : edit.replacement = .keep

namespace Plan

variable {t : Text}

/-! ## Rows -/

/-- An inert edit leaves the matched lines as rows that nobody has edited. -/
theorem spanRows_of_inert {edit : Edit} (h : edit.Inert) (owner : Namespace) (matched : Text) :
    spanRows owner edit matched = bareRows matched := by
  have htrailing : edit.trailing = [] := by
    rw [Edit.trailing, if_neg, h.after]
    rintro ⟨hdisable, -⟩
    rw [h.keep] at hdisable
    cases hdisable
  have hnone : insertedRows owner [] = [] := rfl
  rw [spanRows, bodyRows, h.before, htrailing, h.keep, hnone, List.nil_append, List.append_nil]

/-- Two slices that meet at a break have the rows of the slice that they make up. -/
theorem bareRows_slice {start middle stop : Nat} (hstart : IsBoundary t start)
    (hmiddle : IsBreak t middle) (hstop : IsBoundary t stop) (hle : start ≤ middle)
    (hle' : middle ≤ stop) :
    bareRows (slice t start middle) ++ bareRows (slice t middle stop) =
      bareRows (slice t start stop) := by
  have hcut : slice t start middle ++ slice t middle stop = slice t start stop := by
    refine List.append_left_injective (dropBytes stop t) ?_
    show slice t start middle ++ slice t middle stop ++ dropBytes stop t =
      slice t start stop ++ dropBytes stop t
    rw [List.append_assoc, ← dropBytes_eq_slice_append hmiddle.isBoundary hstop hle',
      ← dropBytes_eq_slice_append hstart hmiddle.isBoundary hle,
      ← dropBytes_eq_slice_append hstart hstop (Nat.le_trans hle hle')]
  rw [← hcut, bareRows, bareRows, bareRows, ← List.map_append]
  congr 1
  rcases hmiddle.atLineStart_slice hstart hle with h | h
  · exact (bodies_append h _).symm
  · have hnil : slice t middle stop = [] := by
      have hrest := dropBytes_eq_slice_append hmiddle.isBoundary hstop hle'
      rw [h] at hrest
      exact (List.append_eq_nil_iff.mp hrest.symm).1
    simp [hnil]

/-- Lines before the first span can be taken to the lines that are copied. -/
theorem rowsFrom_eq_append {edits : List Edit} (owner : Namespace) {first cursor : Nat}
    {spans : List PlannedSpan} (hfits : Fits cursor spans)
    (hspans : ∀ span ∈ spans, IsLineRun t span.start span.stop) (hfirst : IsBoundary t first)
    (hcursor : IsBreak t cursor) (hle : first ≤ cursor) :
    rowsFrom t edits owner first spans =
      bareRows (slice t first cursor) ++ rowsFrom t edits owner cursor spans := by
  cases spans with
  | nil => exact (bareRows_dropBytes hfirst hcursor hle).symm
  | cons span rest =>
      have hstart := (hspans span List.mem_cons_self).isBreak_start.isBoundary
      rw [rowsFrom, rowsFrom, ← bareRows_slice hfirst hcursor hstart hle hfits.1]
      simp only [List.append_assoc]

/-- The spans of inert edits behind the others make no difference to the rows. -/
theorem rowsFrom_append_inert {edits inert : List Edit} (hinert : ∀ edit ∈ inert, edit.Inert)
    (owner : Namespace) {cursor : Nat} {spans : List PlannedSpan} (hfits : Fits cursor spans)
    (hcursor : IsBoundary t cursor) (hspans : ∀ span ∈ spans, IsLineRun t span.start span.stop)
    (hedits : ∀ span ∈ spans, ∃ edit, (edits ++ inert)[span.owner]? = some edit) :
    rowsFrom t (edits ++ inert) owner cursor spans =
      rowsFrom t edits owner cursor (spans.filter (·.owner < edits.length)) := by
  induction spans generalizing cursor with
  | nil => rfl
  | cons span rest ih =>
      obtain ⟨hle, hrest⟩ := hfits
      obtain ⟨hrun, hspans'⟩ := List.forall_mem_cons.mp hspans
      obtain ⟨⟨edit, hedit⟩, hedits'⟩ := List.forall_mem_cons.mp hedits
      have hstop := hrun.isBreak_stop
      by_cases howner : span.owner < edits.length
      · rw [List.filter_cons_of_pos (by simpa using howner), rowsFrom, rowsFrom,
          List.getElem?_append_left howner, ih hrest hstop.isBoundary hspans' hedits']
      · -- the lines of the span are copied with those before it
        have hmem : edit ∈ inert := by
          rw [List.getElem?_append_right (Nat.le_of_not_lt howner)] at hedit
          exact List.mem_of_getElem? hedit
        have hbehind : cursor ≤ span.stop := Nat.le_trans hle (Nat.le_of_lt hrun.lt)
        have hcopied : rowsFrom t (edits ++ inert) owner cursor (span :: rest) =
            rowsFrom t (edits ++ inert) owner cursor rest := by
          rw [rowsFrom_eq_append owner hrest hspans' hcursor hstop hbehind, rowsFrom, hedit,
            Option.toList_some, List.flatMap_singleton, spanRows_of_inert (hinert edit hmem),
            bareRows_slice hcursor hrun.isBreak_start hstop.isBoundary hle (Nat.le_of_lt hrun.lt)]
        rw [hcopied, List.filter_cons_of_neg (by simpa using howner)]
        exact ih (hrest.mono hbehind) hcursor hspans' hedits'

/-! ## Plans -/

variable {edits inert : List Edit} {plan both : Plan}

/-- A plan has the spans that the plan for a longer list has for its edits. -/
theorem spans_eq_filter (hplan : ofEdits t edits = .ok plan)
    (hboth : ofEdits t (edits ++ inert) = .ok both) :
    both.spans.filter (·.owner < edits.length) = plan.spans := by
  refine ordered_ext ((ofEdits_accounts hboth).ordered.filter _)
    (ofEdits_accounts hplan).ordered fun span ↦ ?_
  rw [List.mem_filter, decide_eq_true_iff, mem_spans_iff hboth, mem_spans_iff hplan,
    claimsFrom_append, Nat.zero_add, planned_append_iff ne_of_mem_claimsFrom]
  constructor
  · rintro ⟨hown | hinert, hlt⟩
    · exact hown
    · exact absurd (position_of_planned hinert).1 (Nat.not_le_of_lt hlt)
  · intro hown
    exact ⟨.inl hown, by simpa using (position_of_planned hown).2⟩

/-- Inert edits behind the others make no difference to the text, when all can be carried out. -/
theorem render_append_inert (hinert : ∀ edit ∈ inert, edit.Inert) {style : Style}
    {owner : Namespace} {result result' : Text} (hplan : ofEdits t edits = .ok plan)
    (hboth : ofEdits t (edits ++ inert) = .ok both)
    (hrender : plan.render t edits (style.markers owner) = .ok result)
    (hrender' : both.render t (edits ++ inert) (style.markers owner) = .ok result') :
    result' = result := by
  have hspans : ∀ span ∈ both.spans, IsLineRun t span.start span.stop :=
    fun span hspan ↦ isLineRun_span hboth hspan
  have hedits : ∀ span ∈ both.spans, ∃ edit, (edits ++ inert)[span.owner]? = some edit :=
    fun span hspan ↦ exists_edit_of_span hboth hspan
  have hrows := rowsFrom_append_inert hinert owner (fits_of_render hrender')
    (isBreak_zero t).isBoundary hspans hedits
  rw [spans_eq_filter hplan hboth] at hrows
  rw [render_rows hrender' hspans, hrows,
    render_rows hrender fun span hspan ↦ isLineRun_span hplan hspan]

end Plan

end MarkedEdits
