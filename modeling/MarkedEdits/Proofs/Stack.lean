import MarkedEdits.Proofs.Sheet

/-!
# Sheets over sheets

A sheet may have the text of another sheet as its original. If no line that it disables holds a
stem, the lines of the other sheet that are marked already are bare on it, so every line has one
owner at most and the two are one sheet over the lower original (`Sheet.exists_over`).
-/

namespace MarkedEdits

open Text

namespace Row

variable {style : Style}

/-- The row that stands in for a row when the line of its original is the row below: a bare row
leaves the row below as it is. -/
def laidOn : Row → Row → Row
  | bare _, below => below
  | top, _ => top

/-- The rows over other rows. Inserted rows have no row below. -/
def stack : List Row → List Row → List Row
  | inserted owner line :: upper, lower => inserted owner line :: stack upper lower
  | top :: upper, below :: lower => top.laidOn below :: stack upper lower
  | _, _ => []

/-- A row without stems is bare. -/
theorem eq_bare_of_stemFree {row : Row} (h : style.StemFree (row.written style)) :
    row = bare (row.written style) := by
  cases row with
  | bare line => rfl
  | disabled owner line => exact absurd (.inr (List.prefix_append _ _)) (h.not_marks owner)
  | inserted owner line => exact absurd (.inl (List.prefix_append _ _)) (h.not_marks owner)

/-- A row of an edit that stands for a line of the original is disabled. -/
theorem eq_disabled {row : Row} {line : Text} (h : row.original? = some line)
    (howner : row.owner? ≠ none) : ∃ owner, row = disabled owner line := by
  cases row with
  | bare other => exact absurd rfl howner
  | disabled owner other =>
      cases h
      exact ⟨owner, rfl⟩
  | inserted owner other => cases h

/-- A row that stands for a line of its original lies over the first of the rows below. -/
theorem stack_cons {top : Row} {line : Text} (h : top.original? = some line) (upper : List Row)
    (below : Row) (lower : List Row) :
    stack (top :: upper) (below :: lower) = top.laidOn below :: stack upper lower := by
  cases top with
  | bare other => rfl
  | disabled owner other => rfl
  | inserted owner other => cases h

/-- A row over the row that it has as its original is written as before, and it stands for the
original of the row below. -/
theorem laidOn_spec {top below : Row} (horiginal : top.original? = some (below.written style))
    (hfree : top.owner? ≠ none → style.StemFree (below.written style)) :
    (top.laidOn below).written style = top.written style ∧
      (top.laidOn below).original? = below.original? := by
  cases top with
  | bare line =>
      refine ⟨?_, rfl⟩
      show below.written style = line
      exact (Option.some.inj horiginal).symm
  | disabled owner line =>
      refine ⟨rfl, ?_⟩
      -- a line without stems is unmarked, so nobody has edited the row below
      have hbelow := eq_bare_of_stemFree (hfree (Option.some_ne_none owner))
      rw [hbelow]
      exact horiginal
  | inserted owner line => cases horiginal

/-- Rows over the rows that they have as their originals are written as before, and they stand for
the originals of the rows below. -/
theorem stack_spec {upper lower : List Row}
    (horiginals : upper.filterMap original? = lower.map (written style))
    (hfree : ∀ owner line, disabled owner line ∈ upper → style.StemFree line) :
    (stack upper lower).map (written style) = upper.map (written style) ∧
      (stack upper lower).filterMap original? = lower.filterMap original? := by
  induction upper generalizing lower with
  | nil =>
      have hlower : lower = [] := List.map_eq_nil_iff.mp horiginals.symm
      subst hlower
      exact ⟨rfl, rfl⟩
  | cons top upper ih =>
      have hrest : ∀ owner line, disabled owner line ∈ upper → style.StemFree line := by
        intro owner line hline
        exact hfree owner line (List.mem_cons_of_mem _ hline)
      by_cases hinserted : top.original? = none
      · cases top with
        | bare line => cases hinserted
        | disabled owner line => cases hinserted
        | inserted owner line =>
            obtain ⟨hwritten, hsame⟩ := ih horiginals hrest
            exact ⟨congrArg (_ :: ·) hwritten, hsame⟩
      · -- the row takes the first of the rows below
        obtain ⟨line, hline⟩ := Option.ne_none_iff_exists'.mp hinserted
        rw [List.filterMap_cons_some hline] at horiginals
        cases lower with
        | nil => cases horiginals
        | cons below lower =>
            obtain ⟨hbelow, htail⟩ := List.cons.inj horiginals
            obtain ⟨hwritten, hsame⟩ := ih htail hrest
            rw [hbelow] at hline
            have htop : top.owner? ≠ none → style.StemFree (below.written style) := by
              intro howner
              obtain ⟨owner, rfl⟩ := eq_disabled hline howner
              exact hfree owner _ List.mem_cons_self
            obtain ⟨hfirst, hbottom⟩ := laidOn_spec hline htop
            rw [stack_cons hline]
            simp only [List.map_cons, List.filterMap_cons, hfirst, hbottom, hwritten, hsame,
              and_self]

/-- A row of the stack is one of the rows below, or a row above that belongs to an edit. -/
theorem mem_stack {upper lower : List Row} {row : Row} (h : row ∈ stack upper lower) :
    row ∈ lower ∨ (row ∈ upper ∧ row.owner? ≠ none) := by
  fun_induction stack upper lower with
  | case1 owner line upper lower ih =>
      rcases List.mem_cons.mp h with rfl | h
      · exact .inr ⟨List.mem_cons_self, Option.some_ne_none owner⟩
      · exact (ih h).imp_right fun h ↦ ⟨List.mem_cons_of_mem _ h.1, h.2⟩
  | case2 top upper below lower hinserted ih =>
      rcases List.mem_cons.mp h with rfl | h
      · cases top with
        | bare line => exact .inl List.mem_cons_self
        | disabled owner line => exact .inr ⟨List.mem_cons_self, Option.some_ne_none owner⟩
        | inserted owner line => exact absurd rfl (hinserted owner line)
      · exact (ih h).imp (List.mem_cons_of_mem _) fun h ↦ ⟨List.mem_cons_of_mem _ h.1, h.2⟩
  | case3 => cases h

end Row

namespace Sheet

variable {original : Text} {style : Style}

/-- In a style that tells namespaces apart, the rows over a text without stems have no marker of an
owner but their own. -/
theorem not_marks_written (hstyle : style.fault? = none) (hdelimited : style.Delimited)
    (hfree : style.StemFree original) (sheet : Sheet original) (owner : Namespace) :
    ∀ row ∈ sheet.rows, row.owner? ≠ some owner →
      ¬ (style.markers owner).Marks (row.written style) := by
  intro row hrow hne
  cases row with
  | bare line =>
      exact (hfree.of_mem_bodies (mem_bodies_of_bare hrow)).not_marks owner
  | disabled other line =>
      exact hdelimited.terminated.not_marks_delete hstyle fun heq ↦ hne (congrArg some heq.symm)
  | inserted other line =>
      exact hdelimited.terminated.not_marks_insert hstyle fun heq ↦ hne (congrArg some heq.symm)

/-- A sheet over the text of a sheet is a sheet over the original of that, if none of the lines that
it disables holds a stem. -/
theorem exists_over (hstyle : style.fault? = none) (lower : Sheet original)
    (upper : Sheet (lower.text style))
    (hfree : ∀ owner line, Row.disabled owner line ∈ upper.rows → style.StemFree line) :
    ∃ sheet : Sheet original, sheet.text style = upper.text style ∧
      ∀ row ∈ sheet.rows, row ∈ lower.rows ∨ (row ∈ upper.rows ∧ row.owner? ≠ none) := by
  have horiginals : upper.rows.filterMap Row.original? = lower.rows.map (Row.written style) :=
    upper.originals.trans (lower.bodies_text hstyle)
  obtain ⟨hwritten, hsame⟩ := Row.stack_spec horiginals hfree
  let sheet : Sheet original :=
    { rows := Row.stack upper.rows lower.rows
      originals := hsame.trans lower.originals
      oneLine := by
        intro row hrow
        rcases Row.mem_stack hrow with hlower | ⟨hupper, -⟩
        · exact lower.oneLine row hlower
        · exact upper.oneLine row hupper }
  refine ⟨sheet, ?_, fun row hrow ↦ Row.mem_stack hrow⟩
  show assemble (endsWithNewline original) (sheet.rows.map (Row.written style)) = upper.text style
  rw [show sheet.rows.map (Row.written style) = upper.rows.map (Row.written style) from hwritten,
    ← lower.endsWithNewline_text hstyle]
  rfl

end Sheet

end MarkedEdits
