import Mathlib.Data.List.Basic
import MarkedEdits.Proofs.Revert

/-!
# Sheets: an original text under the edits of several owners

A sheet over an original text is a list of rows. A bare row is a line of the original, a disabled
row is a line of the original that one owner has disabled, and an inserted row is a line that one
owner has added. `Sheet.text` writes the sheet with the markers of a style, and `Sheet.release`
takes the edits of one owner away. The main statement is `Editor.revert_text`: an editor that
reverts the text of a sheet gets the text of the sheet without its own edits, provided that its
markers stand before no row of another owner.
-/

namespace MarkedEdits

open Text

/-- A line of a text under edits: as in the original, disabled, or inserted. -/
inductive Row where
  | bare (line : Text)
  | disabled (owner : Namespace) (line : Text)
  | inserted (owner : Namespace) (line : Text)
  deriving DecidableEq, Repr

namespace Row

/-- The line without a marker. -/
def line : Row → Text
  | bare line | disabled _ line | inserted _ line => line

/-- The owner of the edit that the row belongs to. -/
def owner? : Row → Option Namespace
  | bare _ => none
  | disabled owner _ | inserted owner _ => some owner

/-- The line of the original text that the row stands for. -/
def original? : Row → Option Text
  | bare line | disabled _ line => some line
  | inserted _ _ => none

/-- The row as a line of the text. -/
def written (style : Style) : Row → Text
  | bare line => line
  | disabled owner line => (style.markers owner).delete ++ line
  | inserted owner line => (style.markers owner).insert ++ line

/-- What is left of the row without the edits of an owner. -/
def release (owner : Namespace) : Row → Option Row
  | bare line => some (bare line)
  | disabled other line => some (if other = owner then bare line else disabled other line)
  | inserted other line => if other = owner then none else some (inserted other line)

/-- A row that the owner has not edited is left as it is. -/
theorem release_of_ne {owner : Namespace} {row : Row} (h : row.owner? ≠ some owner) :
    row.release owner = some row := by
  cases row with
  | bare line => rfl
  | disabled other line =>
      have hne : other ≠ owner := fun heq ↦ h (congrArg some heq)
      simp [release, hne]
  | inserted other line =>
      have hne : other ≠ owner := fun heq ↦ h (congrArg some heq)
      simp [release, hne]

/-- What is left of a row is not the owner's, and no other owner's if it was not before. -/
theorem owner?_of_release {owner : Namespace} {row left : Row} (h : row.release owner = some left) :
    left.owner? ≠ some owner ∧ (left.owner? = none ∨ left.owner? = row.owner?) := by
  cases row with
  | bare line =>
      cases h
      simp [owner?]
  | disabled other line =>
      cases h
      by_cases heq : other = owner <;> simp [owner?, heq]
  | inserted other line =>
      by_cases heq : other = owner
      · simp [release, heq] at h
      · simp only [release, heq, if_false, Option.some.injEq] at h
        subst h
        simp [owner?, heq]

/-- What is left of a row has the line of the row. -/
theorem line_of_release {owner : Namespace} {row left : Row} (h : row.release owner = some left) :
    left.line = row.line := by
  cases row with
  | bare line =>
      cases h
      rfl
  | disabled other line =>
      cases h
      by_cases heq : other = owner <;> simp [Row.line, heq]
  | inserted other line =>
      by_cases heq : other = owner
      · simp [release, heq] at h
      · simp only [release, heq, if_false, Option.some.injEq] at h
        rw [h]

/-- A row stands for the same line of the original without the edits of an owner. -/
theorem original?_release (owner : Namespace) (row : Row) :
    (row.release owner).bind original? = row.original? := by
  cases row with
  | bare line => rfl
  | disabled other line => by_cases heq : other = owner <;> simp [release, original?, heq]
  | inserted other line => by_cases heq : other = owner <;> simp [release, original?, heq]

/-- The edits of two owners can be taken away in either order. -/
theorem release_comm (a b : Namespace) (row : Row) :
    (row.release a).bind (release b) = (row.release b).bind (release a) := by
  cases row with
  | bare line => rfl
  | disabled other line =>
      by_cases ha : other = a
      · subst ha
        by_cases hb : other = b <;> simp [release, hb]
      · by_cases hb : other = b
        · subst hb
          simp [release, ha]
        · simp [release, ha, hb]
  | inserted other line =>
      by_cases ha : other = a
      · subst ha
        by_cases hb : other = b <;> simp [release, hb]
      · by_cases hb : other = b <;> simp [release, ha, hb]

/-- A written row is one line. -/
theorem newline_not_mem_written {style : Style} (hstyle : style.fault? = none) {row : Row}
    (h : '\n' ∉ row.line) : '\n' ∉ row.written style := by
  cases row with
  | bare line => exact h
  | disabled owner line =>
      have := (Style.markers_sound hstyle owner).newline_not_mem_delete
      exact List.not_mem_append this h
  | inserted owner line =>
      have := (Style.markers_sound hstyle owner).newline_not_mem_insert
      exact List.not_mem_append this h

/-- Only an empty line of the original is written as an empty line. -/
theorem original?_of_written_eq_nil {style : Style} (hstyle : style.fault? = none) {row : Row}
    (h : row.written style = []) : row.original? = some [] := by
  cases row with
  | bare line => exact congrArg some h
  | disabled owner line =>
      have := (Style.markers_sound hstyle owner).delete_ne_nil
      exact absurd (List.append_eq_nil_iff.mp h).1 this
  | inserted owner line =>
      have := (Style.markers_sound hstyle owner).insert_ne_nil
      exact absurd (List.append_eq_nil_iff.mp h).1 this

end Row

/-- An original text under edits: the rows that stand for lines of the original stand for all of
them in their order. -/
@[ext]
structure Sheet (original : Text) where
  rows : List Row
  originals : rows.filterMap Row.original? = bodies original
  oneLine : ∀ row ∈ rows, '\n' ∉ row.line

namespace Sheet

variable {original : Text}

/-- The sheet without edits. -/
def plain (original : Text) : Sheet original where
  rows := (bodies original).map .bare
  originals := by simp [List.filterMap_map, Function.comp_def, Row.original?]
  oneLine := by
    intro row hrow
    obtain ⟨body, hbody, rfl⟩ := List.mem_map.mp hrow
    exact newline_not_mem_of_mem_bodies hbody

/-- The sheet written as a text, which ends as the original does. -/
def text (style : Style) (sheet : Sheet original) : Text :=
  assemble (endsWithNewline original) (sheet.rows.map (Row.written style))

/-- The sheet without the edits of an owner. -/
def release (owner : Namespace) (sheet : Sheet original) : Sheet original where
  rows := sheet.rows.filterMap (Row.release owner)
  originals := by
    rw [List.filterMap_filterMap, ← sheet.originals]
    exact congrArg (List.filterMap · sheet.rows) (funext (Row.original?_release owner))
  oneLine := by
    intro left hleft
    obtain ⟨row, hrow, hrel⟩ := List.mem_filterMap.mp hleft
    rw [Row.line_of_release hrel]
    exact sheet.oneLine row hrow

/-- The owners have made all edits of the sheet. -/
def OwnedBy (sheet : Sheet original) (owners : List Namespace) : Prop :=
  ∀ row ∈ sheet.rows, ∀ owner, row.owner? = some owner → owner ∈ owners

/-- The bare rows are lines of the original. -/
theorem mem_bodies_of_bare {sheet : Sheet original} {line : Text} (h : Row.bare line ∈ sheet.rows) :
    line ∈ bodies original := by
  rw [← sheet.originals]
  exact List.mem_filterMap.mpr ⟨_, h, rfl⟩

/-- A sheet without edits is the original text. -/
@[simp] theorem text_plain (style : Style) (original : Text) :
    (plain original).text style = original := by
  simp only [text, plain, List.map_map]
  exact (congrArg (assemble _) (List.map_id _)).trans (assemble_bodies original)

/-- The edits of two owners can be taken away in either order. -/
theorem release_comm (sheet : Sheet original) (a b : Namespace) :
    (sheet.release a).release b = (sheet.release b).release a := by
  apply Sheet.ext
  simp only [release, List.filterMap_filterMap]
  exact congrArg (List.filterMap · sheet.rows) (funext (Row.release_comm a b))

/-- A sheet that an owner has not edited is left as it is. -/
theorem release_of_ne {sheet : Sheet original} {owner : Namespace}
    (h : ∀ row ∈ sheet.rows, row.owner? ≠ some owner) : sheet.release owner = sheet := by
  apply Sheet.ext
  show sheet.rows.filterMap (Row.release owner) = sheet.rows
  rw [List.filterMap_congr fun row hrow ↦ Row.release_of_ne (h row hrow)]
  exact List.filterMap_some

/-- A sheet without owners has no edits. -/
theorem eq_plain_of_ownedBy_nil {sheet : Sheet original} (h : sheet.OwnedBy []) :
    sheet = plain original := by
  apply Sheet.ext
  show sheet.rows = (bodies original).map Row.bare
  rw [← sheet.originals, List.map_filterMap]
  have hbare : ∀ row ∈ sheet.rows, (row.original?.map Row.bare) = some row := by
    intro row hrow
    cases row with
    | bare line => rfl
    | disabled owner line => cases h _ hrow owner rfl
    | inserted owner line => cases h _ hrow owner rfl
  rw [List.filterMap_congr hbare]
  exact List.filterMap_some.symm

/-- Releasing an owner leaves the edits of the others. -/
theorem OwnedBy.release {sheet : Sheet original} {owners : List Namespace}
    (h : sheet.OwnedBy owners) (owner : Namespace) :
    (sheet.release owner).OwnedBy (owners.filter (· ≠ owner)) := by
  intro left hleft other hother
  obtain ⟨row, hrow, hrel⟩ := List.mem_filterMap.mp hleft
  obtain ⟨hne, hsame⟩ := Row.owner?_of_release hrel
  rw [hother] at hne hsame
  have hrowOwner : row.owner? = some other := by simpa [eq_comm] using hsame
  simpa using ⟨h row hrow other hrowOwner, fun heq ↦ hne (congrArg some heq)⟩

/-- Nobody has made an edit of the plain sheet. -/
theorem ownedBy_plain (original : Text) (owners : List Namespace) :
    (plain original).OwnedBy owners := by
  intro row hrow owner howner
  obtain ⟨body, -, rfl⟩ := List.mem_map.mp hrow
  cases howner

/-- There is nothing to take away from the plain sheet. -/
@[simp] theorem release_plain (owner : Namespace) (original : Text) :
    (plain original).release owner = plain original := by
  refine release_of_ne fun row hrow howner ↦ ?_
  cases ownedBy_plain original [] row hrow owner howner

/-- The edits of a sheet are the owner's and those that are there without the owner. -/
theorem OwnedBy.of_release {sheet : Sheet original} {owner : Namespace} {owners : List Namespace}
    (h : (sheet.release owner).OwnedBy owners) : sheet.OwnedBy (owner :: owners) := by
  intro row hrow other hother
  by_cases heq : other = owner
  · rw [heq]
    exact List.mem_cons_self
  · have hne : row.owner? ≠ some owner := by
      rw [hother]
      exact fun hsome ↦ heq (Option.some.inj hsome)
    have hleft : row ∈ (sheet.release owner).rows :=
      List.mem_filterMap.mpr ⟨row, hrow, Row.release_of_ne hne⟩
    exact List.mem_cons_of_mem _ (h row hleft other hother)

/-- An owner without whose edits there are none has made all edits of the sheet. -/
theorem ownedBy_of_release_eq_plain {sheet : Sheet original} {owner : Namespace}
    (h : sheet.release owner = plain original) : sheet.OwnedBy [owner] := by
  apply OwnedBy.of_release
  rw [h]
  exact ownedBy_plain original []

/-- The originals of rows, as far as they are kept, are among the rows as they are written. -/
theorem filter_originals_sublist (style : Style) {keep : Text → Bool} {rows : List Row}
    (hbare : ∀ owner line, Row.disabled owner line ∈ rows → keep line = false) :
    ((rows.filterMap Row.original?).filter keep).Sublist (rows.map (Row.written style)) := by
  induction rows with
  | nil => exact List.Sublist.slnil
  | cons row rest ih =>
      have ih := ih fun owner line hrow ↦ hbare owner line (List.mem_cons_of_mem _ hrow)
      cases row with
      | bare line =>
          show ((line :: rest.filterMap Row.original?).filter keep).Sublist
            (line :: rest.map (Row.written style))
          rw [List.filter_cons]
          split
          · exact ih.cons_cons line
          · exact ih.cons line
      | disabled owner line =>
          have hdropped := hbare owner line List.mem_cons_self
          show ((line :: rest.filterMap Row.original?).filter keep).Sublist
            (((style.markers owner).delete ++ line) :: rest.map (Row.written style))
          rw [List.filter_cons_of_neg (by simp [hdropped])]
          exact ih.cons _
      | inserted owner line => exact ih.cons _

/-- The last row of a sheet stands for the last line of the original or is inserted behind it. -/
theorem exists_rows_concat (sheet : Sheet original) {front : List Text} {last : Text}
    (h : bodies original = front ++ [last]) :
    ∃ before row, sheet.rows = before ++ [row] ∧ front <+: before.filterMap Row.original? := by
  have horiginals := sheet.originals
  rw [h] at horiginals
  rcases List.eq_nil_or_concat sheet.rows with hnil | ⟨before, row, hconcat⟩
  · simp [hnil] at horiginals
  · rw [List.concat_eq_append] at hconcat
    refine ⟨before, row, hconcat, ?_⟩
    rw [hconcat, List.filterMap_append] at horiginals
    cases horig : row.original? with
    | none =>
        simp only [List.filterMap_cons, horig, List.filterMap_nil, List.append_nil] at horiginals
        rw [horiginals]
        exact List.prefix_append _ _
    | some line =>
        simp only [List.filterMap_cons, horig, List.filterMap_nil] at horiginals
        exact ⟨[], by rw [List.append_nil, (List.append_inj' horiginals rfl).1]⟩

section Written

variable {style : Style} (hstyle : style.fault? = none) (sheet : Sheet original)

include hstyle

/-- Every row is written as one line. -/
theorem newline_not_mem_rows : ∀ line ∈ sheet.rows.map (Row.written style), '\n' ∉ line := by
  intro line hline
  obtain ⟨row, hrow, rfl⟩ := List.mem_map.mp hline
  exact Row.newline_not_mem_written hstyle (sheet.oneLine row hrow)

/-- When the original ends without a newline, the last line of the sheet is not empty. -/
theorem getLast?_rows_ne (hopen : endsWithNewline original = false) :
    (sheet.rows.map (Row.written style)).getLast? ≠ some [] := by
  intro hlast
  rw [List.getLast?_map, Option.map_eq_some_iff] at hlast
  obtain ⟨row, hrow, hnil⟩ := hlast
  obtain ⟨front, hfront⟩ := List.getLast?_eq_some_iff.mp hrow
  -- only a bare row is written as nothing, so the original would end with an empty line
  have horiginals := sheet.originals
  rw [hfront, List.filterMap_append, List.filterMap_cons,
    Row.original?_of_written_eq_nil hstyle hnil] at horiginals
  apply getLast?_bodies_ne hopen
  rw [← horiginals]
  simp

/-- The bodies of the written sheet are its rows. -/
theorem bodies_text : bodies (sheet.text style) = sheet.rows.map (Row.written style) :=
  bodies_assemble (sheet.newline_not_mem_rows hstyle) (sheet.getLast?_rows_ne hstyle)

/-- The lines of an original that ends whole are kept when nobody disables them. -/
theorem filter_lines_sublist_closed {keep : Text → Bool}
    (hkeep : ∀ body, keep (body ++ ['\n']) = keep body)
    (hbare : ∀ owner line, Row.disabled owner line ∈ sheet.rows → keep line = false)
    (hstart : AtLineStart original) :
    ((lines original).filter keep).Sublist (lines (sheet.text style)) := by
  have hcomp : keep ∘ (· ++ ['\n']) = keep := funext hkeep
  have hlines : lines original = (bodies original).map (· ++ ['\n']) := by
    rw [← lines_close, close_of_atLineStart hstart]
  rcases hstart with rfl | hend
  · exact List.nil_sublist _
  · have htext : sheet.text style = unlines (sheet.rows.map (Row.written style)) := by
      rw [text, hend]
      rfl
    rw [hlines, htext, lines_unlines (sheet.newline_not_mem_rows hstyle), List.filter_map, hcomp,
      ← sheet.originals]
    exact (filter_originals_sublist style hbare).map _

/-- The last row of the sheet of an original that is not ended is written without a newline. -/
theorem lines_text_concat (hopen : endsWithNewline original = false) {before : List Row} {row : Row}
    (hsplit : sheet.rows = before ++ [row]) :
    lines (sheet.text style) =
      (before.map (Row.written style)).map (· ++ ['\n']) ++ [row.written style] := by
  have hrows := sheet.newline_not_mem_rows hstyle
  have hwritten := sheet.getLast?_rows_ne hstyle hopen
  rw [hsplit, List.map_append, List.map_singleton] at hrows hwritten
  rw [text, hopen, hsplit, List.map_append, List.map_singleton, assemble_open_concat,
    lines_unlines_append (fun line hmem ↦ hrows line (by simp [hmem])) (hrows _ (by simp))
      (by simpa using hwritten)]

/-- Lines that nobody disables are kept as they are and in their order. So is the last line,
provided that no row is inserted behind it when it is not ended. -/
theorem filter_lines_sublist {keep : Text → Bool}
    (hkeep : ∀ body, keep (body ++ ['\n']) = keep body)
    (hbare : ∀ owner line, Row.disabled owner line ∈ sheet.rows → keep line = false)
    (hlast : endsWithNewline original = false → ∀ last ∈ (bodies original).getLast?,
      keep last = true → sheet.rows.getLast? = some (.bare last)) :
    ((lines original).filter keep).Sublist (lines (sheet.text style)) := by
  by_cases hstart : AtLineStart original
  · exact sheet.filter_lines_sublist_closed hstyle hkeep hbare hstart
  · obtain ⟨front, last, hbodies, horiginal, hne⟩ := exists_open_last hstart
    have hopen : endsWithNewline original = false := by
      simpa using (not_or.mp hstart).2
    obtain ⟨before, row, hsplit, hbefore⟩ := sheet.exists_rows_concat hbodies
    have hcomp : keep ∘ (· ++ ['\n']) = keep := funext hkeep
    have hlines : lines original = front.map (· ++ ['\n']) ++ [last] := by
      have hbody : ∀ body ∈ front ++ [last], '\n' ∉ body := by
        rw [← hbodies]
        exact fun body ↦ newline_not_mem_of_mem_bodies
      rw [horiginal, lines_unlines_append (fun body hmem ↦ hbody body (by simp [hmem]))
        (hbody last (by simp)) hne]
    rw [hlines, sheet.lines_text_concat hstyle hopen hsplit, List.filter_append, List.filter_map,
      hcomp]
    -- the rows before the last keep the lines before the last, and the last row keeps the last
    refine List.Sublist.append (((hbefore.sublist.filter keep).trans ?_).map _) ?_
    · refine filter_originals_sublist style fun owner line hrow ↦ hbare owner line ?_
      rw [hsplit]
      exact List.mem_append_left _ hrow
    · by_cases hkept : keep last = true
      · have hend := hlast hopen last (by simp [hbodies]) hkept
        rw [hsplit, List.getLast?_concat] at hend
        cases hend
        exact List.filter_sublist
      · rw [List.filter_cons_of_neg hkept]
        exact List.nil_sublist _

/-- The written sheet ends as the original does. -/
theorem endsWithNewline_text : endsWithNewline (sheet.text style) = endsWithNewline original := by
  refine endsWithNewline_assemble (sheet.newline_not_mem_rows hstyle) ?_
    (sheet.getLast?_rows_ne hstyle)
  intro hclosed hnil
  -- a sheet without rows is over the empty text, which has no newline at its end
  have hrows : sheet.rows = [] := List.map_eq_nil_iff.mp hnil
  have horiginals := sheet.originals
  rw [hrows, List.filterMap_nil] at horiginals
  rw [bodies_eq_nil_iff.mp horiginals.symm] at hclosed
  cases hclosed

end Written

end Sheet

namespace Editor

variable {original : Text}

/-- What reverting leaves of a written row is what is left of the row, written. -/
theorem release_written (editor : Editor) {row : Row}
    (h : row.owner? ≠ some editor.owner → ¬ editor.markers.Marks (row.written editor.style)) :
    editor.markers.release (row.written editor.style) =
      (row.release editor.owner).map (Row.written editor.style) := by
  by_cases howner : row.owner? = some editor.owner
  · cases row with
    | bare line => cases howner
    | disabled owner line =>
        cases howner
        rw [show (Row.disabled editor.owner line).written editor.style =
          editor.markers.delete ++ line from rfl, editor.markers_sound.release_delete]
        simp [Row.release, Row.written]
    | inserted owner line =>
        cases howner
        rw [show (Row.inserted editor.owner line).written editor.style =
          editor.markers.insert ++ line from rfl, Markers.release_insert]
        simp [Row.release]
  · rw [Row.release_of_ne howner, Markers.release_of_not_marks (h howner)]
    rfl

/-- Reverting the text of a sheet takes the edits of the editor away, when the rows of other owners
do not begin with a marker of the editor. -/
theorem revert_text (editor : Editor) (sheet : Sheet original)
    (h : ∀ row ∈ sheet.rows, row.owner? ≠ some editor.owner →
      ¬ editor.markers.Marks (row.written editor.style)) :
    editor.revert (sheet.text editor.style) = (sheet.release editor.owner).text editor.style := by
  have hleft : (sheet.rows.map (Row.written editor.style)).filterMap editor.markers.release =
      (sheet.release editor.owner).rows.map (Row.written editor.style) := by
    rw [List.filterMap_map, Sheet.release, List.map_filterMap]
    exact List.filterMap_congr fun row hrow ↦ editor.release_written (h row hrow)
  have hopen : endsWithNewline original = false →
      (sheet.rows.map (Row.written editor.style)).getLast?.bind editor.markers.release ≠
        some [] := by
    intro hopen hnil
    obtain ⟨last, hlast, hrel⟩ := Option.bind_eq_some_iff.mp hnil
    obtain ⟨front, hfront⟩ := List.getLast?_eq_some_iff.mp hlast
    apply (sheet.release editor.owner).getLast?_rows_ne editor.usable hopen
    rw [← hleft, hfront]
    simp [hrel]
  unfold Sheet.text
  rw [editor.revert_assemble (sheet.newline_not_mem_rows editor.usable)
    (sheet.getLast?_rows_ne editor.usable) hopen, hleft]

end Editor

end MarkedEdits
