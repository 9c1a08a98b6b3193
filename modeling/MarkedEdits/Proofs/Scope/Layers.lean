import MarkedEdits.Proofs.Isolation
import MarkedEdits.Proofs.Scope.Span
import MarkedEdits.Proofs.Session.History

/-!
# Layers of an editor's own markers

Reverting takes one marker off a line, so a line with several markers of one editor is still marked
in the reverted text. The file scope refuses such a text. In the span scope the line counts as a
line of another namespace: edits beside it are carried out, and the next revert takes off one more
marker.

What is composed from a text reverts to what the text itself reverts to
(`Editor.revert_of_evaluate`). Therefore a patch can be taken back and repeated exactly when no line
of the reverted text is marked (`Editor.repeatable_iff`).
-/

namespace MarkedEdits

open Text

namespace Markers.Sound

variable {markers : Markers} (h : markers.Sound)

include h

/-- What is left of a body is not longer, and it is shorter when the body is marked. -/
theorem length_release {body left : Text} (hrel : markers.release body = some left) :
    left.length ≤ body.length ∧ (markers.Marks body → left.length < body.length) := by
  by_cases hmarks : markers.Marks body
  · have hlt : left.length < body.length := by
      rcases hmarks with ⟨rest, rfl⟩ | ⟨rest, rfl⟩
      · rw [release_insert] at hrel
        cases hrel
      · have hpos := List.length_pos_of_ne_nil h.delete_ne_nil
        rw [h.release_delete, Option.some.injEq] at hrel
        rw [← hrel, List.length_append]
        omega
    exact ⟨Nat.le_of_lt hlt, fun _ ↦ hlt⟩
  · rw [release_of_not_marks hmarks, Option.some.injEq] at hrel
    rw [← hrel]
    exact ⟨Nat.le_refl _, fun hmarked ↦ absurd hmarked hmarks⟩

/-- What is left of rows has no more characters than the rows. -/
theorem length_flatten_release_le (rows : List Text) :
    (rows.filterMap markers.release).flatten.length ≤ rows.flatten.length := by
  induction rows with
  | nil => exact Nat.le_refl _
  | cons row rest ih =>
      rw [List.filterMap_cons]
      cases hrel : markers.release row with
      | none =>
          simp only [List.flatten_cons, List.length_append]
          omega
      | some left =>
          have hle := (h.length_release hrel).1
          simp only [List.flatten_cons, List.length_append]
          omega

/-- It has fewer when one of the rows is marked. -/
theorem length_flatten_release_lt {rows : List Text} {row : Text} (hrow : row ∈ rows)
    (hmarks : markers.Marks row) :
    (rows.filterMap markers.release).flatten.length < rows.flatten.length := by
  obtain ⟨front, rest, rfl⟩ := List.append_of_mem hrow
  have hfront := h.length_flatten_release_le front
  have hrest := h.length_flatten_release_le rest
  have hpos : 0 < row.length := by
    apply List.length_pos_of_ne_nil
    rcases hmarks with hpre | hpre
    · exact hpre.ne_nil h.insert_ne_nil
    · exact hpre.ne_nil h.delete_ne_nil
  rw [List.filterMap_append, List.filterMap_cons]
  cases hrel : markers.release row with
  | none =>
      simp only [List.flatten_append, List.flatten_cons, List.length_append]
      omega
  | some left =>
      have hlt := (h.length_release hrel).2 hmarks
      simp only [List.flatten_append, List.flatten_cons, List.length_append]
      omega

end Markers.Sound

namespace Editor

variable {editor : Editor} {t composed : Text} {edits : List Edit}

/-- Reverting leaves exactly the unmarked texts as they are. -/
theorem revert_eq_self_iff (editor : Editor) (t : Text) :
    editor.revert t = t ↔ editor.markers.Unmarked t := by
  refine ⟨fun hsame ↦ ?_, revert_of_unmarked⟩
  refine editor.markers_sound.unmarked_iff.mpr fun body hbody hmarks ↦ ?_
  -- a marked line would leave fewer characters, newlines not counted
  have hlt := editor.markers_sound.length_flatten_release_lt hbody hmarks
  have hleft := congrArg List.flatten (editor.filter_bodies_revert t)
  rw [hsame] at hleft
  simp only [ne_eq, List.flatten_filter_ne_nil] at hleft
  rw [← hleft] at hlt
  exact Nat.lt_irrefl _ hlt

/-- A line that is marked holds a stem. -/
theorem onLine_of_marks {line : Text} (h : editor.markers.Marks line) :
    editor.markers.onLine line = true := by
  rw [onLine_iff_exists_stem]
  by_contra hnone
  have hfree : editor.style.StemFree line := fun stem hstem hin ↦ hnone ⟨stem, hstem, hin⟩
  exact hfree.not_marks editor.owner h

/-! ## Reverting a sheet -/

/-- Reverting a row of the editor is reverting the line that the row stands for, provided that a
line that the editor has disabled is not marked itself. -/
theorem release_written_eq {row : Row} (howner : ∀ owner ∈ row.owner?, owner = editor.owner)
    (hdisabled : ∀ owner line, row = .disabled owner line → ¬ editor.markers.Marks line) :
    editor.markers.release (row.written editor.style) =
      row.original?.bind editor.markers.release := by
  cases row with
  | bare line => rfl
  | disabled owner line =>
      cases howner owner rfl
      have hline := Markers.release_of_not_marks (hdisabled _ line rfl)
      show editor.markers.release (editor.markers.delete ++ line) = editor.markers.release line
      rw [editor.markers_sound.release_delete, hline]
  | inserted owner line =>
      cases howner owner rfl
      show editor.markers.release (editor.markers.insert ++ line) = none
      rw [Markers.release_insert]

/-- Reverting rows of the editor is reverting the lines that the rows stand for. -/
theorem filterMap_release_written {rows : List Row}
    (howned : ∀ row ∈ rows, ∀ owner ∈ row.owner?, owner = editor.owner)
    (hdisabled : ∀ owner line, Row.disabled owner line ∈ rows → ¬ editor.markers.Marks line) :
    (rows.map (Row.written editor.style)).filterMap editor.markers.release =
      (rows.filterMap Row.original?).filterMap editor.markers.release := by
  rw [List.filterMap_map, List.filterMap_filterMap]
  refine List.filterMap_congr fun row hrow ↦ release_written_eq (howned row hrow) ?_
  rintro owner line rfl
  exact hdisabled owner line hrow

section Sheet

variable {sheet : Sheet t} (howned : ∀ row ∈ sheet.rows, ∀ owner ∈ row.owner?, owner = editor.owner)
  (hdisabled : ∀ owner line, Row.disabled owner line ∈ sheet.rows → ¬ editor.markers.Marks line)

include howned hdisabled

/-- When the original has no marked last line that is not ended, a sheet of the editor reverts to
what the original reverts to. -/
theorem revert_text_of_last_unmarked
    (hlast : endsWithNewline t = false → ∀ last ∈ (bodies t).getLast?,
      ¬ editor.markers.Marks last) :
    editor.revert (sheet.text editor.style) = editor.revert t := by
  have hopen : ∀ last ∈ (bodies t).getLast?, endsWithNewline t = false →
      editor.markers.release last ≠ some [] := by
    intro last hmem hopen hnil
    rw [Markers.release_of_not_marks (hlast hopen last hmem), Option.some.injEq] at hnil
    rw [hnil] at hmem
    exact getLast?_bodies_ne hopen hmem
  have hbodies : endsWithNewline t = false →
      (bodies t).getLast?.bind editor.markers.release ≠ some [] := by
    intro hend hnil
    obtain ⟨last, hmem, hrel⟩ := Option.bind_eq_some_iff.mp hnil
    exact hopen last hmem hend hrel
  have hrows : endsWithNewline t = false →
      (sheet.rows.map (Row.written editor.style)).getLast?.bind editor.markers.release ≠
        some [] := by
    intro hend hnil
    obtain ⟨written, hwritten, hrel⟩ := Option.bind_eq_some_iff.mp hnil
    rw [List.getLast?_map] at hwritten
    obtain ⟨row, hrow, rfl⟩ := Option.map_eq_some_iff.mp hwritten
    obtain ⟨front, hfront⟩ := List.getLast?_eq_some_iff.mp hrow
    have hmem : row ∈ sheet.rows := by simp [hfront]
    rw [release_written_eq (howned row hmem) fun owner line heq ↦ hdisabled owner line (heq ▸ hmem)]
      at hrel
    -- what is left of the last row is left of the line of the original that it stands for
    obtain ⟨line, hline, hrel⟩ := Option.bind_eq_some_iff.mp hrel
    refine hopen line ?_ hend hrel
    rw [← sheet.originals, hfront, List.filterMap_append, List.filterMap_cons, hline]
    simp
  have horiginal := editor.revert_assemble (fun _ ↦ newline_not_mem_of_mem_bodies)
    getLast?_bodies_ne hbodies
  rw [assemble_bodies] at horiginal
  rw [horiginal, Sheet.text, editor.revert_assemble (sheet.newline_not_mem_rows editor.usable)
    (sheet.getLast?_rows_ne editor.usable) hrows, filterMap_release_written howned hdisabled,
    sheet.originals]

/-- When the last line of the original is not ended and stays the last row, a sheet of the editor
reverts to what the original reverts to. -/
theorem revert_text_of_last_bare (hopen : endsWithNewline t = false) {last : Text}
    (hlast : last ∈ (bodies t).getLast?) (hrow : sheet.rows.getLast? = some (.bare last)) :
    editor.revert (sheet.text editor.style) = editor.revert t := by
  have hstart : ¬ AtLineStart t := by
    rintro (rfl | hend)
    · cases hlast
    · rw [hopen] at hend
      cases hend
  obtain ⟨front, other, hbodies, ht, hne⟩ := exists_open_last hstart
  have hsame : other = last := by simpa [hbodies] using hlast
  rw [hsame] at hbodies ht hne
  obtain ⟨before, hbefore⟩ := List.getLast?_eq_some_iff.mp hrow
  have hfront : before.filterMap Row.original? = front := by
    have horiginals := sheet.originals
    rw [hbefore, hbodies, List.filterMap_append] at horiginals
    exact (List.append_inj' horiginals rfl).1
  have htext : sheet.text editor.style =
      unlines (before.map (Row.written editor.style)) ++ last := by
    rw [Sheet.text, hopen, hbefore, List.map_append]
    exact assemble_open_concat _ _
  have hlines := sheet.newline_not_mem_rows editor.usable
  rw [hbefore, List.map_append] at hlines
  have hwritten : ∀ line ∈ before.map (Row.written editor.style), '\n' ∉ line :=
    fun line hmem ↦ hlines line (List.mem_append_left _ hmem)
  have hbody : ∀ body ∈ front ++ [last], '\n' ∉ body := by
    rw [← hbodies]
    exact fun body ↦ newline_not_mem_of_mem_bodies
  have hnewline := hbody last (by simp)
  have hleft : (before.map (Row.written editor.style)).filterMap editor.markers.release =
      front.filterMap editor.markers.release := by
    rw [← hfront]
    refine filterMap_release_written (fun row hmem ↦ ?_) fun owner line hmem ↦ ?_
    · exact howned row (by simp [hbefore, hmem])
    · exact hdisabled owner line (by simp [hbefore, hmem])
  rw [htext, editor.revert_unlines_append hwritten hnewline hne, hleft,
    ← editor.revert_unlines_append (fun body hmem ↦ hbody body (by simp [hmem])) hnewline hne, ← ht]

end Sheet

/-! ## Patches of texts with markers left -/

/-- What is composed from a text reverts to what the text reverts to. -/
theorem revert_of_evaluate (h : (editor.evaluate t edits).1 = .ok composed) :
    editor.revert composed = editor.revert t := by
  cases hscope : editor.scope with
  | file =>
      have hunmarked := unmarked_of_evaluate hscope h
      rw [revert_composed hunmarked h, revert_of_unmarked hunmarked]
  | span =>
      obtain ⟨⟨plan, hplan, hrender, havoids⟩, -⟩ := (evaluate_span_iff hscope).mp h
      obtain ⟨sheet, hrows, rfl, hrelease⟩ := Plan.exists_sheet_of_render hplan hrender
      have howned := Sheet.ownedBy_of_release_eq_plain hrelease
      have hsingle : ∀ row ∈ sheet.rows, ∀ owner ∈ row.owner?, owner = editor.owner :=
        fun row hrow owner howner ↦ List.mem_singleton.mp (howned row hrow owner howner)
      -- edits keep away from lines that hold a stem, so they disable none that is marked
      have hdisabled : ∀ owner line, Row.disabled owner line ∈ sheet.rows →
          ¬ editor.markers.Marks line := by
        intro owner line hrow hmarks
        rw [hrows] at hrow
        have hline := not_onLine_of_disabled hplan havoids hrow
        rw [onLine_of_marks hmarks] at hline
        cases hline
      by_cases hlast : endsWithNewline t = false ∧
          ∃ last ∈ (bodies t).getLast?, editor.markers.Marks last
      · obtain ⟨hopen, last, hlast, hmarks⟩ := hlast
        refine revert_text_of_last_bare hsingle hdisabled hopen hlast ?_
        rw [hrows]
        exact getLast?_rowsFrom hplan havoids editor.owner hopen hlast (onLine_of_marks hmarks)
      · exact revert_text_of_last_unmarked hsingle hdisabled fun hopen last hmem hmarks ↦
          hlast ⟨hopen, last, hmem, hmarks⟩

/-- After a patch the text reverts to what the reverted text reverts to. So the patch can be taken
back, and repeating it changes nothing, exactly when no line of the reverted text is marked. -/
theorem repeatable_iff (editor : Editor) (t : Text) (edits : List Edit) {patched : Text}
    (h : editor.patch t edits = .ok (.patched patched)) :
    let base := editor.revert t
    editor.revert patched = editor.revert base ∧
      (editor.revert patched = base ∧ editor.patch patched edits = .ok .unchanged ↔
        editor.markers.Unmarked base) := by
  intro base
  have hrevert : editor.revert patched = editor.revert base := by
    obtain ⟨composed, heval, hbetween⟩ := patch_ok_iff.mp h
    have hsame := Outcome.applied_between t composed
    rw [← hbetween] at hsame
    rw [show patched = composed from hsame]
    exact revert_of_evaluate heval
  refine ⟨hrevert, ?_⟩
  constructor
  · rintro ⟨hbase, -⟩
    rw [← revert_eq_self_iff, ← hrevert, hbase]
  · intro hunmarked
    have hbase : editor.revert patched = base := hrevert.trans (revert_of_unmarked hunmarked)
    exact ⟨hbase, patch_again h hbase⟩

/-- Beside a line of another namespace and behind a line that the editor has disabled once, an edit
can be taken back and repeated. -/
theorem repeatable_iff_once :
    let editor : Editor :=
      { owner := ⟨['b'], by simp, List.forall_mem_singleton.mpr rfl⟩, style := .hash
        usable := by decide, scope := .span }
    let edit : Edit :=
      { anchors := [['x']], anchors_ne_nil := by simp, anchor_ne_nil := by simp
        before := ['z'] }
    let t := "# - PL:b - # v\n# + PL:a + # y\nx".toList
    let patched := "v\n# + PL:a + # y\n# + PL:b + # z\nx".toList
    editor.patch t [edit] = .ok (.patched patched) ∧ editor.markers.Unmarked (editor.revert t) ∧
      editor.revert patched = editor.revert t ∧
      editor.patch patched [edit] = .ok .unchanged := by
  intro editor edit t patched
  have hpatch : editor.patch t [edit] = .ok (.patched patched) := by
    simp only [t, patched, editor, edit]
    decide +kernel
  have hunmarked : editor.markers.Unmarked (editor.revert t) := by
    simp only [t, editor]
    decide +kernel
  exact ⟨hpatch, hunmarked, (repeatable_iff editor t [edit] hpatch).2.mpr hunmarked⟩

/-- A line that the editor has disabled twice is enabled once by each of two patches with the same
edits, so the first of them cannot be taken back and is not repeated. -/
theorem not_repeatable_twice :
    let editor : Editor :=
      { owner := ⟨['a'], by simp, List.forall_mem_singleton.mpr rfl⟩, style := .hash
        usable := by decide, scope := .span }
    let edit : Edit :=
      { anchors := [['x']], anchors_ne_nil := by simp, anchor_ne_nil := by simp
        before := ['z'] }
    let t := "# - PL:a - # # - PL:a - # v\nx\n".toList
    let patched := "# - PL:a - # v\n# + PL:a + # z\nx\n".toList
    editor.patch t [edit] = .ok (.patched patched) ∧
      editor.revert patched ≠ editor.revert t ∧
      editor.patch patched [edit] = .ok (.patched "v\n# + PL:a + # z\nx\n".toList) := by
  intro editor edit t patched
  simp only [t, patched, editor, edit]
  refine ⟨?_, ?_, ?_⟩
  all_goals decide +kernel

end Editor

end MarkedEdits
