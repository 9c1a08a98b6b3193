import MarkedEdits.Proofs.Scope.Guarded
import MarkedEdits.Proofs.Session.Basic

/-!
# The lines of other namespaces in the span scope

In the span scope an editor carries out edits next to lines that hold a stem. What it carries out is
what the edits come to without the guards, and none of their spans touches such a line
(`Editor.evaluate_span_iff`). So these lines are kept as they are and in their order
(`Editor.foreign_lines_kept`).
-/

namespace MarkedEdits

open Text

open scoped List

namespace Editor

variable {editor : Editor} {t composed : Text} {edits : List Edit}

/-- In the span scope edits lead to the text that they lead to alone, when their spans touch no line
that holds a stem and no line holds both stems. -/
theorem evaluate_span_iff (hscope : editor.scope = .span) :
    (editor.evaluate t edits).1 = .ok composed ↔
      (∃ plan, Plan.ofEdits t edits = .ok plan ∧ plan.render t edits editor.markers = .ok composed ∧
        plan.Avoids t editor.markers) ∧
      editor.markers.Unmixed t := by
  have hnone : editor.scope = .file → ∀ guard ∈ editor.guards, Plan.matchesOf t guard = [] := by
    intro hfile
    rw [hscope] at hfile
    cases hfile
  have hinert : ∀ guard ∈ editor.guards, guard.Inert := fun guard ↦ inert_of_mem_guards
  constructor
  · intro h
    obtain ⟨both, hboth, hrender, -⟩ := evaluate_ok_iff.mp h
    have hacceptable := (Plan.acceptable_iff editor.markers).mp ⟨both, composed, hboth, hrender⟩
    obtain ⟨plan, hplan, hown⟩ := exists_render_of_evaluate h
    obtain ⟨-, havoids, hunmixed⟩ := (acceptable_guarded_iff hplan).mp hacceptable
    exact ⟨⟨plan, hplan, hown, havoids⟩, hunmixed⟩
  · rintro ⟨⟨plan, hplan, hown, havoids⟩, hunmixed⟩
    have halone := (Plan.acceptable_iff editor.markers).mp ⟨plan, composed, hplan, hown⟩
    obtain ⟨both, result, hboth, hrender⟩ := (Plan.acceptable_iff editor.markers).mpr
      ((acceptable_guarded_iff hplan).mpr ⟨halone, havoids, hunmixed⟩)
    rw [Plan.render_append_inert hinert hplan hboth hown hrender] at hrender
    exact evaluate_ok_iff.mpr ⟨both, hboth, hrender, hnone⟩

/-! ## Lines that are kept -/

/-- Whether a line holds a stem does not depend on its newline. -/
theorem onLine_line (editor : Editor) (body : Text) :
    editor.markers.onLine (body ++ ['\n']) = editor.markers.onLine body := by
  rw [Bool.eq_iff_iff, onLine_iff_exists_stem, onLine_iff_exists_stem]
  have hstems : ∀ stem ∈ editor.style.stems, stem <:+: body ++ ['\n'] ↔ stem <:+: body :=
    fun stem hstem ↦ infix_line_iff (Style.stem_spec editor.usable hstem).2
  constructor
  · rintro ⟨stem, hstem, hpart⟩
    exact ⟨stem, hstem, (hstems stem hstem).mp hpart⟩
  · rintro ⟨stem, hstem, hpart⟩
    exact ⟨stem, hstem, (hstems stem hstem).mpr hpart⟩

section Kept

variable {plan : Plan} (hplan : Plan.ofEdits t edits = .ok plan)
  (havoids : plan.Avoids t editor.markers)

include hplan havoids

/-- A line that holds a stem is not disabled. -/
theorem not_onLine_of_disabled {owner other : Namespace} {line : Text}
    (hrow : Row.disabled other line ∈ Plan.rowsFrom t edits owner 0 plan.spans) :
    editor.markers.onLine line = false := by
  rw [← Bool.not_eq_true, onLine_iff_exists_stem]
  rintro ⟨stem, hstem, hpart⟩
  obtain ⟨hne, hnewline⟩ := Style.stem_spec editor.usable hstem
  obtain ⟨span, hspan, -, -, -, j, hocc, hle, hlt⟩ :=
    Plan.exists_occursAt_of_disabled hplan hrow hne hpart
  obtain ⟨p, hp, hstart, -, hheld⟩ := hocc.exists_placed hnewline hne
  -- the line of the stem begins within the span
  refine havoids span hspan p hp (onLine_iff_exists_stem.mpr ⟨stem, hstem, hheld⟩) ?_
  rw [← hstart] at hle hlt
  exact ⟨p.start, ⟨hle, hlt⟩, Nat.le_refl _, start_lt_stop hp⟩

/-- No span reaches into a last line that holds a stem. -/
theorem stop_le_of_onLine_last {front : List Text} {last : Text} (ht : t = unlines front ++ last)
    (hfront : ∀ body ∈ front, '\n' ∉ body) (hnewline : '\n' ∉ last) (hne : last ≠ [])
    (hline : editor.markers.onLine last = true) {span : PlannedSpan} (hspan : span ∈ plan.spans) :
    span.stop ≤ size (unlines front) := by
  obtain ⟨p, hp, hpline, hpstart, hpstop⟩ := exists_placed_last hfront hnewline hne
  rw [← ht] at hp hpstop
  have hrun := Plan.isLineRun_span hplan hspan
  have hlt := hrun.lt
  have hsize := hrun.isBreak_stop.le_size
  have hfree := havoids span hspan p hp (by rwa [hpline])
  rw [PlannedSpan.touches_iff hlt (start_lt_stop hp)] at hfree
  omega

/-- When the last line holds a stem and is not ended, nothing is inserted behind it. -/
theorem getLast?_rowsFrom (owner : Namespace) (hopen : endsWithNewline t = false) {last : Text}
    (hlast : last ∈ (bodies t).getLast?) (hline : editor.markers.onLine last = true) :
    (Plan.rowsFrom t edits owner 0 plan.spans).getLast? = some (.bare last) := by
  have hstart : ¬ AtLineStart t := by
    rintro (rfl | hend)
    · cases hlast
    · rw [hopen] at hend
      cases hend
  obtain ⟨front, other, hbodies, ht, hne⟩ := exists_open_last hstart
  have hsame : other = last := by simpa [hbodies] using hlast
  rw [hsame] at hbodies ht hne
  have hbody : ∀ body ∈ front ++ [last], '\n' ∉ body := by
    rw [← hbodies]
    exact fun body ↦ newline_not_mem_of_mem_bodies
  obtain ⟨hfront, hlast'⟩ := List.forall_mem_append.mp hbody
  have hnewline := hlast' last (List.mem_singleton_self last)
  have hbreak : IsBreak t (size (unlines front)) :=
    ⟨unlines front, last, ht, rfl, .inl (atLineStart_unlines front)⟩
  have hspans : ∀ span ∈ plan.spans,
      IsBoundary t span.stop ∧ span.stop ≤ size (unlines front) := fun span hspan ↦
    ⟨(Plan.isLineRun_span hplan hspan).isBreak_stop.isBoundary,
      stop_le_of_onLine_last hplan havoids ht hfront hnewline hne hline hspan⟩
  obtain ⟨rows, hrows⟩ : ∃ rows, Plan.rowsFrom t edits owner 0 plan.spans =
      rows ++ Plan.bareRows (dropBytes (size (unlines front)) t) :=
    Plan.exists_rowsFrom_eq_append owner (isBreak_zero t).isBoundary hbreak (Nat.zero_le _) hspans
  have htail : Plan.bareRows (dropBytes (size (unlines front)) t) = [.bare last] := by
    rw [ht, dropBytes_size_append, Plan.bareRows, bodies_body hnewline hne]
    rfl
  rw [hrows, htail, List.getLast?_concat]

/-- The lines that hold a stem are lines of the rendered text, in their order. -/
theorem filter_lines_sublist_of_avoids
    (hrender : plan.render t edits editor.markers = .ok composed) :
    (lines t).filter editor.markers.onLine <+ lines composed := by
  obtain ⟨sheet, hrows, rfl, -⟩ := Plan.exists_sheet_of_render hplan hrender
  refine sheet.filter_lines_sublist editor.usable editor.onLine_line (fun owner line hrow ↦ ?_)
    (fun hopen last hlast hline ↦ ?_)
  · rw [hrows] at hrow
    exact not_onLine_of_disabled hplan havoids hrow
  · rw [hrows]
    exact getLast?_rowsFrom hplan havoids editor.owner hopen hlast hline

end Kept

/-- In the span scope a patch that succeeds touches no line with a stem with the spans of its edits,
which are those of the edits alone, and it keeps these lines as they are and in their order. -/
theorem foreign_lines_kept (editor : Editor) (hscope : editor.scope = .span) (t : Text)
    (edits : List Edit) {outcome : Outcome} (h : editor.patch t edits = .ok outcome) :
    let base := editor.revert t
    (∃ plan both, Plan.ofEdits base edits = .ok plan ∧
      Plan.ofEdits base (edits ++ editor.guards) = .ok both ∧
      both.spans.filter (·.owner < edits.length) = plan.spans ∧
      plan.Avoids base editor.markers) ∧
    (lines base).filter editor.markers.onLine <+ lines (outcome.applied t) := by
  intro base
  obtain ⟨composed, heval, rfl⟩ := patch_ok_iff.mp h
  obtain ⟨both, hboth, -⟩ := evaluate_ok_iff.mp heval
  obtain ⟨⟨plan, hplan, hrender, havoids⟩, -⟩ := (evaluate_span_iff hscope).mp heval
  rw [Outcome.applied_between]
  exact ⟨⟨plan, both, hplan, hboth, Plan.spans_eq_filter hplan hboth, havoids⟩,
    filter_lines_sublist_of_avoids hplan havoids hrender⟩

/-- A line that is not ended and belongs to another namespace stays behind an edit of the line
before it. -/
theorem foreign_lines_kept_last :
    let editor : Editor :=
      { owner := ⟨['b'], by simp, List.forall_mem_singleton.mpr rfl⟩, style := .hash
        usable := by decide, scope := .span }
    let edit : Edit :=
      { anchors := [['x']], anchors_ne_nil := by simp, anchor_ne_nil := by simp
        after := ['z'] }
    let t := "x\n# + PL:a + # y".toList
    let patched := "x\n# + PL:b + # z\n# + PL:a + # y".toList
    editor.patch t [edit] = .ok (.patched patched) ∧
      (lines (editor.revert t)).filter editor.markers.onLine = ["# + PL:a + # y".toList] ∧
      (lines (editor.revert t)).filter editor.markers.onLine <+ lines patched := by
  intro editor edit t patched
  have hpatch : editor.patch t [edit] = .ok (.patched patched) := by
    simp only [t, patched, editor, edit]
    decide +kernel
  obtain ⟨-, hkept⟩ := foreign_lines_kept editor rfl t [edit] hpatch
  refine ⟨hpatch, ?_, hkept⟩
  simp only [t, editor]
  decide +kernel

end Editor

end MarkedEdits
