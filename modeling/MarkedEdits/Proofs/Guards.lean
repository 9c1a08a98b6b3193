import MarkedEdits.Proofs.Plan.Rows

/-!
# What guards find

An evaluation succeeds when the edits and the guards of the editor are planned and rendered together
(`evaluate_ok_iff`). The guards match every line that holds a stem, and they change nothing. In the
file scope an evaluation that succeeds has met no stem at all (`stemFree_of_evaluate`). In both
scopes it has disabled no line with a stem, since the edit that disables the line and the guard
would have spans there that do not fit. The main statement is `exists_sheet_of_evaluate`: the text
that the edits lead to is a sheet over the evaluated text.
-/

namespace MarkedEdits

open Text

namespace Editor

variable {editor : Editor} {t composed : Text} {edits : List Edit}

/-- Without a plan there is only the error that ended the planning. -/
theorem evaluate_of_failure {failure : PlanFailure}
    (h : Plan.ofEdits t (edits ++ editor.guards) = .error failure) :
    (editor.evaluate t edits).1 = .error (editor.blame t edits.length failure.error) := by
  simp only [evaluate, h]

/-- The results of an evaluation are those of the plan, or of its failure. -/
theorem results_of_evaluate (editor : Editor) (t : Text) (edits : List Edit) :
    (editor.evaluate t edits).2 =
      match Plan.ofEdits t (edits ++ editor.guards) with
      | .error failure => failure.results
      | .ok plan => plan.results := by
  cases hplan : Plan.ofEdits t (edits ++ editor.guards) with
  | error failure => simp only [evaluate, hplan]
  | ok plan =>
      simp only [evaluate, hplan]
      split <;> rfl

/-- The results behind those of the edits show whether a guard has found something. -/
theorem any_found_iff {plan : Plan} (h : Plan.ofEdits t (edits ++ editor.guards) = .ok plan) :
    (plan.results.drop edits.length).any (·.found ≠ []) = true ↔
      ∃ guard ∈ editor.guards, Plan.matchesOf t guard ≠ [] := by
  have hdrop : plan.results.drop edits.length =
      editor.guards.map fun guard ↦ ⟨Plan.matchesOf t guard, none⟩ := by
    rw [Plan.ofEdits_results h, List.map_append]
    exact List.drop_left' (by simp)
  simp [hdrop]

/-- A plan is rendered, unless in the file scope a guard has found something. -/
theorem evaluate_of_plan {plan : Plan} (h : Plan.ofEdits t (edits ++ editor.guards) = .ok plan) :
    (editor.evaluate t edits).1 =
      if editor.scope = .file ∧ ∃ guard ∈ editor.guards, Plan.matchesOf t guard ≠ [] then
        .error (editor.markers.foreignError t)
      else
        (plan.render t (edits ++ editor.guards) editor.markers).mapError
          (editor.blame t edits.length) := by
  simp only [evaluate, h, Bool.and_eq_true, any_found_iff h, decide_eq_true_eq, and_comm]
  split <;> rfl

/-- An evaluation succeeds when its plan is rendered and in the file scope the guards have found
nothing. -/
theorem evaluate_ok_iff :
    (editor.evaluate t edits).1 = .ok composed ↔
      ∃ plan, Plan.ofEdits t (edits ++ editor.guards) = .ok plan ∧
        plan.render t (edits ++ editor.guards) editor.markers = .ok composed ∧
        (editor.scope = .file → ∀ guard ∈ editor.guards, Plan.matchesOf t guard = []) := by
  cases hplan : Plan.ofEdits t (edits ++ editor.guards) with
  | error failure => simp [evaluate_of_failure hplan]
  | ok plan =>
      rw [evaluate_of_plan hplan]
      by_cases hfound : editor.scope = .file ∧ ∃ guard ∈ editor.guards, Plan.matchesOf t guard ≠ []
      · obtain ⟨hfile, guard, hguard, hsome⟩ := id hfound
        rw [if_pos hfound]
        constructor
        · intro h
          cases h
        · rintro ⟨-, -, -, hnone⟩
          exact absurd (hnone hfile guard hguard) hsome
      · rw [if_neg hfound]
        constructor
        · intro h
          cases hrender : plan.render t (edits ++ editor.guards) editor.markers with
          | error error => simp [hrender, Except.mapError] at h
          | ok out =>
              rw [hrender] at h
              refine ⟨plan, rfl, hrender.trans h, fun hfile guard hguard ↦ ?_⟩
              by_contra hsome
              exact hfound ⟨hfile, guard, hguard, hsome⟩
        · rintro ⟨plan', hsame, hrender, -⟩
          cases hsame
          rw [hrender]
          rfl

/-- Guards keep what they match. -/
theorem keep_of_mem_guards {guard : Edit} (h : guard ∈ editor.guards) :
    guard.replacement = .keep := by
  simp only [guards, List.mem_cons, List.not_mem_nil, or_false] at h
  rcases h with rfl | rfl <;> rfl

/-- Every stem has its guard. -/
theorem exists_guard {stem : Text} (h : stem ∈ editor.style.stems) :
    ∃ guard ∈ editor.guards, guard.anchors = [stem] := by
  simp only [Style.stems, List.mem_cons, List.not_mem_nil, or_false] at h
  rcases h with rfl | rfl
  · exact ⟨guardFor editor.markers.insertStem editor.stems_ne_nil.1, by simp [guards], rfl⟩
  · exact ⟨guardFor editor.markers.deleteStem editor.stems_ne_nil.2, by simp [guards], rfl⟩

/-- A guard matches every line that holds a stem. -/
theorem exists_match_of_occursAt {stem : Text} (hstem : stem ∈ editor.style.stems) {j : Nat}
    (hocc : OccursAt t stem j) :
    ∃ guard ∈ editor.guards, ∃ lines ∈ Plan.matchesOf t guard, lines.start = lineStart t j := by
  obtain ⟨hne, hline⟩ := Style.stem_spec editor.usable hstem
  obtain ⟨guard, hguard, hanchors⟩ := exists_guard hstem
  obtain ⟨span, hspan, hstart⟩ := Anchor.exists_match_in_line hne hline hocc
  rw [← hanchors] at hspan
  exact ⟨guard, hguard, _, List.mem_map_of_mem hspan, hstart⟩

/-- A text in which the guards find nothing holds no stem. -/
theorem stemFree_of_guards (h : ∀ guard ∈ editor.guards, Plan.matchesOf t guard = []) :
    editor.style.StemFree t := by
  intro stem hstem hinfix
  obtain ⟨j, hocc⟩ := contains_iff_exists_occursAt.mp (contains_iff.mpr hinfix)
  obtain ⟨guard, hguard, lines, hlines, -⟩ := exists_match_of_occursAt hstem hocc
  rw [h guard hguard] at hlines
  cases hlines

/-- In the file scope an evaluation that succeeds has met no stem. -/
theorem stemFree_of_evaluate (hscope : editor.scope = .file)
    (h : (editor.evaluate t edits).1 = .ok composed) : editor.style.StemFree t := by
  obtain ⟨plan, -, -, hnone⟩ := evaluate_ok_iff.mp h
  exact stemFree_of_guards (hnone hscope)

/-- A plan with guards has a span of an edit that keeps its lines where a stem occurs. -/
theorem exists_keeping_span {plan : Plan}
    (hplan : Plan.ofEdits t (edits ++ editor.guards) = .ok plan) {stem : Text}
    (hstem : stem ∈ editor.style.stems) {j : Nat} (hocc : OccursAt t stem j) :
    ∃ span ∈ plan.spans, span.start = lineStart t j ∧
      ∃ guard, (edits ++ editor.guards)[span.owner]? = some guard ∧ guard.replacement = .keep := by
  obtain ⟨guard, hguard, lines, hlines, hstart⟩ := exists_match_of_occursAt hstem hocc
  obtain ⟨k, hk⟩ := List.getElem?_of_mem (List.mem_append_right edits hguard)
  obtain ⟨span, hspan, howner, hspanStart, -⟩ := Plan.exists_span_of_match hplan hk hlines
  exact ⟨span, hspan, hspanStart.trans hstart, guard, by rw [howner, hk], keep_of_mem_guards hguard⟩

/-- No line that holds a stem is disabled. -/
theorem stemFree_of_disabled {plan : Plan}
    (hplan : Plan.ofEdits t (edits ++ editor.guards) = .ok plan)
    (hfits : Plan.Fits 0 plan.spans) {owner other : Namespace} {line : Text}
    (hrow : Row.disabled other line ∈
      Plan.rowsFrom t (edits ++ editor.guards) owner 0 plan.spans) :
    editor.style.StemFree line := by
  intro stem hstem hinfix
  have hne := (Style.stem_spec editor.usable hstem).1
  obtain ⟨span, hspan, edit, hedit, hkind, j, hocc, hle, hlt⟩ :=
    Plan.exists_occursAt_of_disabled hplan hrow hne hinfix
  obtain ⟨kept, hkept, hstart, guard, hguard, hkeep⟩ := exists_keeping_span hplan hstem hocc
  -- the span of the guard begins within the span that is disabled, so they are the same
  have hsame : span = kept := by
    refine hfits.eq_of_start_within (fun other hother ↦ ?_) hspan hkept ?_ ?_
    · exact (Plan.isLineRun_span hplan hother).lt
    · rwa [hstart]
    · rwa [hstart]
  rw [hsame, hguard] at hedit
  cases hedit
  rw [hkeep] at hkind
  cases hkind

/-- The text that the edits lead to is a sheet over the evaluated text, on which the editor has made
all edits. Without them it is the evaluated text again, and none of its disabled lines holds a
stem. -/
theorem exists_sheet_of_evaluate (h : (editor.evaluate t edits).1 = .ok composed) :
    ∃ sheet : Sheet t, composed = sheet.text editor.style ∧
      sheet.release editor.owner = Sheet.plain t ∧ sheet.OwnedBy [editor.owner] ∧
      ∀ owner line, Row.disabled owner line ∈ sheet.rows → editor.style.StemFree line := by
  obtain ⟨plan, hplan, hrender, -⟩ := evaluate_ok_iff.mp h
  obtain ⟨sheet, hrows, htext, hrelease⟩ := Plan.exists_sheet_of_render hplan hrender
  refine ⟨sheet, htext, hrelease, Sheet.ownedBy_of_release_eq_plain hrelease,
    fun owner line hrow ↦ ?_⟩
  rw [hrows] at hrow
  exact stemFree_of_disabled hplan (Plan.fits_of_render hrender) hrow

end Editor

end MarkedEdits
