import MarkedEdits.Proofs.Session.Basic

/-!
# One editor over a whole run

The text that an editor composes comes apart into the text that it was composed from, if no line of
that text begins with a marker of the editor (`Editor.revert_composed`). Hence an editor that works
alone can always go back, and what it does next does not depend on what it did before. In the file
scope the same holds of a single patch of any text, since the guards let no marked line pass.
-/

namespace MarkedEdits

open Text

namespace Editor

variable {editor : Editor} {t composed : Text} {edits : List Edit}

/-- No row of a sheet over an unmarked text is marked, except for the editor's own. -/
theorem not_marks_written (ht : editor.markers.Unmarked t) {sheet : Sheet t}
    (howned : sheet.OwnedBy [editor.owner]) : ∀ row ∈ sheet.rows,
      row.owner? ≠ some editor.owner → ¬ editor.markers.Marks (row.written editor.style) := by
  intro row hrow hne
  cases row with
  | bare line =>
      have hline : line ∈ bodies t := Sheet.mem_bodies_of_bare hrow
      exact editor.markers_sound.unmarked_iff.mp ht line hline
  | disabled owner line =>
      have howner := howned _ hrow owner rfl
      exact absurd (congrArg some (List.mem_singleton.mp howner)) hne
  | inserted owner line =>
      have howner := howned _ hrow owner rfl
      exact absurd (congrArg some (List.mem_singleton.mp howner)) hne

/-- An unmarked text is left as it is. -/
theorem revert_of_unmarked (ht : editor.markers.Unmarked t) : editor.revert t = t := by
  have howned := Sheet.ownedBy_plain t [editor.owner]
  have hrevert := editor.revert_text (Sheet.plain t) (not_marks_written ht howned)
  rwa [Sheet.release_plain, Sheet.text_plain] at hrevert

/-- What an editor makes of an unmarked text comes apart into that text. -/
theorem revert_composed (ht : editor.markers.Unmarked t)
    (h : (editor.evaluate t edits).1 = .ok composed) : editor.revert composed = t := by
  obtain ⟨sheet, rfl, hrelease, howned, -⟩ := exists_sheet_of_evaluate h
  rw [editor.revert_text sheet (not_marks_written ht howned), hrelease, Sheet.text_plain]

/-- In the file scope only unmarked texts are evaluated. -/
theorem unmarked_of_evaluate (hscope : editor.scope = .file)
    (h : (editor.evaluate t edits).1 = .ok composed) : editor.markers.Unmarked t := by
  have hfree := stemFree_of_evaluate hscope h
  refine editor.markers_sound.unmarked_iff.mpr fun body hbody ↦ ?_
  exact (hfree.of_mem_bodies hbody).not_marks editor.owner

/-- Along a run of one editor that begins with an unmarked text, every text reverts to the first
one. -/
theorem revert_run {original : Text} (horiginal : editor.markers.Unmarked original)
    (actions : List Action) :
    editor.revert (run original (actions.map (Step.mk editor))) = original := by
  have heditor : ∀ step ∈ actions.map (Step.mk editor), step.editor = editor := by
    intro step hstep
    obtain ⟨action, -, rfl⟩ := List.mem_map.mp hstep
    rfl
  -- the invariant is that the text reverts to the original, whatever stands in it
  refine run_induction (motive := fun t ↦ editor.revert t = original)
    (revert_of_unmarked horiginal) ?_ ?_
  · intro step hstep t ht
    rw [heditor step hstep, ht]
    exact revert_of_unmarked horiginal
  · intro step hstep t edits composed ht hcompose
    rw [heditor step hstep, ht] at hcompose
    exact revert_composed horiginal hcompose

/-- However an editor has worked on a text without its markers, the text can be had back, all edits
lead to what they lead to from the original text, and edits that were just carried out change
nothing. -/
theorem history_independent (editor : Editor) {original : Text}
    (horiginal : editor.markers.Unmarked original) (actions : List Action) :
    let reached := run original (actions.map (Step.mk editor))
    editor.revert reached = original ∧
      (∀ edits, editor.Agree edits reached original) ∧
      ∀ edits outcome, editor.patch reached edits = .ok outcome →
        editor.patch (outcome.applied reached) edits = .ok .unchanged := by
  intro reached
  have hreached : editor.revert reached = original := revert_run horiginal actions
  refine ⟨hreached, fun edits ↦ ?_, fun edits outcome h ↦ ?_⟩
  · apply agree_of_revert_eq
    rw [hreached, revert_of_unmarked horiginal]
  · apply patch_again h
    obtain ⟨composed, heval, rfl⟩ := patch_ok_iff.mp h
    rw [hreached] at heval ⊢
    rw [Outcome.applied_between]
    exact revert_composed horiginal heval

/-- A line that is inserted before the only line of a text can be taken away again. -/
theorem history_independent_insert :
    let editor : Editor :=
      { owner := ⟨['a'], by simp, List.forall_mem_singleton.mpr rfl⟩, style := .block
        usable := by decide, scope := .span }
    let edit : Edit :=
      { anchors := [['x']], anchors_ne_nil := by simp, anchor_ne_nil := by simp
        before := ['y'] }
    let reached := run ['x'] [⟨editor, .patch [edit]⟩]
    editor.markers.Unmarked ['x'] ∧ reached = "/* + PL:a + */ y\nx".toList ∧
      editor.revert reached = ['x'] ∧ editor.Agree [edit] reached ['x'] := by
  intro editor edit reached
  have hunmarked : editor.markers.Unmarked ['x'] := by decide
  obtain ⟨hrevert, hagree, -⟩ := history_independent editor hunmarked [.patch [edit]]
  refine ⟨hunmarked, ?_, hrevert, hagree [edit]⟩
  simp only [reached, editor, edit]
  decide +kernel

/-- In the file scope a patch of any text leaves what the text reverts to and what all edits lead
to, and carrying out the same edits once more changes nothing. -/
theorem file_scope_round_trip (editor : Editor) (hscope : editor.scope = .file) (t : Text)
    (edits : List Edit) {outcome : Outcome} (h : editor.patch t edits = .ok outcome) :
    let patched := outcome.applied t
    editor.revert patched = editor.revert t ∧
      (∀ others, editor.Agree others patched t) ∧
      editor.patch patched edits = .ok .unchanged := by
  intro patched
  have hrevert : editor.revert patched = editor.revert t := by
    obtain ⟨composed, heval, rfl⟩ := patch_ok_iff.mp h
    show editor.revert ((Outcome.between t composed).applied t) = editor.revert t
    rw [Outcome.applied_between]
    exact revert_composed (unmarked_of_evaluate hscope heval) heval
  refine ⟨hrevert, fun others ↦ ?_, ?_⟩
  · exact agree_of_revert_eq hrevert others
  · exact patch_again h hrevert

/-- A patch in the file scope inserts a line that is not inserted again. -/
theorem file_scope_round_trip_insert :
    let editor : Editor :=
      { owner := ⟨['a'], by simp, List.forall_mem_singleton.mpr rfl⟩, style := .block
        usable := by decide, scope := .file }
    let edit : Edit :=
      { anchors := [['x']], anchors_ne_nil := by simp, anchor_ne_nil := by simp
        before := ['y'] }
    let patched := "/* + PL:a + */ y\nx".toList
    editor.patch ['x'] [edit] = .ok (.patched patched) ∧
      editor.revert patched = editor.revert ['x'] ∧
      editor.patch patched [edit] = .ok .unchanged := by
  intro editor edit patched
  have hpatch : editor.patch ['x'] [edit] = .ok (.patched patched) := by
    simp only [patched, editor, edit]
    decide +kernel
  obtain ⟨hrevert, -, hagain⟩ := file_scope_round_trip editor rfl ['x'] [edit] hpatch
  exact ⟨hpatch, hrevert, hagain⟩

end Editor

end MarkedEdits
