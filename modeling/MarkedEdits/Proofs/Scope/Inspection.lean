import MarkedEdits.Proofs.Plan.Stages
import MarkedEdits.Proofs.Scope.Blame

/-!
# What an inspection tells of the edits

An inspection plans the edits together with the guards, but what it tells of the edits is what the
plan for them alone tells. When they cannot be planned, it gives the results and the error of that
failure (`Editor.inspect_of_failure`). When they can, no result has an error, and the inspection
fails on the markers of other namespaces or on two edits that overlap (`Editor.inspect_of_plan`).
-/

namespace MarkedEdits

namespace Editor

variable {editor : Editor} {t : Text} {edits : List Edit}

/-- The inspection fails where the evaluation of the reverted text does. -/
theorem inspect_error_iff {error : EditError} :
    (editor.inspect t edits).error = some error ↔
      (editor.evaluate (editor.revert t) edits).1 = .error error := by
  simp only [inspect]
  cases (editor.evaluate (editor.revert t) edits).1 <;> simp

/-- The inspection of edits that cannot be planned gives the results and the error of the failure,
and lists no lines of other namespaces. -/
theorem inspect_of_failure {failure : PlanFailure}
    (h : Plan.ofEdits (editor.revert t) edits = .error failure) :
    editor.inspect t edits = ⟨failure.results, [], some failure.error⟩ := by
  obtain ⟨k, hk, hfails⟩ := Plan.exists_failsAt h
  have hlength : failure.results.length ≤ edits.length := by
    rw [hfails.length]
    exact hk
  have herror := inspect_error_iff.mpr (editor.evaluate_of_edits_failure h).1
  have hresults : (editor.evaluate (editor.revert t) edits).2 = failure.results := by
    rw [results_of_evaluate, Plan.ofEdits_append_of_failure h]
  simp only [inspect] at herror ⊢
  rw [hresults, List.take_of_length_le hlength, List.drop_of_length_le hlength, herror]
  rfl

/-- The inspection of edits that can be planned gives the results of the plan. When it fails, it
reports the markers of other namespaces, or the overlap of two of the edits. -/
theorem inspect_of_plan {plan : Plan} (h : Plan.ofEdits (editor.revert t) edits = .ok plan) :
    (editor.inspect t edits).results = plan.results ∧
      ∀ error, (editor.inspect t edits).error = some error →
        error = editor.markers.foreignError (editor.revert t) ∨
          ∃ index other start, error = .overlap index other start ∧ index < edits.length ∧
            other < edits.length := by
  refine ⟨?_, fun error herror ↦ ?_⟩
  · show (editor.evaluate (editor.revert t) edits).2.take edits.length = plan.results
    -- the results of the edits are the first of those for a longer list
    have hfirst : ∀ more both, Plan.ofEdits (editor.revert t) (edits ++ more) = .ok both →
        both.results.take edits.length = plan.results := by
      intro more both hboth
      have htake := Plan.ofEdits_take hboth edits.length
      rw [List.take_left, h, Except.ok.injEq] at htake
      rw [htake]
    rw [results_of_evaluate]
    split
    · next failure hfailure =>
        obtain ⟨done, _, _, both, _, -, hboth, hresults, -⟩ :=
          Plan.ofEdits_error_behind h hfailure
        have hlength : edits.length ≤ both.results.length := by
          rw [Plan.ofEdits_results hboth, List.length_map, List.length_append]
          exact Nat.le_add_right _ _
        rw [hresults, List.take_append_of_le_length hlength]
        exact hfirst done both hboth
    · next both hboth => exact hfirst _ both hboth
  · have heval := inspect_error_iff.mp herror
    rcases evaluate_error_cause heval with hforeign | ⟨hnamed, ⟨failure, hfailure, -⟩ | hrender⟩
    · exact .inl hforeign
    · have hguards := evaluate_of_guards_failure h hfailure
      exact .inl (Except.error.inj (heval.symm.trans hguards))
    · obtain ⟨both, hboth, hrender⟩ := hrender
      obtain ⟨a, -, b, -, -, -, rfl⟩ := Plan.render_error hboth hrender
      exact .inr ⟨b.owner, a.owner, b.start, rfl, hnamed _ (by simp [EditError.named]),
        hnamed _ (by simp [EditError.named])⟩

end Editor

end MarkedEdits
