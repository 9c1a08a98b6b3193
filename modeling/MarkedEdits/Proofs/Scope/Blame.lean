import MarkedEdits.Proofs.Plan.Failure
import MarkedEdits.Proofs.Scope.Span

/-!
# Which failures are put down to other namespaces

An error that names a guard is reported as an error about the markers of other namespaces, so an
evaluation fails on these or on edits of the caller (`Editor.evaluate_error_cases`). In the span
scope the markers of other namespaces are reported when an edit touches a line that holds a stem,
and also when some line of the text holds both stems: there the guards collide with each other,
wherever the edits are (`Editor.foreign_markers_exact`, `Editor.not_foreign_markers_exact_mixed`).
-/

namespace MarkedEdits

open Text

namespace Editor

variable {editor : Editor} {t : Text} {edits : List Edit}

/-- An error is put down to the markers of other namespaces when it names a guard. -/
theorem blame_eq (editor : Editor) (t : Text) (count : Nat) (error : EditError) :
    editor.blame t count error =
      if error.named.any (count ≤ ·) then editor.markers.foreignError t else error := by
  cases error <;> simp [blame, EditError.named, EditError.index?]

/-- An error that names a guard is put down to the markers of other namespaces. -/
theorem blame_of_mem {count k : Nat} {error : EditError} (h : k ∈ error.named) (hk : count ≤ k) :
    editor.blame t count error = editor.markers.foreignError t := by
  rw [blame_eq, if_pos]
  exact List.any_eq_true.mpr ⟨k, h, decide_eq_true hk⟩

/-- An error that names no guard is reported as it is. -/
theorem blame_of_lt {count : Nat} {error : EditError} (h : ∀ k ∈ error.named, k < count) :
    editor.blame t count error = error := by
  rw [blame_eq, if_neg]
  rw [List.any_eq_true]
  rintro ⟨k, hk, hle⟩
  exact Nat.not_le_of_lt (h k hk) (of_decide_eq_true hle)

/-- An error is put down to the markers of other namespaces, or it is reported as it is and names no
guard. -/
theorem blame_cases (editor : Editor) (t : Text) (count : Nat) (error : EditError) :
    editor.blame t count error = editor.markers.foreignError t ∨
      editor.blame t count error = error ∧ ∀ k ∈ error.named, k < count := by
  by_cases hnamed : ∀ k ∈ error.named, k < count
  · exact .inr ⟨blame_of_lt hnamed, hnamed⟩
  · obtain ⟨k, hk, hle⟩ : ∃ k ∈ error.named, count ≤ k := by simpa using hnamed
    exact .inl (blame_of_mem hk hle)

/-- When an evaluation fails, the markers of other namespaces are reported, or the edits and the
guards together could not be planned or rendered and the error names none but the edits. -/
theorem evaluate_error_cause {error : EditError} (h : (editor.evaluate t edits).1 = .error error) :
    error = editor.markers.foreignError t ∨
      (∀ k ∈ error.named, k < edits.length) ∧
        ((∃ failure, Plan.ofEdits t (edits ++ editor.guards) = .error failure ∧
            failure.error = error) ∨
          ∃ plan, Plan.ofEdits t (edits ++ editor.guards) = .ok plan ∧
            plan.render t (edits ++ editor.guards) editor.markers = .error error) := by
  cases hplan : Plan.ofEdits t (edits ++ editor.guards) with
  | error failure =>
      rw [evaluate_of_failure hplan, Except.error.injEq] at h
      rcases editor.blame_cases t edits.length failure.error with hforeign | ⟨hsame, hnamed⟩
      · exact .inl (h.symm.trans hforeign)
      · rw [hsame] at h
        exact .inr ⟨h ▸ hnamed, .inl ⟨failure, rfl, h⟩⟩
  | ok plan =>
      rw [evaluate_of_plan hplan] at h
      split at h
      · cases h
        exact .inl rfl
      · cases hrender : plan.render t (edits ++ editor.guards) editor.markers with
        | ok out => simp [hrender, Except.mapError] at h
        | error cause =>
            rw [hrender, Except.mapError, Except.error.injEq] at h
            rcases editor.blame_cases t edits.length cause with hforeign | ⟨hsame, hnamed⟩
            · exact .inl (h.symm.trans hforeign)
            · rw [hsame] at h
              exact .inr ⟨h ▸ hnamed, .inr ⟨plan, rfl, by rw [hrender, h]⟩⟩

/-- An evaluation fails on the markers of other namespaces or on how the edits fit, and then the
error names none but them. -/
theorem evaluate_error_cases {error : EditError} (h : (editor.evaluate t edits).1 = .error error) :
    error = editor.markers.foreignError t ∨
      error.isMisfit = true ∧ ∀ k ∈ error.named, k < edits.length := by
  refine (evaluate_error_cause h).imp_right fun hcause ↦ ⟨?_, hcause.1⟩
  rcases hcause.2 with ⟨failure, hplan, rfl⟩ | ⟨plan, hplan, hrender⟩
  · exact Plan.isMisfit_of_extend hplan
  · obtain ⟨a, -, b, -, -, -, rfl⟩ := Plan.render_error hplan hrender
    rfl

/-- When only the guards cannot be planned, the markers of other namespaces are reported. -/
theorem evaluate_of_guards_failure {plan : Plan} {failure : PlanFailure}
    (hplan : Plan.ofEdits t edits = .ok plan)
    (hfailure : Plan.ofEdits t (edits ++ editor.guards) = .error failure) :
    (editor.evaluate t edits).1 = .error (editor.markers.foreignError t) := by
  have hstop : Plan.extend t edits.length plan editor.guards = .error failure := by
    unfold Plan.ofEdits at hplan hfailure
    rw [Plan.extend_append, hplan, Nat.zero_add] at hfailure
    exact hfailure
  obtain ⟨⟨k, hk, hle⟩, -⟩ := Plan.extend_error hstop (Plan.ofEdits_accounts hplan)
    fun claim hclaim ↦ by simpa using (Plan.position_of_mem_claimsFrom hclaim).2
  rw [evaluate_of_failure hfailure, blame_of_mem hk hle]

/-- When the edits themselves cannot be planned, their error is reported. -/
theorem evaluate_of_edits_failure (editor : Editor) {failure : PlanFailure}
    (hfailure : Plan.ofEdits t edits = .error failure) :
    (editor.evaluate t edits).1 = .error failure.error ∧ failure.error.named ≠ [] := by
  have hboth := Plan.ofEdits_append_of_failure hfailure editor.guards
  obtain ⟨⟨k, hk, -⟩, hlt⟩ := Plan.extend_error hfailure Plan.accounts_nil (by simp)
  rw [Nat.zero_add] at hlt
  rw [evaluate_of_failure hboth, blame_of_lt hlt]
  exact ⟨rfl, List.ne_nil_of_mem hk⟩

/-- When edits can be planned and a line holds both stems, the markers of other namespaces are
reported. -/
theorem evaluate_of_mixed {plan : Plan} (hplan : Plan.ofEdits t edits = .ok plan) {line : Text}
    (hline : line ∈ lines t) (hmixed : editor.markers.Mixed line) :
    (editor.evaluate t edits).1 = .error (editor.markers.foreignError t) := by
  cases hboth : Plan.ofEdits t (edits ++ editor.guards) with
  | error failure => exact evaluate_of_guards_failure hplan hboth
  | ok both =>
      -- the two guards would both have a span at the line
      obtain ⟨-, hseparate⟩ := Plan.ofEdits_ok_iff.mp ⟨both, hboth⟩
      rw [Plan.claimsFrom_append, Plan.separate_append_iff, separate_guards_iff] at hseparate
      exact absurd hmixed (hseparate.2.1 line hline)

/-- When the edits avoid the lines that hold a stem and no line holds both stems, the edits can be
planned together with the guards. -/
theorem exists_guarded_plan {plan : Plan} (hplan : Plan.ofEdits t edits = .ok plan)
    (havoids : plan.Avoids t editor.markers) (hunmixed : editor.markers.Unmixed t) :
    ∃ both, Plan.ofEdits t (edits ++ editor.guards) = .ok both := by
  obtain ⟨hcounts, hseparate⟩ := Plan.ofEdits_ok_iff.mp ⟨plan, hplan⟩
  refine Plan.ofEdits_ok_iff.mpr ⟨List.forall_mem_append.mpr ⟨hcounts, fun guard hguard ↦ ?_⟩, ?_⟩
  · exact admits_of_mem_guards hguard _
  · rw [Plan.claimsFrom_append, Nat.zero_add]
    exact Plan.separate_append_of_apart (fun _ ↦ Plan.lt_of_mem_claimsFrom)
      (fun _ ↦ Plan.lt_of_mem_claimsFrom) hseparate (separate_guards_iff.mpr hunmixed)
      ((avoids_iff hplan edits.length).mp havoids)

/-- Then only spans of the edits overlap. -/
theorem owner_lt_of_overlap {plan both : Plan} (hplan : Plan.ofEdits t edits = .ok plan)
    (havoids : plan.Avoids t editor.markers) (hunmixed : editor.markers.Unmixed t)
    (hboth : Plan.ofEdits t (edits ++ editor.guards) = .ok both) {a b : PlannedSpan}
    (ha : a ∈ both.spans) (hb : b ∈ both.spans) (hstart : a.start < b.start)
    (hlt : b.start < a.stop) : a.owner < edits.length ∧ b.owner < edits.length := by
  have happart : ¬ a.Apart b := by
    have hlong := (Plan.isLineRun_span hboth hb).lt
    unfold PlannedSpan.Apart
    omega
  have hsplit : ∀ span ∈ both.spans, Plan.Planned (Plan.claimsFrom t 0 edits) span ∨
      Plan.Planned (Plan.claimsFrom t edits.length editor.guards) span := by
    intro span hspan
    have hplanned := (Plan.mem_spans_iff hboth).mp hspan
    rw [Plan.claimsFrom_append, Nat.zero_add] at hplanned
    exact (Plan.planned_append_iff Plan.ne_of_mem_claimsFrom).mp hplanned
  have hcross := (avoids_iff hplan edits.length).mp havoids
  have hown : ∀ span, Plan.Planned (Plan.claimsFrom t 0 edits) span →
      span.owner < edits.length := by
    intro span hspan
    simpa using (Plan.position_of_planned hspan).2
  rcases hsplit a ha with ha | ha <;> rcases hsplit b hb with hb | hb
  · exact ⟨hown a ha, hown b hb⟩
  · exact absurd (hcross a b ha hb) happart
  · exact absurd (hcross b a hb ha).symm happart
  · refine absurd ?_ happart
    exact (compatible_guards_iff.mpr hunmixed).apart a b ha hb
      (PlannedSpan.ne_of_start_lt hstart)

/-- The markers of other namespaces are reported only for edits that can be planned. -/
theorem exists_plan_of_foreignMarkers {count first : Nat}
    (h : (editor.evaluate t edits).1 = .error (.foreignMarkers count first)) :
    ∃ plan, Plan.ofEdits t edits = .ok plan := by
  cases hplan : Plan.ofEdits t edits with
  | ok plan => exact ⟨plan, rfl⟩
  | error failure =>
      obtain ⟨heval, hnamed⟩ := editor.evaluate_of_edits_failure hplan
      rw [h, Except.error.injEq] at heval
      rw [← heval] at hnamed
      exact absurd rfl hnamed

/-- They are not reported for edits that avoid the lines that hold a stem when no line holds both
stems, unless in the file scope a guard has found something. -/
theorem not_foreignMarkers_of_avoids {plan : Plan} (hplan : Plan.ofEdits t edits = .ok plan)
    (havoids : plan.Avoids t editor.markers) (hunmixed : editor.markers.Unmixed t)
    (hquiet : editor.scope = .file → ∀ guard ∈ editor.guards, Plan.matchesOf t guard = [])
    (count first : Nat) :
    (editor.evaluate t edits).1 ≠ .error (.foreignMarkers count first) := by
  intro h
  obtain ⟨both, hboth⟩ := exists_guarded_plan hplan havoids hunmixed
  rw [evaluate_of_plan hboth, if_neg] at h
  · cases hrender : both.render t (edits ++ editor.guards) editor.markers with
    | ok out => simp [hrender, Except.mapError] at h
    | error error =>
        obtain ⟨a, ha, b, hb, hstart, hlt, rfl⟩ := Plan.render_error hboth hrender
        obtain ⟨haowner, hbowner⟩ :=
          owner_lt_of_overlap hplan havoids hunmixed hboth ha hb hstart hlt
        have hnamed : ∀ k ∈ (EditError.overlap b.owner a.owner b.start).named,
            k < edits.length := by
          simp [EditError.named, haowner, hbowner]
        rw [hrender, Except.mapError, blame_of_lt hnamed] at h
        cases h
  · rintro ⟨hfile, guard, hguard, hfound⟩
    exact hfound (hquiet hfile guard hguard)

/-- In the span scope the markers of other namespaces are reported only when an edit touches a line
that holds a stem or when a line holds both stems. -/
theorem touches_of_foreignMarkers (hscope : editor.scope = .span) {count first : Nat}
    (h : (editor.evaluate t edits).1 = .error (.foreignMarkers count first))
    (hunmixed : editor.markers.Unmixed t) :
    ∃ plan, Plan.ofEdits t edits = .ok plan ∧ ¬ plan.Avoids t editor.markers := by
  obtain ⟨plan, hplan⟩ := exists_plan_of_foreignMarkers h
  refine ⟨plan, hplan, fun havoids ↦ ?_⟩
  exact not_foreignMarkers_of_avoids hplan havoids hunmixed (by simp [hscope]) count first h

/-- In the span scope edits that can be carried out alone and touch no line with a stem are carried
out as they are alone when no line holds both stems, and otherwise the markers of other namespaces
are reported. These are reported only when an edit touches a line with a stem or a line holds both
stems. -/
theorem foreign_markers_exact (editor : Editor) (hscope : editor.scope = .span) (t : Text)
    (edits : List Edit) :
    let base := editor.revert t
    (∀ plan composed, Plan.ofEdits base edits = .ok plan →
      plan.render base edits editor.markers = .ok composed → plan.Avoids base editor.markers →
      (editor.markers.Unmixed base → editor.patch t edits = .ok (.between t composed)) ∧
      (¬ editor.markers.Unmixed base →
        editor.patch t edits = .error (editor.markers.foreignError base))) ∧
    ∀ count first, editor.patch t edits = .error (.foreignMarkers count first) →
      (∃ plan, Plan.ofEdits base edits = .ok plan ∧ ¬ plan.Avoids base editor.markers) ∨
        ¬ editor.markers.Unmixed base := by
  intro base
  have herror : ∀ error, editor.patch t edits = .error error ↔
      (editor.evaluate base edits).1 = .error error := by
    intro error
    show (editor.evaluate base edits).1.map _ = _ ↔ _
    cases (editor.evaluate base edits).1 <;> simp [Except.map]
  refine ⟨fun plan composed hplan hrender havoids ↦ ⟨fun hunmixed ↦ ?_, fun hmixed ↦ ?_⟩,
    fun count first h ↦ ?_⟩
  · refine patch_ok_iff.mpr ⟨composed, (evaluate_span_iff hscope).mpr ?_, rfl⟩
    exact ⟨⟨plan, hplan, hrender, havoids⟩, hunmixed⟩
  · simp only [Markers.Unmixed, not_forall, not_not] at hmixed
    obtain ⟨line, hline, hboth⟩ := hmixed
    exact (herror _).mpr (evaluate_of_mixed hplan hline hboth)
  · by_cases hunmixed : editor.markers.Unmixed base
    · exact .inl (touches_of_foreignMarkers hscope ((herror _).mp h) hunmixed)
    · exact .inr hunmixed

/-- Next to a line of another namespace an edit is carried out as it is alone. -/
theorem foreign_markers_exact_beside :
    let editor : Editor :=
      { owner := ⟨['b'], by simp, List.forall_mem_singleton.mpr rfl⟩, style := .hash
        usable := by decide, scope := .span }
    let edit : Edit :=
      { anchors := [['x']], anchors_ne_nil := by simp, anchor_ne_nil := by simp
        before := ['z'] }
    let t := "# + PL:a + # y\nx\n".toList
    let plan : Plan := ⟨[⟨15, 17, 0⟩], [⟨[⟨15, 17, "x\n".toList⟩], none⟩]⟩
    let composed := "# + PL:a + # y\n# + PL:b + # z\nx\n".toList
    Plan.ofEdits (editor.revert t) [edit] = .ok plan ∧
      plan.render (editor.revert t) [edit] editor.markers = .ok composed ∧
      plan.Avoids (editor.revert t) editor.markers ∧ editor.markers.Unmixed (editor.revert t) ∧
      editor.patch t [edit] = .ok (.between t composed) := by
  intro editor edit t plan composed
  obtain ⟨hexact, -⟩ := foreign_markers_exact editor rfl t [edit]
  have hplan : Plan.ofEdits (editor.revert t) [edit] = .ok plan := by
    simp only [t, plan, editor, edit]
    decide +kernel
  have hrender : plan.render (editor.revert t) [edit] editor.markers = .ok composed := by
    simp only [t, plan, composed, editor, edit]
    decide +kernel
  have havoids : plan.Avoids (editor.revert t) editor.markers := by
    simp only [t, plan, editor]
    decide +kernel
  have hunmixed : editor.markers.Unmixed (editor.revert t) := by
    simp only [t, editor]
    decide +kernel
  exact ⟨hplan, hrender, havoids, hunmixed, (hexact plan composed hplan hrender havoids).1 hunmixed⟩

/-- An edit far from a line that holds both stems is refused, although it can be carried out alone
and touches no line that holds a stem. -/
theorem not_foreign_markers_exact_mixed :
    let editor : Editor :=
      { owner := ⟨['b'], by simp, List.forall_mem_singleton.mpr rfl⟩, style := .hash
        usable := by decide, scope := .span }
    let edit : Edit :=
      { anchors := [['x']], anchors_ne_nil := by simp, anchor_ne_nil := by simp
        before := ['z'] }
    let t := "# + PL:a + # was # - PL: y\nw\nx\n".toList
    let plan : Plan := ⟨[⟨29, 31, 0⟩], [⟨[⟨29, 31, "x\n".toList⟩], none⟩]⟩
    let composed := "# + PL:a + # was # - PL: y\nw\n# + PL:b + # z\nx\n".toList
    Plan.ofEdits (editor.revert t) [edit] = .ok plan ∧
      plan.render (editor.revert t) [edit] editor.markers = .ok composed ∧
      plan.Avoids (editor.revert t) editor.markers ∧
      editor.patch t [edit] = .error (.foreignMarkers 1 1) := by
  intro editor edit t plan composed
  simp only [t, plan, composed, editor, edit]
  refine ⟨?_, ?_, ?_, ?_⟩
  all_goals decide +kernel

end Editor

end MarkedEdits
