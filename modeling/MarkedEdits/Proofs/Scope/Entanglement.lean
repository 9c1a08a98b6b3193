import MarkedEdits.Proofs.Scope.Blame

/-!
# Edits that get in their own way

Matches of one edit have no byte in common as they are found, but they are widened to whole lines,
and a later match may then begin on a line that an earlier one reaches into. Only matches that begin
on the same line are joined, so such an edit overlaps with itself. Read `Editor.conflicts_named`
first: all collisions are between two edits, and so are all overlaps but those of an edit that is
entangled in this way. An edit whose only anchor stays within a line never is.
-/

namespace MarkedEdits

open Text

/-- The edit is in its own way at the offset: a match of it begins there, and an earlier one goes on
behind it. -/
structure Edit.EntangledAt (edit : Edit) (t : Text) (start : Nat) : Prop where
  begins : ∃ lines ∈ Plan.matchesOf t edit, lines.start = start
  reached : ∃ lines ∈ Plan.matchesOf t edit, lines.start < start ∧ start < lines.stop

/-- The edit is in its own way somewhere in the text. -/
def Edit.Entangled (edit : Edit) (t : Text) : Prop :=
  ∃ start, edit.EntangledAt t start

/-- An error about two edits does not name one edit twice, unless that edit is in its own way where
the error says. -/
def EditError.Conflict (t : Text) (edits : List Edit) : EditError → Prop
  | collision index other _ => index ≠ other
  | overlap index other start =>
      index = other → ∃ edit, edits[index]? = some edit ∧ edit.EntangledAt t start
  | noMatch _ _ | multipleMatches _ _ | foreignMarkers _ _ | invalidEdit _ _
  | invalidNamespace _ _ | invalidStyle _ | unwritten _ _ => True

variable {t : Text} {edits : List Edit}

/-- Whether an error is about two edits depends on the edits that it names. -/
theorem EditError.Conflict.of_append {more : List Edit} {error : EditError}
    (h : error.Conflict t (edits ++ more)) (hnamed : ∀ k ∈ error.named, k < edits.length) :
    error.Conflict t edits := by
  cases error with
  | overlap index other start =>
      intro hsame
      obtain ⟨edit, hedit, hentangled⟩ := h hsame
      rw [List.getElem?_append_left (hnamed index List.mem_cons_self)] at hedit
      exact ⟨edit, hedit, hentangled⟩
  | collision index other start => exact h
  | _ => trivial

/-- What an edit with one anchor that holds no newline matches are whole lines, so it is not in its
own way. -/
theorem Edit.not_entangled_of_single {edit : Edit} {anchor : Text}
    (hanchors : edit.anchors = [anchor]) (hline : '\n' ∉ anchor) : ¬ edit.Entangled t := by
  rintro ⟨start, ⟨b, hb, rfl⟩, a, ha, hlt, hreach⟩
  obtain ⟨p, hp, -, hpstart, hpstop⟩ := Plan.exists_placed_of_single hanchors hline ha
  obtain ⟨q, hq, -, hqstart, -⟩ := Plan.exists_placed_of_single hanchors hline hb
  have hlong := start_lt_stop hq
  have hsame : p = q := eq_of_placed hp hq (i := q.start) (by omega) (by omega)
  subst hsame
  omega

namespace Plan

variable {plan : Plan}

/-- An edit is in its own way where one of its spans begins within another. -/
theorem entangledAt_iff (hplan : ofEdits t edits = .ok plan) {i start : Nat} {edit : Edit}
    (hedit : edits[i]? = some edit) :
    edit.EntangledAt t start ↔ ∃ a ∈ plan.spans, ∃ b ∈ plan.spans, a.owner = i ∧ b.owner = i ∧
      a.start < start ∧ b.start = start ∧ start < a.stop := by
  constructor
  · rintro ⟨⟨b, hb, rfl⟩, a, ha, hlt, hreach⟩
    obtain ⟨first, hfirst, howner, hstart, hle⟩ := exists_span_of_match hplan hedit ha
    obtain ⟨second, hsecond, howner', hstart', -⟩ := exists_span_of_match hplan hedit hb
    refine ⟨first, hfirst, second, hsecond, howner, howner', ?_, hstart', ?_⟩ <;> omega
  · rintro ⟨a, ha, b, hb, howner, howner', hlt, rfl, hreach⟩
    have hmatch : ∀ span ∈ plan.spans, span.owner = i →
        ∃ lines ∈ matchesOf t edit, lines.start = span.start ∧ lines.stop = span.stop := by
      intro span hspan hown
      obtain ⟨edit', lines, hedit', hlines, hends⟩ := exists_match_of_span hplan hspan
      rw [hown, hedit, Option.some.injEq] at hedit'
      exact ⟨lines, hedit' ▸ hlines, hends⟩
    obtain ⟨first, hfirst, hstart, hstop⟩ := hmatch a ha howner
    obtain ⟨second, hsecond, hstart', -⟩ := hmatch b hb howner'
    exact ⟨⟨second, hsecond, hstart'⟩, first, hfirst, by omega, by omega⟩

/-- When edits cannot be planned, the error is not about one edit twice. -/
theorem conflict_of_failure {failure : PlanFailure} (h : ofEdits t edits = .error failure) :
    failure.error.Conflict t edits := by
  obtain ⟨_, _, _, _, _, -, -, hstop, -⟩ := extend_error_split h
  rcases claimAll_error_cases hstop with ⟨_, herror⟩ | ⟨_, herror⟩ | ⟨_, _, herror, hne, -⟩
  · rw [herror]
    trivial
  · rw [herror]
    trivial
  · rw [herror]
    exact hne.symm

/-- When a plan cannot be rendered, the error is about two edits or about one that is in its own
way. -/
theorem conflict_of_render {markers : Markers} {error : EditError}
    (hplan : ofEdits t edits = .ok plan) (h : plan.render t edits markers = .error error) :
    error.Conflict t edits := by
  obtain ⟨a, ha, b, hb, hstart, hlt, rfl⟩ := render_error hplan h
  intro hsame
  obtain ⟨edit, hedit⟩ := exists_edit_of_span hplan hb
  exact ⟨edit, hedit, (entangledAt_iff hplan hedit).mpr
    ⟨a, ha, b, hb, hsame.symm, rfl, hstart, rfl, hlt⟩⟩

/-- A plan for an edit that is in its own way cannot be rendered. -/
theorem not_render_of_entangled {markers : Markers} (hplan : ofEdits t edits = .ok plan)
    {edit : Edit} (hedit : edit ∈ edits) (h : edit.Entangled t) :
    ¬ ∃ result, plan.render t edits markers = .ok result := by
  obtain ⟨i, hi⟩ := List.getElem?_of_mem hedit
  obtain ⟨start, hat⟩ := h
  obtain ⟨a, ha, b, hb, -, -, hlt, rfl, hreach⟩ := (entangledAt_iff hplan hi).mp hat
  rw [render_ok_iff markers hplan, fits_spans_iff hplan]
  intro happart
  have hlong := (isLineRun_span hplan hb).lt
  rcases happart a ha b hb (PlannedSpan.ne_of_start_lt hlt) with h | h <;> omega

/-- An edit alone that may match many times and matches at all is planned, and the plan is rendered
unless the edit is in its own way. -/
theorem exists_plan_of_alone {edit : Edit} (hmultiple : edit.allowMultiple = true)
    (hfound : matchesOf t edit ≠ []) (markers : Markers) :
    ∃ plan, ofEdits t [edit] = .ok plan ∧
      ((∃ result, plan.render t [edit] markers = .ok result) ↔ ¬ edit.Entangled t) := by
  have hadmits : edit.Admits (matchesOf t edit).length :=
    ⟨.inr hmultiple, .inl (List.length_pos_iff.mpr hfound)⟩
  have hseparate : Separate (claimsFrom t 0 [edit]) := by
    simpa [claimsFrom] using separate_map 0 (matchesOf t edit)
  obtain ⟨plan, hplan⟩ := ofEdits_ok_iff.mpr ⟨List.forall_mem_singleton.mpr hadmits, hseparate⟩
  refine ⟨plan, hplan, fun hok hentangled ↦ ?_, fun hfree ↦ ?_⟩
  · exact not_render_of_entangled hplan (List.mem_singleton_self edit) hentangled hok
  · cases hrender : plan.render t [edit] markers with
    | ok result => exact ⟨result, rfl⟩
    | error error =>
        -- both spans of the overlap are of the only edit
        obtain ⟨a, ha, b, hb, hstart, hlt, -⟩ := render_error hplan hrender
        have howner : ∀ span ∈ plan.spans, span.owner = 0 := by
          intro span hspan
          obtain ⟨edit', hedit'⟩ := exists_edit_of_span hplan hspan
          have hshort := (List.getElem?_eq_some_iff.mp hedit').1
          simpa using hshort
        exact absurd ⟨b.start, (entangledAt_iff hplan rfl).mpr
          ⟨a, ha, b, hb, howner a ha, howner b hb, hstart, rfl, hlt⟩⟩ hfree

end Plan

namespace Editor

/-- When a patch fails, the error is about two edits or about one that is in its own way. -/
theorem conflict_of_patch {editor : Editor} {original : Text} {error : EditError}
    (h : editor.patch original edits = .error error) :
    error.Conflict (editor.revert original) edits := by
  rcases evaluate_error_cause (patch_error_iff.mp h) with
    rfl | ⟨hnamed, ⟨failure, hplan, rfl⟩ | ⟨plan, hplan, hrender⟩⟩
  · trivial
  · exact (Plan.conflict_of_failure hplan).of_append hnamed
  · exact (Plan.conflict_of_render hplan hrender).of_append hnamed

/-- Collisions name two edits, and so do overlaps unless they are about an edit that is in its own
way, whether the edits are planned, the plan is rendered or an editor carries the edits out. An edit
that is in its own way is never rendered. An edit alone that may match many times and does match is
carried out exactly when it is not in its own way, as is the case for edits with one anchor that
holds no newline. -/
theorem conflicts_named (t : Text) (edits : List Edit) (markers : Markers) :
    (∀ failure, Plan.ofEdits t edits = .error failure → failure.error.Conflict t edits) ∧
    (∀ plan, Plan.ofEdits t edits = .ok plan →
      (∀ error, plan.render t edits markers = .error error → error.Conflict t edits) ∧
      ∀ edit ∈ edits, edit.Entangled t → ¬ ∃ result, plan.render t edits markers = .ok result) ∧
    (∀ (editor : Editor) (original : Text) (error : EditError), editor.revert original = t →
      editor.patch original edits = .error error → error.Conflict t edits) ∧
    (∀ edit : Edit, edit.allowMultiple = true → Plan.matchesOf t edit ≠ [] →
      ∃ plan, Plan.ofEdits t [edit] = .ok plan ∧
        ((∃ result, plan.render t [edit] markers = .ok result) ↔ ¬ edit.Entangled t)) ∧
    ∀ (edit : Edit) (anchor : Text), edit.anchors = [anchor] → '\n' ∉ anchor →
      ¬ edit.Entangled t := by
  refine ⟨fun _ ↦ Plan.conflict_of_failure, fun plan hplan ↦ ⟨?_, ?_⟩, ?_, ?_, ?_⟩
  · exact fun error ↦ Plan.conflict_of_render hplan
  · exact fun edit ↦ Plan.not_render_of_entangled hplan
  · rintro editor original error rfl h
    exact conflict_of_patch h
  · exact fun edit hmultiple hfound ↦ Plan.exists_plan_of_alone hmultiple hfound markers
  · exact fun edit anchor ↦ Edit.not_entangled_of_single

/-- An edit that matches twice on one line and once on the next is carried out. -/
theorem conflicts_named_lines :
    let edit : Edit :=
      { anchors := [['x']], anchors_ne_nil := by simp, anchor_ne_nil := by simp
        before := ['z'], allowMultiple := true }
    let t := "x x\nx\n".toList
    edit.allowMultiple = true ∧ Plan.matchesOf t edit ≠ [] ∧ ¬ edit.Entangled t ∧
      ∃ plan, Plan.ofEdits t [edit] = .ok plan ∧
        ∃ result, plan.render t [edit] (Style.hash.markers
          ⟨['a'], by simp, List.forall_mem_singleton.mpr rfl⟩) = .ok result := by
  intro edit t
  obtain ⟨-, -, -, halone, hsingle⟩ := conflicts_named t [edit] (Style.hash.markers
    ⟨['a'], by simp, List.forall_mem_singleton.mpr rfl⟩)
  have hfound : Plan.matchesOf t edit ≠ [] := by
    simp only [t, edit]
    decide +kernel
  have hfree : ¬ edit.Entangled t := hsingle edit ['x'] rfl (by decide)
  obtain ⟨plan, hplan, hrender⟩ := halone edit rfl hfound
  exact ⟨rfl, hfound, hfree, plan, hplan, hrender.mpr hfree⟩

/-- The match of a line with its newline goes on to the next line, where the next match begins. The
edit is planned, and then it is reported to overlap with itself. -/
theorem not_conflicts_named_newline :
    let editor : Editor :=
      { owner := ⟨['a'], by simp, List.forall_mem_singleton.mpr rfl⟩, style := .hash
        usable := by decide }
    let edit : Edit :=
      { anchors := [['a', '\n']], anchors_ne_nil := by simp, anchor_ne_nil := by simp
        allowMultiple := true }
    let t := "a\na\n".toList
    let plan : Plan := ⟨[⟨0, 4, 0⟩, ⟨2, 4, 0⟩], [⟨[⟨0, 4, t⟩, ⟨2, 4, "a\n".toList⟩], none⟩]⟩
    editor.revert t = t ∧ edit.allowMultiple = true ∧ Plan.matchesOf t edit ≠ [] ∧
      Plan.ofEdits t [edit] = .ok plan ∧
      plan.render t [edit] editor.markers = .error (.overlap 0 0 2) ∧
      editor.patch t [edit] = .error (.overlap 0 0 2) := by
  intro editor edit t plan
  simp only [t, plan, editor, edit]
  refine ⟨?_, trivial, ?_, ?_, ?_, ?_⟩
  all_goals decide +kernel

end Editor

end MarkedEdits
