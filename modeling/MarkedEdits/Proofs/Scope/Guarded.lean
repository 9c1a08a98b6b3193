import MarkedEdits.Proofs.Guards
import MarkedEdits.Proofs.Plan.Inert
import MarkedEdits.Proofs.Text.Placement

/-!
# Edits beside guards

The guards of an editor match the lines that hold a stem. So edits can be carried out together with
the guards when they can be carried out alone, none of their spans touches a line that holds a stem,
and no line holds both stems, for there the guards would get into each other's way
(`acceptable_guarded_iff`).
-/

namespace MarkedEdits

open Text

/-- A byte of the line lies in the span. -/
def PlannedSpan.Touches (span : PlannedSpan) (p : PlacedLine) : Prop :=
  ∃ byte, (span.start ≤ byte ∧ byte < span.stop) ∧ p.start ≤ byte ∧ byte < p.stop

/-- No span of the plan touches a line that holds a stem. -/
def Plan.Avoids (plan : Plan) (t : Text) (markers : Markers) : Prop :=
  ∀ span ∈ plan.spans, ∀ p ∈ placed t, markers.onLine p.line = true → ¬ span.Touches p

/-- The line holds the stems of both markers. -/
def Markers.Mixed (markers : Markers) (line : Text) : Prop :=
  contains markers.insertStem line = true ∧ contains markers.deleteStem line = true

/-- No line of the text holds both stems. -/
def Markers.Unmixed (markers : Markers) (t : Text) : Prop :=
  ∀ line ∈ lines t, ¬ markers.Mixed line

/-- Whether a line holds both stems is decided by searching for them. -/
instance (markers : Markers) (line : Text) : Decidable (markers.Mixed line) :=
  inferInstanceAs (Decidable (_ ∧ _))

/-- Whether a text has such a line is decided line by line. -/
instance (markers : Markers) (t : Text) : Decidable (markers.Unmixed t) :=
  inferInstanceAs (Decidable (∀ line ∈ lines t, _))

/-- A span and a line touch when the later of their starts is before the earlier of their ends. -/
theorem PlannedSpan.touches_iff_max_lt {span : PlannedSpan} {p : PlacedLine} :
    span.Touches p ↔ max span.start p.start < min span.stop p.stop := by
  constructor
  · rintro ⟨byte, hspan, hp⟩
    omega
  · intro h
    exact ⟨max span.start p.start, by omega⟩

/-- Whether a span touches a line is decided by comparing their ends. -/
instance (span : PlannedSpan) (p : PlacedLine) : Decidable (span.Touches p) :=
  decidable_of_iff _ PlannedSpan.touches_iff_max_lt.symm

/-- Whether a plan avoids the lines with a stem is decided span by span. -/
instance (plan : Plan) (t : Text) (markers : Markers) : Decidable (plan.Avoids t markers) :=
  inferInstanceAs (Decidable (∀ span ∈ plan.spans, ∀ p ∈ placed t, _ → _))

/-- A span and a line that are not empty touch when neither ends before the other begins. -/
theorem PlannedSpan.touches_iff {span : PlannedSpan} {p : PlacedLine}
    (hspan : span.start < span.stop) (hp : p.start < p.stop) :
    span.Touches p ↔ span.start < p.stop ∧ p.start < span.stop := by
  rw [touches_iff_max_lt]
  omega

/-- The line holds one of the stems. -/
theorem Markers.onLine_iff {markers : Markers} {line : Text} :
    markers.onLine line = true ↔
      contains markers.insertStem line = true ∨ contains markers.deleteStem line = true := by
  rw [onLine, Bool.or_eq_true]

/-- An edit with one anchor that holds no newline matches single lines that hold the anchor. -/
theorem Plan.exists_placed_of_single {t anchor : Text} {edit : Edit}
    (hanchors : edit.anchors = [anchor]) (hline : '\n' ∉ anchor) {lines : Match}
    (h : lines ∈ Plan.matchesOf t edit) :
    ∃ p ∈ placed t, contains anchor p.line = true ∧ lines.start = p.start ∧
      lines.stop = p.stop := by
  have hne : anchor ≠ [] := edit.anchor_ne_nil anchor (by simp [hanchors])
  obtain ⟨span, hspan, rfl⟩ := List.mem_map.mp h
  rw [hanchors] at hspan
  obtain ⟨hocc, hstop⟩ := Anchor.occursAt_of_mem_findAll hne hspan
  obtain ⟨p, hp, hfirst, hlast, hpart⟩ := hocc.exists_placed hline hne
  refine ⟨p, hp, contains_iff.mpr hpart, hfirst.symm, ?_⟩
  show lineEnd t span.stop = p.stop
  rw [hstop, hlast]

namespace Editor

variable {editor : Editor} {t : Text}

/-- A line holds a stem when one of the stems is a part of it. -/
theorem onLine_iff_exists_stem {line : Text} :
    editor.markers.onLine line = true ↔ ∃ stem ∈ editor.style.stems, stem <:+: line := by
  rw [Markers.onLine_iff, contains_iff, contains_iff]
  constructor
  · rintro (h | h)
    · exact ⟨_, List.mem_cons_self, h⟩
    · exact ⟨_, List.mem_cons_of_mem _ List.mem_cons_self, h⟩
  · rintro ⟨stem, hstem, h⟩
    simp only [Style.stems, List.mem_cons, List.not_mem_nil, or_false] at hstem
    rcases hstem with rfl | rfl
    · exact .inl h
    · exact .inr h

/-! ## What guards match -/

section Guard

variable {stem : Text} (hne : stem ≠ []) (hstem : '\n' ∉ stem)

include hstem

/-- What a guard matches is a line that holds the stem. -/
theorem exists_placed_of_match {lines : Match} (h : lines ∈ Plan.matchesOf t (guardFor stem hne)) :
    ∃ p ∈ placed t, contains stem p.line = true ∧ lines.start = p.start ∧ lines.stop = p.stop :=
  Plan.exists_placed_of_single rfl hstem h

/-- A line that holds the stem is matched by the guard. -/
theorem exists_match_of_placed {p : PlacedLine} (hp : p ∈ placed t)
    (hpart : contains stem p.line = true) :
    ∃ lines ∈ Plan.matchesOf t (guardFor stem hne),
      lines.start = p.start ∧ lines.stop = p.stop := by
  obtain ⟨j, hocc, hfirst, -⟩ :=
    exists_occursAt_of_placed hp hstem hne (contains_iff.mp hpart)
  obtain ⟨lines, hlines, hstart⟩ : ∃ lines ∈ Plan.matchesOf t (guardFor stem hne),
      lines.start = lineStart t j := by
    obtain ⟨span, hspan, hstart⟩ := Anchor.exists_match_in_line hne hstem hocc
    exact ⟨_, List.mem_map_of_mem hspan, hstart⟩
  obtain ⟨q, hq, -, hqstart, hqstop⟩ := exists_placed_of_match hne hstem hlines
  -- the match begins where the line begins, so it is that line
  have hbegin : q.start = p.start := hqstart.symm.trans (hstart.trans hfirst)
  rw [eq_of_placed_start hq hp hbegin] at hqstart hqstop
  exact ⟨lines, hlines, hqstart, hqstop⟩

end Guard

/-- The claims of the guards are what they match. -/
theorem claimsFrom_guards (editor : Editor) (t : Text) (index : Nat) :
    Plan.claimsFrom t index editor.guards =
      (Plan.matchesOf t (guardFor editor.markers.insertStem editor.stems_ne_nil.1)).map
          (index, ·) ++
        (Plan.matchesOf t (guardFor editor.markers.deleteStem editor.stems_ne_nil.2)).map
          (index + 1, ·) := by
  simp [guards, Plan.claimsFrom]

/-- The stems hold no newline. -/
theorem newline_not_mem_stems (editor : Editor) :
    '\n' ∉ editor.markers.insertStem ∧ '\n' ∉ editor.markers.deleteStem := by
  have hstems : ∀ stem ∈ editor.style.stems, '\n' ∉ stem :=
    fun stem hstem ↦ (Style.stem_spec editor.usable hstem).2
  exact ⟨hstems _ List.mem_cons_self, hstems _ (List.mem_cons_of_mem _ List.mem_cons_self)⟩

/-- The guards claim lines that hold a stem. -/
theorem exists_placed_of_claim {index : Nat} {claim : Nat × Match}
    (h : claim ∈ Plan.claimsFrom t index editor.guards) :
    ∃ p ∈ placed t, editor.markers.onLine p.line = true ∧ claim.2.start = p.start ∧
      claim.2.stop = p.stop := by
  rw [claimsFrom_guards, List.mem_append] at h
  rcases h with h | h
  · obtain ⟨lines, hlines, rfl⟩ := List.mem_map.mp h
    obtain ⟨p, hp, hpart, hends⟩ :=
      exists_placed_of_match _ editor.newline_not_mem_stems.1 hlines
    exact ⟨p, hp, Markers.onLine_iff.mpr (.inl hpart), hends⟩
  · obtain ⟨lines, hlines, rfl⟩ := List.mem_map.mp h
    obtain ⟨p, hp, hpart, hends⟩ :=
      exists_placed_of_match _ editor.newline_not_mem_stems.2 hlines
    exact ⟨p, hp, Markers.onLine_iff.mpr (.inr hpart), hends⟩

/-- Every line that holds a stem is claimed by a guard. -/
theorem exists_claim_of_placed (index : Nat) {p : PlacedLine} (hp : p ∈ placed t)
    (hline : editor.markers.onLine p.line = true) :
    ∃ claim ∈ Plan.claimsFrom t index editor.guards, claim.2.start = p.start ∧
      claim.2.stop = p.stop := by
  rw [claimsFrom_guards]
  rcases Markers.onLine_iff.mp hline with hpart | hpart
  · obtain ⟨lines, hlines, hends⟩ := exists_match_of_placed editor.stems_ne_nil.1
      editor.newline_not_mem_stems.1 hp hpart
    exact ⟨_, List.mem_append_left _ (List.mem_map_of_mem hlines), hends⟩
  · obtain ⟨lines, hlines, hends⟩ := exists_match_of_placed editor.stems_ne_nil.2
      editor.newline_not_mem_stems.2 hp hpart
    exact ⟨_, List.mem_append_right _ (List.mem_map_of_mem hlines), hends⟩

/-- The guards have a claim with a common start only on a line that holds both stems. -/
theorem separate_guards_iff {index : Nat} :
    Plan.Separate (Plan.claimsFrom t index editor.guards) ↔ editor.markers.Unmixed t := by
  rw [claimsFrom_guards, Plan.separate_append_iff]
  constructor
  · rintro ⟨-, -, hmixed⟩ line hline ⟨hinsert, hdelete⟩
    obtain ⟨p, hp, rfl⟩ := exists_placed_of_mem_lines hline
    obtain ⟨first, hfirst, hstart, -⟩ := exists_match_of_placed editor.stems_ne_nil.1
      editor.newline_not_mem_stems.1 hp hinsert
    obtain ⟨second, hsecond, hstart', -⟩ := exists_match_of_placed editor.stems_ne_nil.2
      editor.newline_not_mem_stems.2 hp hdelete
    have hsame := hmixed _ (List.mem_map_of_mem hfirst) _ (List.mem_map_of_mem hsecond)
      (hstart.trans hstart'.symm)
    exact absurd hsame (Nat.ne_of_lt (Nat.lt_succ_self index))
  · intro hunmixed
    refine ⟨Plan.separate_map _ _, Plan.separate_map _ _, fun a ha b hb hstart ↦ ?_⟩
    obtain ⟨first, hfirst, rfl⟩ := List.mem_map.mp ha
    obtain ⟨second, hsecond, rfl⟩ := List.mem_map.mp hb
    obtain ⟨p, hp, hinsert, hpstart, -⟩ :=
      exists_placed_of_match _ editor.newline_not_mem_stems.1 hfirst
    obtain ⟨q, hq, hdelete, hqstart, -⟩ :=
      exists_placed_of_match _ editor.newline_not_mem_stems.2 hsecond
    have hsame : p = q := eq_of_placed_start hp hq (hpstart.symm.trans (hstart.trans hqstart))
    rw [← hsame] at hdelete
    exact absurd ⟨hinsert, hdelete⟩ (hunmixed p.line (line_mem_lines hp))

/-- A claim of a guard is a span that it plans. -/
theorem planned_of_claim {index : Nat} {claim : Nat × Match}
    (h : claim ∈ Plan.claimsFrom t index editor.guards) :
    Plan.Planned (Plan.claimsFrom t index editor.guards)
      ⟨claim.2.start, claim.2.stop, claim.1⟩ where
  reached := ⟨claim.2, h, rfl, rfl⟩
  largest := by
    intro lines hother hstart
    obtain ⟨p, hp, -, hpstart, hpstop⟩ := exists_placed_of_claim h
    obtain ⟨q, hq, -, hqstart, hqstop⟩ := exists_placed_of_claim hother
    have hsame : q = p := eq_of_placed_start hq hp (hqstart.symm.trans (hstart.trans hpstart))
    show lines.stop ≤ claim.2.stop
    rw [hqstop, hpstop, hsame]

/-! ## Edits and guards together -/

variable {edits : List Edit}

/-- A plan avoids the lines that hold a stem when its spans are apart from those of the guards. -/
theorem avoids_iff {plan : Plan} (hplan : Plan.ofEdits t edits = .ok plan) (index : Nat) :
    plan.Avoids t editor.markers ↔ ∀ a b, Plan.Planned (Plan.claimsFrom t 0 edits) a →
      Plan.Planned (Plan.claimsFrom t index editor.guards) b → a.Apart b := by
  have htouches : ∀ a ∈ plan.spans, ∀ p ∈ placed t, ∀ b : PlannedSpan, b.start = p.start →
      b.stop = p.stop → (¬ a.Touches p ↔ a.Apart b) := by
    intro a ha p hp b hstart hstop
    rw [PlannedSpan.touches_iff (Plan.isLineRun_span hplan ha).lt (start_lt_stop hp),
      PlannedSpan.Apart, hstart, hstop, not_and_or, Nat.not_lt, Nat.not_lt, or_comm]
  constructor
  · intro h a b ha hb
    obtain ⟨lines, hclaim, hstart, hstop⟩ := hb.reached
    obtain ⟨p, hp, hline, hpstart, hpstop⟩ := exists_placed_of_claim hclaim
    have ha' := (Plan.mem_spans_iff hplan).mpr ha
    exact (htouches a ha' p hp b (hstart.symm.trans hpstart) (hstop.symm.trans hpstop)).mp
      (h a ha' p hp hline)
  · intro h a ha p hp hline
    obtain ⟨claim, hclaim, hstart, hstop⟩ := exists_claim_of_placed index hp hline
    have ha' := (Plan.mem_spans_iff hplan).mp ha
    exact (htouches a ha p hp _ hstart hstop).mpr (h a _ ha' (planned_of_claim hclaim))

/-- The guards are not in each other's way when no line holds both stems. -/
theorem compatible_guards_iff {index : Nat} :
    Plan.Compatible (Plan.claimsFrom t index editor.guards) ↔ editor.markers.Unmixed t := by
  constructor
  · exact fun h ↦ separate_guards_iff.mp h.separate
  · intro hunmixed
    have hseparate : Plan.Separate (Plan.claimsFrom t index editor.guards) :=
      separate_guards_iff.mpr hunmixed
    refine ⟨hseparate, fun a b ha hb hne ↦ ?_⟩
    obtain ⟨first, hfirst, hstart, hstop⟩ := ha.reached
    obtain ⟨second, hsecond, hstart', hstop'⟩ := hb.reached
    obtain ⟨p, hp, -, hpstart, hpstop⟩ := exists_placed_of_claim hfirst
    obtain ⟨q, hq, -, hqstart, hqstop⟩ := exists_placed_of_claim hsecond
    simp only at hpstart hpstop hqstart hqstop
    rcases placed_apart hp hq with rfl | hle | hle
    · -- spans on one line are of one guard, so they are the same
      have hsame := hseparate _ hfirst _ hsecond (hpstart.trans hqstart.symm)
      refine absurd ?_ hne
      obtain ⟨start, stop, owner⟩ := a
      obtain ⟨start', stop', owner'⟩ := b
      simp only [PlannedSpan.mk.injEq] at *
      omega
    · left
      omega
    · right
      omega

/-- A guard may have none or several matches. -/
theorem any_count_of_mem_guards {guard : Edit} (h : guard ∈ editor.guards) :
    guard.allowMultiple = true ∧ guard.allowZero = true := by
  simp only [guards, List.mem_cons, List.not_mem_nil, or_false] at h
  rcases h with rfl | rfl <;> exact ⟨rfl, rfl⟩

/-- A guard may have any number of matches. -/
theorem admits_of_mem_guards {guard : Edit} (h : guard ∈ editor.guards) (count : Nat) :
    guard.Admits count :=
  ⟨.inr (any_count_of_mem_guards h).1, .inr (any_count_of_mem_guards h).2⟩

/-- A guard changes nothing. -/
theorem inert_of_mem_guards {guard : Edit} (h : guard ∈ editor.guards) : guard.Inert := by
  simp only [guards, List.mem_cons, List.not_mem_nil, or_false] at h
  rcases h with rfl | rfl <;> exact ⟨rfl, rfl, rfl⟩

/-- What edits lead to beside the guards they lead to alone. -/
theorem exists_render_of_evaluate {composed : Text}
    (h : (editor.evaluate t edits).1 = .ok composed) :
    ∃ plan, Plan.ofEdits t edits = .ok plan ∧
      plan.render t edits editor.markers = .ok composed := by
  obtain ⟨both, hboth, hrender, -⟩ := evaluate_ok_iff.mp h
  have hacceptable := (Plan.acceptable_iff editor.markers).mp ⟨both, composed, hboth, hrender⟩
  obtain ⟨plan, result, hplan, hown⟩ :=
    (Plan.acceptable_iff editor.markers).mpr hacceptable.of_append
  rw [Plan.render_append_inert (fun _ ↦ inert_of_mem_guards) hplan hboth hown hrender]
  exact ⟨plan, hplan, hown⟩

/-- Edits can be carried out together with the guards when they can be carried out alone, avoid the
lines that hold a stem, and no line holds both stems. -/
theorem acceptable_guarded_iff {plan : Plan} (hplan : Plan.ofEdits t edits = .ok plan) :
    Plan.Acceptable t (edits ++ editor.guards) ↔
      Plan.Acceptable t edits ∧ plan.Avoids t editor.markers ∧ editor.markers.Unmixed t := by
  have hcompatible : Plan.Compatible (Plan.claimsFrom t 0 (edits ++ editor.guards)) ↔
      Plan.Compatible (Plan.claimsFrom t 0 edits) ∧
        editor.markers.Unmixed t ∧ plan.Avoids t editor.markers := by
    rw [Plan.compatible_claimsFrom_append_iff, compatible_guards_iff,
      avoids_iff hplan edits.length]
  constructor
  · intro h
    obtain ⟨-, hunmixed, havoids⟩ := hcompatible.mp h.compatible
    exact ⟨h.of_append, havoids, hunmixed⟩
  · rintro ⟨⟨hcounts, hown⟩, havoids, hunmixed⟩
    refine ⟨List.forall_mem_append.mpr ⟨hcounts, fun guard hguard ↦ ?_⟩,
      hcompatible.mpr ⟨hown, hunmixed, havoids⟩⟩
    exact admits_of_mem_guards hguard _

end Editor

end MarkedEdits
