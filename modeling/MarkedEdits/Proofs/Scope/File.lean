import MarkedEdits.Proofs.Scope.Guarded
import MarkedEdits.Proofs.Session.Basic

/-!
# Which edits are accepted in the file scope

In the file scope an editor accepts edits when the reverted text holds no stem at all and the
matches of the edits allow all of them to be carried out. The order in which the edits are planned,
checked and rendered makes no difference to that (`Editor.patch_accepted_iff`).
-/

namespace MarkedEdits

open Text

namespace Editor

variable {editor : Editor} {t : Text} {edits : List Edit}

/-- No line of a text without stems holds one. -/
theorem not_onLine_of_stemFree (h : editor.style.StemFree t) {line : Text}
    (hline : line ∈ lines t) :
    ¬ editor.markers.onLine line = true := by
  have hpart : line <:+: t := by
    have hinfix := List.infix_of_mem_flatten hline
    rwa [flatten_lines] at hinfix
  rw [onLine_iff_exists_stem]
  rintro ⟨stem, hstem, hheld⟩
  exact h stem hstem (hheld.trans hpart)

/-- In a text without stems the guards claim nothing. -/
theorem claimsFrom_guards_of_stemFree (h : editor.style.StemFree t) (index : Nat) :
    Plan.claimsFrom t index editor.guards = [] := by
  refine List.eq_nil_iff_forall_not_mem.mpr fun claim hclaim ↦ ?_
  obtain ⟨p, hp, hline, -⟩ := exists_placed_of_claim hclaim
  exact not_onLine_of_stemFree h (line_mem_lines hp) hline

/-- In a text without stems the guards find nothing. -/
theorem matchesOf_of_stemFree (h : editor.style.StemFree t) {guard : Edit}
    (hguard : guard ∈ editor.guards) : Plan.matchesOf t guard = [] := by
  refine List.eq_nil_iff_forall_not_mem.mpr fun lines hlines ↦ ?_
  obtain ⟨k, hk⟩ := List.getElem?_of_mem hguard
  have hclaim : (k, lines) ∈ Plan.claimsFrom t 0 editor.guards :=
    Plan.mem_claimsFrom.mpr ⟨k, guard, (Nat.zero_add k).symm, hk, hlines⟩
  rw [claimsFrom_guards_of_stemFree h] at hclaim
  cases hclaim

/-- In a text without stems the guards are in nobody's way. -/
theorem acceptable_guarded_of_stemFree (h : editor.style.StemFree t) :
    Plan.Acceptable t (edits ++ editor.guards) ↔ Plan.Acceptable t edits := by
  constructor
  · exact Plan.Acceptable.of_append
  · rintro ⟨hcounts, hcompatible⟩
    refine ⟨List.forall_mem_append.mpr ⟨hcounts, fun guard hguard ↦ ?_⟩, ?_⟩
    · exact admits_of_mem_guards hguard _
    · rwa [Plan.claimsFrom_append, claimsFrom_guards_of_stemFree h, List.append_nil]

/-- In the file scope edits lead to a text when the evaluated text holds no stem and the matches of
the edits allow it. -/
theorem evaluate_accepted_iff (hscope : editor.scope = .file) :
    (∃ composed, (editor.evaluate t edits).1 = .ok composed) ↔
      editor.style.StemFree t ∧ Plan.Acceptable t edits := by
  constructor
  · rintro ⟨composed, h⟩
    have hfree := stemFree_of_evaluate hscope h
    obtain ⟨plan, hplan, hrender, -⟩ := evaluate_ok_iff.mp h
    refine ⟨hfree, (acceptable_guarded_of_stemFree hfree).mp ?_⟩
    exact (Plan.acceptable_iff editor.markers).mp ⟨plan, composed, hplan, hrender⟩
  · rintro ⟨hfree, hacceptable⟩
    obtain ⟨plan, composed, hplan, hrender⟩ := (Plan.acceptable_iff editor.markers).mpr
      ((acceptable_guarded_of_stemFree hfree).mpr hacceptable)
    refine ⟨composed, evaluate_ok_iff.mpr ⟨plan, hplan, hrender, fun _ guard hguard ↦ ?_⟩⟩
    exact matchesOf_of_stemFree hfree hguard

/-- In the file scope a patch succeeds exactly when the reverted text holds no stem, every edit has
as many matches as it allows, no two edits have matches that begin on one line, and the spans that
the matches come to do not overlap. Otherwise it fails. -/
theorem patch_accepted_iff (editor : Editor) (hscope : editor.scope = .file) (t : Text)
    (edits : List Edit) :
    let accepted := editor.style.StemFree (editor.revert t) ∧
      Plan.Acceptable (editor.revert t) edits
    ((∃ outcome, editor.patch t edits = .ok outcome) ↔ accepted) ∧
      (¬ accepted → ∃ error, editor.patch t edits = .error error) := by
  intro accepted
  have hiff : (∃ outcome, editor.patch t edits = .ok outcome) ↔ accepted := by
    constructor
    · rintro ⟨outcome, h⟩
      obtain ⟨composed, heval, -⟩ := patch_ok_iff.mp h
      exact (evaluate_accepted_iff hscope).mp ⟨composed, heval⟩
    · intro haccepted
      obtain ⟨composed, heval⟩ := (evaluate_accepted_iff hscope).mpr haccepted
      exact ⟨_, patch_ok_iff.mpr ⟨composed, heval, rfl⟩⟩
  refine ⟨hiff, fun hrefused ↦ ?_⟩
  cases hpatch : editor.patch t edits with
  | error error => exact ⟨error, rfl⟩
  | ok outcome => exact absurd (hiff.mp ⟨outcome, hpatch⟩) hrefused

/-- Two edits on different lines are accepted, and two edits on one line are not. -/
theorem patch_accepted_iff_two :
    let editor : Editor :=
      { owner := ⟨['a'], by simp, List.forall_mem_singleton.mpr rfl⟩, style := .hash
        usable := by decide, scope := .file }
    let edit (anchor : Char) : Edit :=
      { anchors := [[anchor]], anchors_ne_nil := by simp, anchor_ne_nil := by simp
        before := ['z'] }
    let t := "wx\ny".toList
    editor.scope = .file ∧
      Plan.Acceptable (editor.revert t) [edit 'x', edit 'y'] ∧
      ¬ Plan.Acceptable (editor.revert t) [edit 'x', edit 'w'] := by
  intro editor edit t
  have hpatch : editor.patch t [edit 'x', edit 'y'] =
      .ok (.patched "# + PL:a + # z\nwx\n# + PL:a + # z\ny".toList) := by
    simp only [t, editor, edit]
    decide +kernel
  have hcollision : editor.patch t [edit 'x', edit 'w'] = .error (.collision 1 0 0) := by
    simp only [t, editor, edit]
    decide +kernel
  obtain ⟨hiff, -⟩ := patch_accepted_iff editor rfl t [edit 'x', edit 'y']
  obtain ⟨hiff', -⟩ := patch_accepted_iff editor rfl t [edit 'x', edit 'w']
  obtain ⟨hfree, hacceptable⟩ := hiff.mp ⟨_, hpatch⟩
  refine ⟨rfl, hacceptable, fun hboth ↦ ?_⟩
  obtain ⟨outcome, houtcome⟩ := hiff'.mpr ⟨hfree, hboth⟩
  rw [hcollision] at houtcome
  cases houtcome

end Editor

end MarkedEdits
