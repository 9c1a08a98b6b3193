import MarkedEdits.Proofs.Session.Basic
import MarkedEdits.Proofs.Stack

/-!
# Editors that share a text

When editors of several namespaces work on one text in a style that tells namespaces apart, the text
stays a sheet over the original on which every edit belongs to one of them (`Team.overlaid_run`): a
patch puts a sheet over the text of another, and the guards see to it that no marked line is
disabled again. The edits of a sheet can be taken away in any order, so the editors come apart in
any order.
-/

namespace MarkedEdits

open Text

/-- Editors of different namespaces that use one of the built-in styles. -/
structure Team where
  style : Style
  built_in : style = .block ∨ style = .hash
  members : List Editor
  same_style : ∀ editor ∈ members, editor.style = style
  distinct : (members.map (·.owner)).Nodup

namespace Team

variable {team : Team} {original : Text}

/-- Members tell the namespaces of others from their own. -/
theorem delimited (team : Team) : team.style.Delimited :=
  Style.delimited_of_built_in team.built_in

/-- The built-in styles are usable. -/
theorem usable (team : Team) : team.style.fault? = none := by
  rcases team.built_in with hblock | hhash
  · rw [hblock]
    decide
  · rw [hhash]
    decide

/-- A member that reverts takes its own edits away. -/
theorem revert_text (hfree : team.style.StemFree original) {editor : Editor}
    (hmember : editor ∈ team.members) (sheet : Sheet original) :
    editor.revert (sheet.text team.style) = (sheet.release editor.owner).text team.style := by
  have hunmarked := sheet.not_marks_written team.usable team.delimited hfree editor.owner
  rw [← team.same_style editor hmember] at hunmarked ⊢
  exact editor.revert_text sheet hunmarked

/-- The text is a sheet over the original on which members have made all edits. -/
def Overlaid (team : Team) (original t : Text) : Prop :=
  ∃ sheet : Sheet original, t = sheet.text team.style ∧
    sheet.OwnedBy (team.members.map (·.owner))

/-- The original is a sheet without edits. -/
theorem overlaid_original (team : Team) (original : Text) : team.Overlaid original original :=
  ⟨Sheet.plain original, (Sheet.text_plain _ _).symm, Sheet.ownedBy_plain _ _⟩

/-- A member that reverts leaves a sheet. -/
theorem Overlaid.revert (hfree : team.style.StemFree original) {editor : Editor}
    (hmember : editor ∈ team.members) {t : Text} (h : team.Overlaid original t) :
    team.Overlaid original (editor.revert t) := by
  obtain ⟨sheet, rfl, howned⟩ := h
  refine ⟨sheet.release editor.owner, revert_text hfree hmember sheet, ?_⟩
  intro row hrow owner howner
  exact (List.mem_filter.mp (howned.release editor.owner row hrow owner howner)).1

/-- What a member composes from a sheet is a sheet. -/
theorem Overlaid.compose {editor : Editor} (hmember : editor ∈ team.members) {t composed : Text}
    {edits : List Edit} (h : team.Overlaid original t)
    (hcompose : (editor.evaluate t edits).1 = .ok composed) : team.Overlaid original composed := by
  obtain ⟨lower, rfl, hlower⟩ := h
  obtain ⟨upper, rfl, -, hupper, hdisabled⟩ := Editor.exists_sheet_of_evaluate hcompose
  rw [team.same_style editor hmember] at hdisabled ⊢
  obtain ⟨sheet, htext, hfrom⟩ := lower.exists_over team.usable upper hdisabled
  refine ⟨sheet, htext.symm, fun row hrow owner howner ↦ ?_⟩
  -- a row of the text before keeps its owner, and a new edit is the editor's
  rcases hfrom row hrow with hbelow | ⟨habove, -⟩
  · exact hlower row hbelow owner howner
  · rw [List.mem_singleton.mp (hupper row habove owner howner)]
    exact List.mem_map_of_mem hmember

/-- Members keep the text a sheet over the original. -/
theorem overlaid_run (hfree : team.style.StemFree original) {steps : List Step}
    (hsteps : ∀ step ∈ steps, step.editor ∈ team.members) :
    team.Overlaid original (run original steps) := by
  refine run_induction (team.overlaid_original original) ?_ ?_
  · intro step hstep t ht
    exact ht.revert hfree (hsteps step hstep)
  · intro step hstep t edits composed ht hcompose
    exact (ht.revert hfree (hsteps step hstep)).compose (hsteps step hstep) hcompose

/-- Members that revert one after the other get back to the original when all edits are theirs. -/
theorem foldl_revert (hfree : team.style.StemFree original) {order : List Editor}
    (horder : ∀ editor ∈ order, editor ∈ team.members) {sheet : Sheet original}
    (howned : sheet.OwnedBy (order.map (·.owner))) :
    order.foldl (fun t editor ↦ editor.revert t) (sheet.text team.style) = original := by
  induction order generalizing sheet with
  | nil =>
      rw [Sheet.eq_plain_of_ownedBy_nil howned]
      exact Sheet.text_plain _ _
  | cons first order ih =>
      obtain ⟨hfirst, hrest⟩ := List.forall_mem_cons.mp horder
      -- with every member that reverts, one owner of edits less is left
      rw [List.foldl_cons, revert_text hfree hfirst]
      refine ih hrest fun row hrow owner howner ↦ ?_
      have hleft := List.mem_filter.mp (howned.release first.owner row hrow owner howner)
      obtain ⟨hmem, hne⟩ := hleft
      exact (List.mem_cons.mp hmem).resolve_left (by simpa using hne)

/-- However the members have worked on a text without stems, it is had back when every member
reverts once, in any order, and two members can always revert in either order. -/
theorem come_apart (team : Team) {original : Text} (hfree : team.style.StemFree original)
    {steps : List Step} (hsteps : ∀ step ∈ steps, step.editor ∈ team.members) :
    let reached := run original steps
    (∀ order : List Editor, order.Perm team.members →
        order.foldl (fun t editor ↦ editor.revert t) reached = original) ∧
      ∀ a ∈ team.members, ∀ b ∈ team.members,
        a.revert (b.revert reached) = b.revert (a.revert reached) := by
  intro reached
  obtain ⟨sheet, hsheet, howned⟩ := overlaid_run hfree hsteps
  have hreached : reached = sheet.text team.style := hsheet
  rw [hreached]
  constructor
  · intro order horder
    refine foldl_revert hfree (fun editor hmem ↦ horder.mem_iff.mp hmem) ?_
    intro row hrow owner howner
    exact (horder.map _).mem_iff.mpr (howned row hrow owner howner)
  · intro a ha b hb
    rw [revert_text hfree hb, revert_text hfree ha, revert_text hfree ha, revert_text hfree hb,
      Sheet.release_comm]

/-- Two members share a text of two lines, and the one that came first can leave first. -/
theorem come_apart_two :
    let a : Editor :=
      { owner := ⟨['a'], by simp, List.forall_mem_singleton.mpr rfl⟩, style := .hash
        usable := by decide, scope := .span }
    let b : Editor :=
      { owner := ⟨['b'], by simp, List.forall_mem_singleton.mpr rfl⟩, style := .hash
        usable := by decide, scope := .span }
    let disableX : Edit :=
      { anchors := [['x']], anchors_ne_nil := by simp, anchor_ne_nil := by simp
        replacement := .disable }
    let beforeY : Edit :=
      { anchors := [['y']], anchors_ne_nil := by simp, anchor_ne_nil := by simp
        before := ['z'] }
    let reached := run "x\ny".toList [⟨a, .patch [disableX]⟩, ⟨b, .patch [beforeY]⟩]
    reached = "# - PL:a - # x\n# + PL:a + #  \n# + PL:b + # z\ny".toList ∧
      b.revert (a.revert reached) = "x\ny".toList := by
  intro a b disableX beforeY reached
  let team : Team := ⟨.hash, .inr rfl, [a, b], by decide, by decide⟩
  have hfree : team.style.StemFree "x\ny".toList := by decide
  have hsteps : ∀ step ∈ [Step.mk a (.patch [disableX]), ⟨b, .patch [beforeY]⟩],
      step.editor ∈ team.members := by
    decide
  constructor
  · simp only [reached, a, b, disableX, beforeY]
    decide +kernel
  · exact (team.come_apart hfree hsteps).1 [a, b] (List.Perm.refl _)

end Team

end MarkedEdits
