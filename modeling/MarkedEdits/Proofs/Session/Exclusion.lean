import Mathlib.Data.List.Nodup
import MarkedEdits.Proofs.Session.Sharing

/-!
# Editors that exclude each other

In the file scope an editor evaluates no text that holds a stem (`Editor.stemFree_of_evaluate`), and
every edit of a sheet puts one into the text. So at any time at most one member of a team has edits
in the text (`Team.held_run`): until it reverts them, all others are refused.
-/

namespace MarkedEdits

open Text

/-- A text in which an owner has an edit holds a stem. -/
theorem Sheet.not_stemFree_text {original : Text} {style : Style} (hstyle : style.fault? = none)
    {sheet : Sheet original} {row : Row} (hrow : row ∈ sheet.rows) {owner : Namespace}
    (howner : row.owner? = some owner) : ¬ style.StemFree (sheet.text style) := by
  intro hfree
  have hbody : row.written style ∈ bodies (sheet.text style) := by
    rw [sheet.bodies_text hstyle]
    exact List.mem_map_of_mem hrow
  have hbare := Row.eq_bare_of_stemFree (hfree.of_mem_bodies hbody)
  rw [hbare] at howner
  cases howner

namespace Team

variable {team : Team} {original : Text}

/-- Only the holder has edits in the text, and it has some. -/
structure HeldBy (team : Team) (original t : Text) (holder : Editor) : Prop where
  member : holder ∈ team.members
  sheet : ∃ sheet : Sheet original, t = sheet.text team.style ∧ sheet.OwnedBy [holder.owner] ∧
    ∃ row ∈ sheet.rows, row.owner? = some holder.owner

/-- The text is the original, or a member holds it. -/
def Held (team : Team) (original t : Text) : Prop :=
  t = original ∨ ∃ holder, team.HeldBy original t holder

/-- Different members have different namespaces. -/
theorem owner_ne (team : Team) {a b : Editor} (ha : a ∈ team.members) (hb : b ∈ team.members)
    (hne : a ≠ b) : a.owner ≠ b.owner :=
  fun heq ↦ hne (List.inj_on_of_nodup_map team.distinct ha hb heq)

/-- Reverting the original leaves it. -/
theorem revert_original (hfree : team.style.StemFree original) {editor : Editor}
    (hmember : editor ∈ team.members) : editor.revert original = original := by
  have hrevert := revert_text hfree hmember (Sheet.plain original)
  rwa [Sheet.release_plain, Sheet.text_plain] at hrevert

namespace HeldBy

variable {holder : Editor} {t : Text}

/-- The holder reverts to the original. -/
theorem revert_holder (h : team.HeldBy original t holder) (hfree : team.style.StemFree original) :
    holder.revert t = original := by
  obtain ⟨sheet, rfl, howned, -⟩ := h.sheet
  have hnone : (sheet.release holder.owner).OwnedBy [] := by
    simpa using howned.release holder.owner
  rw [revert_text hfree h.member, Sheet.eq_plain_of_ownedBy_nil hnone, Sheet.text_plain]

/-- The other members leave the text as it is. -/
theorem revert_other (h : team.HeldBy original t holder) (hfree : team.style.StemFree original)
    {other : Editor} (hother : other ∈ team.members) (hne : other ≠ holder) :
    other.revert t = t := by
  obtain ⟨sheet, rfl, howned, -⟩ := h.sheet
  have hunedited : ∀ row ∈ sheet.rows, row.owner? ≠ some other.owner := by
    intro row hrow howner
    have hholder := List.mem_singleton.mp (howned row hrow other.owner howner)
    exact team.owner_ne hother h.member hne hholder
  rw [revert_text hfree hother, Sheet.release_of_ne hunedited]

/-- The text holds a stem. -/
theorem not_stemFree (h : team.HeldBy original t holder) : ¬ team.style.StemFree t := by
  obtain ⟨sheet, rfl, -, row, hrow, howner⟩ := h.sheet
  exact Sheet.not_stemFree_text team.usable hrow howner

/-- In the file scope the other members can evaluate no edits. -/
theorem not_evaluate_other (h : team.HeldBy original t holder)
    (hfree : team.style.StemFree original) {other : Editor} (hother : other ∈ team.members)
    (hscope : other.scope = .file) (hne : other ≠ holder) {edits : List Edit} {composed : Text} :
    (other.evaluate (other.revert t) edits).1 ≠ .ok composed := by
  intro hcompose
  have hstem := Editor.stemFree_of_evaluate hscope hcompose
  rw [h.revert_other hfree hother hne, team.same_style other hother] at hstem
  exact h.not_stemFree hstem

/-- In the file scope the other members are refused. -/
theorem patch_other (h : team.HeldBy original t holder) (hfree : team.style.StemFree original)
    {other : Editor} (hother : other ∈ team.members) (hscope : other.scope = .file)
    (hne : other ≠ holder) (edits : List Edit) : ∃ error, other.patch t edits = .error error := by
  cases hpatch : other.patch t edits with
  | error error => exact ⟨error, rfl⟩
  | ok outcome =>
      obtain ⟨composed, hcompose, -⟩ := Editor.patch_ok_iff.mp hpatch
      exact absurd hcompose (h.not_evaluate_other hfree hother hscope hne)

end HeldBy

/-- What a member composes from the original is the original or held by the member. -/
theorem held_of_compose {editor : Editor} (hmember : editor ∈ team.members) {composed : Text}
    {edits : List Edit} (hcompose : (editor.evaluate original edits).1 = .ok composed) :
    team.Held original composed := by
  obtain ⟨sheet, rfl, hrelease, howned, -⟩ := Editor.exists_sheet_of_evaluate hcompose
  -- edits that insert and disable nothing compose the original itself
  by_cases hsome : ∃ row ∈ sheet.rows, row.owner? = some editor.owner
  · rw [team.same_style editor hmember]
    exact .inr ⟨editor, hmember, sheet, rfl, howned, hsome⟩
  · have hnone : ∀ row ∈ sheet.rows, row.owner? ≠ some editor.owner :=
      fun row hrow howner ↦ hsome ⟨row, hrow, howner⟩
    left
    rw [← Sheet.release_of_ne hnone, hrelease, Sheet.text_plain]

/-- A member that reverts leaves the text held as it was or gets the original back. -/
theorem Held.revert (hfree : team.style.StemFree original) {editor : Editor}
    (hmember : editor ∈ team.members) {t : Text} (h : team.Held original t) :
    editor.revert t = original ∨ (editor.revert t = t ∧
      ∃ holder, team.HeldBy original t holder ∧ editor ≠ holder) := by
  rcases h with rfl | ⟨holder, hheld⟩
  · exact .inl (revert_original hfree hmember)
  · by_cases heq : editor = holder
    · rw [heq]
      exact .inl (hheld.revert_holder hfree)
    · exact .inr ⟨hheld.revert_other hfree hmember heq, holder, hheld, heq⟩

/-- When all members work in the file scope, one at most holds the text. -/
theorem held_run (hscopes : ∀ editor ∈ team.members, editor.scope = .file)
    (hfree : team.style.StemFree original) {steps : List Step}
    (hsteps : ∀ step ∈ steps, step.editor ∈ team.members) :
    team.Held original (run original steps) := by
  refine run_induction (.inl rfl) ?_ ?_
  · intro step hstep t ht
    rcases ht.revert hfree (hsteps step hstep) with horiginal | ⟨hsame, holder, hheld, -⟩
    · exact .inl horiginal
    · rw [hsame]
      exact .inr ⟨holder, hheld⟩
  · intro step hstep t edits composed ht hcompose
    have hmember := hsteps step hstep
    -- what is composed is composed from the original, since the others are refused
    rcases ht.revert hfree hmember with horiginal | ⟨-, holder, hheld, hne⟩
    · rw [horiginal] at hcompose
      exact held_of_compose hmember hcompose
    · exact absurd hcompose (hheld.not_evaluate_other hfree hmember (hscopes _ hmember) hne)

/-- However members in the file scope have worked on a text without stems, the text is the original,
or exactly one member reverts it to the original. Then reverting by the others changes nothing, and
none of their patches is carried out. -/
theorem mutual_exclusion (team : Team) (hscopes : ∀ editor ∈ team.members, editor.scope = .file)
    {original : Text} (hfree : team.style.StemFree original) {steps : List Step}
    (hsteps : ∀ step ∈ steps, step.editor ∈ team.members) :
    let reached := run original steps
    reached = original ∨
      ∃ holder ∈ team.members, holder.revert reached = original ∧
        ∀ other ∈ team.members, other ≠ holder →
          other.revert reached ≠ original ∧ other.revert reached = reached ∧
            ∀ edits, ∃ error, other.patch reached edits = .error error := by
  intro reached
  have hheld : team.Held original reached := held_run hscopes hfree hsteps
  rcases hheld with horiginal | ⟨holder, hholder⟩
  · exact .inl horiginal
  · refine .inr ⟨holder, hholder.member, hholder.revert_holder hfree, ?_⟩
    intro other hother hne
    have hsame := hholder.revert_other hfree hother hne
    refine ⟨?_, hsame, hholder.patch_other hfree hother (hscopes other hother) hne⟩
    intro horiginal
    apply hholder.not_stemFree
    rw [← hsame, horiginal]
    exact hfree

/-- Of two members the one that patches first holds the text, and the patch of the other is
refused. -/
theorem mutual_exclusion_two :
    let a : Editor :=
      { owner := ⟨['a'], by simp, List.forall_mem_singleton.mpr rfl⟩, style := .hash
        usable := by decide, scope := .file }
    let b : Editor :=
      { owner := ⟨['b'], by simp, List.forall_mem_singleton.mpr rfl⟩, style := .hash
        usable := by decide, scope := .file }
    let edit : Edit :=
      { anchors := [['x']], anchors_ne_nil := by simp, anchor_ne_nil := by simp
        before := ['y'] }
    let reached := run ['x'] [⟨a, .patch [edit]⟩, ⟨b, .patch [edit]⟩]
    reached = "# + PL:a + # y\nx".toList ∧
      ∃ holder ∈ [a, b], holder.revert reached = ['x'] ∧
        ∀ other ∈ [a, b], other ≠ holder →
          other.revert reached ≠ ['x'] ∧ other.revert reached = reached ∧
            ∀ edits, ∃ error, other.patch reached edits = .error error := by
  intro a b edit reached
  let team : Team := ⟨.hash, .inr rfl, [a, b], by decide, by decide⟩
  have hscopes : ∀ editor ∈ team.members, editor.scope = .file := by decide
  have hfree : team.style.StemFree ['x'] := by decide
  have hsteps : ∀ step ∈ [Step.mk a (.patch [edit]), ⟨b, .patch [edit]⟩],
      step.editor ∈ team.members := by
    decide
  have hreached : reached = "# + PL:a + # y\nx".toList := by
    simp only [reached, a, b, edit]
    decide +kernel
  have hchanged : reached ≠ ['x'] := by
    rw [hreached]
    decide
  exact ⟨hreached, (team.mutual_exclusion hscopes hfree hsteps).resolve_left hchanged⟩

end Team

end MarkedEdits
