import MarkedEdits.Proofs.Guards

/-!
# Runs of editors

Editors work on a text in turns: each step patches the text with some edits or reverts it. A patch
that fails leaves the text as it was. What a step can make of a text is said once, in
`Step.apply_cases`. A patch depends on a text only through what the text reverts to, so texts with
one reverted text agree on all edits (`Editor.agree_of_revert_eq`).
-/

namespace MarkedEdits

open Text

namespace Outcome

/-- The outcome of coming to a composed text from the current one. -/
def between (current composed : Text) : Outcome :=
  if composed = current then unchanged else patched composed

/-- The text after the outcome, when it came from the current text. -/
def applied (current : Text) (outcome : Outcome) : Text :=
  outcome.text?.getD current

/-- Coming from a text to itself changes nothing. -/
@[simp] theorem between_self (t : Text) : between t t = unchanged :=
  if_pos rfl

/-- The text after an outcome is the composed one. -/
@[simp] theorem applied_between (current composed : Text) :
    (between current composed).applied current = composed := by
  unfold between
  split
  · next heq => exact heq.symm
  · rfl

end Outcome

/-- What an editor does in one step. -/
inductive Action where
  | patch (edits : List Edit)
  | revert
  deriving DecidableEq, Repr

/-- A step of a run. -/
structure Step where
  editor : Editor
  action : Action
  deriving DecidableEq, Repr

/-- The text after the step. -/
def Step.apply (t : Text) (step : Step) : Text :=
  match step.action with
  | .patch edits =>
      match step.editor.patch t edits with
      | .ok outcome => outcome.applied t
      | .error _ => t
  | .revert => step.editor.revert t

/-- The text after the steps, one after the other. -/
def run (original : Text) (steps : List Step) : Text :=
  steps.foldl Step.apply original

namespace Editor

variable {editor : Editor} {edits : List Edit}

/-- The edits lead to the same result from two texts: to the same error, or to one composed text. -/
inductive Agree (editor : Editor) (edits : List Edit) (a b : Text) : Prop where
  | failing (error : EditError) (left : editor.patch a edits = .error error)
      (right : editor.patch b edits = .error error)
  | composing (composed : Text) (left : editor.patch a edits = .ok (.between a composed))
      (right : editor.patch b edits = .ok (.between b composed))

/-- A patch that is carried out leads to the text that the evaluation composes. -/
theorem patch_ok_iff {t : Text} {outcome : Outcome} :
    editor.patch t edits = .ok outcome ↔
      ∃ composed, (editor.evaluate (editor.revert t) edits).1 = .ok composed ∧
        outcome = .between t composed := by
  unfold patch
  cases (editor.evaluate (editor.revert t) edits).1 with
  | error error => simp [Except.map]
  | ok composed => simp [Except.map, Outcome.between, eq_comm]

/-- A patch fails with the error of the evaluation. -/
theorem patch_error_iff {t : Text} {error : EditError} :
    editor.patch t edits = .error error ↔
      (editor.evaluate (editor.revert t) edits).1 = .error error := by
  unfold patch
  cases (editor.evaluate (editor.revert t) edits).1 with
  | error cause => simp [Except.map]
  | ok composed => simp [Except.map]

/-- Texts with one reverted text agree on all edits. -/
theorem agree_of_revert_eq {a b : Text} (h : editor.revert a = editor.revert b)
    (edits : List Edit) : editor.Agree edits a b := by
  cases heval : (editor.evaluate (editor.revert b) edits).1 with
  | error error =>
      have hfail : ∀ t, editor.revert t = editor.revert b →
          editor.patch t edits = .error error := by
        intro t ht
        rw [patch_error_iff, ht, heval]
      exact .failing error (hfail a h) (hfail b rfl)
  | ok composed =>
      have hpatch : ∀ t, editor.revert t = editor.revert b →
          editor.patch t edits = .ok (.between t composed) := by
        intro t ht
        rw [← ht] at heval
        exact patch_ok_iff.mpr ⟨composed, heval, rfl⟩
      exact .composing composed (hpatch a h) (hpatch b rfl)

/-- Edits that lead to the same result from the composed text change nothing there. -/
theorem patch_again {t : Text} {outcome : Outcome} (h : editor.patch t edits = .ok outcome)
    (hrevert : editor.revert (outcome.applied t) = editor.revert t) :
    editor.patch (outcome.applied t) edits = .ok .unchanged := by
  obtain ⟨composed, heval, rfl⟩ := patch_ok_iff.mp h
  rw [Outcome.applied_between] at hrevert ⊢
  rw [← hrevert] at heval
  exact patch_ok_iff.mpr ⟨composed, heval, (Outcome.between_self composed).symm⟩

end Editor

/-- A step leaves the text as it is, reverts it, or carries out edits on what it reverts to. -/
theorem Step.apply_cases (step : Step) (t : Text) :
    step.apply t = t ∨ step.apply t = step.editor.revert t ∨
      ∃ edits, (step.editor.evaluate (step.editor.revert t) edits).1 = .ok (step.apply t) := by
  obtain ⟨editor, action⟩ := step
  cases action with
  | revert => exact .inr (.inl rfl)
  | patch edits =>
      cases hpatch : editor.patch t edits with
      | error error =>
          left
          simp only [apply, hpatch]
      | ok outcome =>
          obtain ⟨composed, heval, rfl⟩ := Editor.patch_ok_iff.mp hpatch
          refine .inr (.inr ⟨edits, ?_⟩)
          simp only [apply, hpatch, Outcome.applied_between]
          exact heval

/-- What every step preserves holds of every text that a run reaches. -/
theorem run_induction {motive : Text → Prop} {original : Text} {steps : List Step}
    (start : motive original)
    (revert : ∀ step ∈ steps, ∀ t, motive t → motive (step.editor.revert t))
    (compose : ∀ step ∈ steps, ∀ t edits composed, motive t →
      (step.editor.evaluate (step.editor.revert t) edits).1 = .ok composed → motive composed) :
    motive (run original steps) := by
  refine List.foldlRecOn steps Step.apply start fun t ht step hstep ↦ ?_
  rcases step.apply_cases t with hsame | hrevert | ⟨edits, hcompose⟩
  · rwa [hsame]
  · rw [hrevert]
    exact revert step hstep t ht
  · exact compose step hstep t edits _ ht hcompose

end MarkedEdits
