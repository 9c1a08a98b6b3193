import Mathlib.Logic.Equiv.Basic
import MarkedEdits.Proofs.Plan.Inert
import MarkedEdits.Proofs.Session.Basic

/-!
# The order in which edits are given

Planning goes through the edits in the order in which they are given, and each edit finds the spans
of those before it. What comes out depends on the edits alone: a permuted list has the same claims
at other positions (`Plan.Placement.mem_claims_iff`), so it is accepted when the list is
(`Plan.acceptable_of_perm`), and its plan writes the same rows (`Plan.render_perm`). The main
statement is `Editor.patch_perm_iff`.
-/

namespace MarkedEdits

open Text

/-- The span as one of the edit at another position. -/
def PlannedSpan.moved (position : Nat → Nat) (span : PlannedSpan) : PlannedSpan :=
  { span with owner := position span.owner }

/-- Spans of different edits stay apart when the edits get different positions. -/
theorem PlannedSpan.moved_injective {position : Nat → Nat} (h : Function.Injective position) :
    Function.Injective (PlannedSpan.moved position) := by
  intro a b heq
  obtain ⟨start, stop, owner⟩ := a
  obtain ⟨start', stop', owner'⟩ := b
  simp only [moved, PlannedSpan.mk.injEq] at heq ⊢
  exact ⟨heq.1, heq.2.1, h heq.2.2⟩

namespace Plan

/-- Every edit of the one list stands in the other at its new position, and no position is given
twice. -/
structure Placement (position : Nat → Nat) (edits others : List Edit) : Prop where
  injective : Function.Injective position
  getElem? : ∀ i, others[position i]? = edits[i]?

/-- The edits of a permuted list stand at new positions. -/
theorem exists_placement {edits others : List Edit} (h : edits.Perm others) :
    ∃ position, Placement position edits others := by
  induction h with
  | nil => exact ⟨id, Function.injective_id, fun _ ↦ rfl⟩
  | cons edit _ ih =>
      -- the first edit stays, and the others move among themselves
      obtain ⟨position, hinjective, hget⟩ := ih
      refine ⟨fun i ↦ i.casesOn 0 (position · + 1), fun i j hij ↦ ?_, fun i ↦ ?_⟩
      · cases i <;> cases j <;> simp_all [hinjective.eq_iff]
      · cases i with
        | zero => rfl
        | succ i => exact hget i
  | swap first second rest =>
      refine ⟨Equiv.swap 0 1, (Equiv.swap 0 1).injective, fun i ↦ ?_⟩
      match i with
      | 0 => rfl
      | 1 => rfl
      | i + 2 =>
          rw [Equiv.swap_apply_of_ne_of_ne (by omega) (by omega)]
          rfl
  | trans _ _ ih ih' =>
      obtain ⟨position, hinjective, hget⟩ := ih
      obtain ⟨position', hinjective', hget'⟩ := ih'
      exact ⟨position' ∘ position, hinjective'.comp hinjective,
        fun i ↦ (hget' (position i)).trans (hget i)⟩

namespace Placement

variable {t : Text} {edits others : List Edit} {position : Nat → Nat}
  (h : Placement position edits others)

include h

/-- An edit has the same claims at its new position. -/
theorem mem_claims_iff {i : Nat} {lines : Match} :
    (position i, lines) ∈ claimsFrom t 0 others ↔ (i, lines) ∈ claimsFrom t 0 edits := by
  have hclaims : ∀ {all : List Edit} {k : Nat}, (k, lines) ∈ claimsFrom t 0 all ↔
      ∃ edit, all[k]? = some edit ∧ lines ∈ matchesOf t edit := by
    intro all k
    rw [mem_claimsFrom]
    constructor
    · rintro ⟨j, edit, rfl, hedit, hlines⟩
      exact ⟨edit, by rwa [Nat.zero_add], hlines⟩
    · rintro ⟨edit, hedit, hlines⟩
      exact ⟨k, edit, (Nat.zero_add k).symm, hedit, hlines⟩
  rw [hclaims, hclaims, h.getElem?]

/-- The same spans are planned for the edits at their new positions. -/
theorem planned_iff {span : PlannedSpan} :
    Planned (claimsFrom t 0 others) (span.moved position) ↔
      Planned (claimsFrom t 0 edits) span := by
  constructor
  · rintro ⟨⟨lines, hclaim, hends⟩, hlargest⟩
    refine ⟨⟨lines, h.mem_claims_iff.mp hclaim, hends⟩, fun other hother hstart ↦ ?_⟩
    exact hlargest other (h.mem_claims_iff.mpr hother) hstart
  · rintro ⟨⟨lines, hclaim, hends⟩, hlargest⟩
    refine ⟨⟨lines, h.mem_claims_iff.mpr hclaim, hends⟩, fun other hother hstart ↦ ?_⟩
    exact hlargest other (h.mem_claims_iff.mp hother) hstart

/-- Edits whose claims are compatible at their new positions have compatible claims. -/
theorem compatible (hothers : Compatible (claimsFrom t 0 others)) :
    Compatible (claimsFrom t 0 edits) where
  separate := by
    rintro ⟨i, lines⟩ ha ⟨j, lines'⟩ hb hstart
    exact h.injective (hothers.separate _ (h.mem_claims_iff.mpr ha) _ (h.mem_claims_iff.mpr hb)
      hstart)
  apart := by
    intro a b ha hb hne
    have hmoved : a.moved position ≠ b.moved position :=
      fun heq ↦ hne (PlannedSpan.moved_injective h.injective heq)
    exact hothers.apart (a.moved position) (b.moved position) (h.planned_iff.mpr ha)
      (h.planned_iff.mpr hb) hmoved

/-- Moved spans make the same rows of the edits at their new positions. -/
theorem rowsFrom_moved (owner : Namespace) (cursor : Nat) (spans : List PlannedSpan) :
    rowsFrom t others owner cursor (spans.map (PlannedSpan.moved position)) =
      rowsFrom t edits owner cursor spans := by
  induction spans generalizing cursor with
  | nil => rfl
  | cons span rest ih =>
      rw [List.map_cons, rowsFrom, rowsFrom, ← ih span.stop, ← h.getElem? span.owner]
      rfl

end Placement

variable {t : Text} {edits others : List Edit}

/-- Edits that can be carried out can be carried out in any order. -/
theorem acceptable_of_perm (h : edits.Perm others) (hedits : Acceptable t edits) :
    Acceptable t others := by
  obtain ⟨position, hplacement⟩ := exists_placement h.symm
  exact ⟨fun edit hedit ↦ hedits.counts edit (h.mem_iff.mpr hedit),
    hplacement.compatible hedits.compatible⟩

/-- The plan for a permuted list has the spans of the plan, moved with their edits. -/
theorem spans_perm {plan plan' : Plan} (h : edits.Perm others) (hplan : ofEdits t edits = .ok plan)
    (hplan' : ofEdits t others = .ok plan') {position : Nat → Nat}
    (hplacement : Placement position edits others) :
    plan'.spans = plan.spans.map (PlannedSpan.moved position) := by
  have hforward : ∀ span ∈ plan.spans, span.moved position ∈ plan'.spans := fun span hspan ↦
    (mem_spans_iff hplan').mpr (hplacement.planned_iff.mpr ((mem_spans_iff hplan).mp hspan))
  refine ordered_eq_map (ofEdits_accounts hplan).ordered (ofEdits_accounts hplan').ordered
    (fun _ ↦ rfl) hforward fun span hspan ↦ ?_
  -- the span is moved back to where its edit was
  obtain ⟨back, hback⟩ := exists_placement h.symm
  have hmoved : span.moved back ∈ plan.spans :=
    (mem_spans_iff hplan).mpr (hback.planned_iff.mpr ((mem_spans_iff hplan').mp hspan))
  exact ⟨_, hmoved, rfl⟩

/-- A permuted list of edits leads to the same text, when both can be carried out. -/
theorem render_perm {plan plan' : Plan} {style : Style} {owner : Namespace} {result result' : Text}
    (h : edits.Perm others) (hplan : ofEdits t edits = .ok plan)
    (hplan' : ofEdits t others = .ok plan')
    (hrender : plan.render t edits (style.markers owner) = .ok result)
    (hrender' : plan'.render t others (style.markers owner) = .ok result') : result' = result := by
  obtain ⟨position, hplacement⟩ := exists_placement h
  rw [render_rows hrender' fun span hspan ↦ isLineRun_span hplan' hspan,
    render_rows hrender fun span hspan ↦ isLineRun_span hplan hspan,
    spans_perm h hplan hplan' hplacement, hplacement.rowsFrom_moved]

end Plan

namespace Editor

variable {editor : Editor} {t composed : Text} {edits others : List Edit}

/-- What edits lead to they lead to in any order. -/
theorem evaluate_of_perm (h : edits.Perm others)
    (heval : (editor.evaluate t edits).1 = .ok composed) :
    (editor.evaluate t others).1 = .ok composed := by
  obtain ⟨plan, hplan, hrender, hnone⟩ := evaluate_ok_iff.mp heval
  have hguarded := h.append_right editor.guards
  have hacceptable := (Plan.acceptable_iff editor.markers).mp ⟨plan, composed, hplan, hrender⟩
  obtain ⟨plan', result, hplan', hrender'⟩ := (Plan.acceptable_iff editor.markers).mpr
    (Plan.acceptable_of_perm hguarded hacceptable)
  rw [Plan.render_perm hguarded hplan hplan' hrender hrender'] at hrender'
  exact evaluate_ok_iff.mpr ⟨plan', hplan', hrender', hnone⟩

/-- Edits are carried out in one order when they are carried out in another, and then the outcome is
the same. -/
theorem patch_perm_iff (editor : Editor) (t : Text) {edits others : List Edit}
    (h : edits.Perm others) (outcome : Outcome) :
    editor.patch t edits = .ok outcome ↔ editor.patch t others = .ok outcome := by
  rw [patch_ok_iff, patch_ok_iff]
  constructor
  · rintro ⟨composed, heval, rfl⟩
    exact ⟨composed, evaluate_of_perm h heval, rfl⟩
  · rintro ⟨composed, heval, rfl⟩
    exact ⟨composed, evaluate_of_perm h.symm heval, rfl⟩

/-- Two edits of neighbouring lines, one of which disables its line, may change places. -/
theorem patch_perm_iff_two :
    let editor : Editor :=
      { owner := ⟨['a'], by simp, List.forall_mem_singleton.mpr rfl⟩, style := .hash
        usable := by decide, scope := .span }
    let first : Edit :=
      { anchors := [['x']], anchors_ne_nil := by simp, anchor_ne_nil := by simp
        replacement := .substitute ['z'] }
    let second : Edit :=
      { anchors := [['y']], anchors_ne_nil := by simp, anchor_ne_nil := by simp
        before := ['w'] }
    let patched := "# - PL:a - # x\n# + PL:a + # z\n# + PL:a + # w\ny".toList
    [first, second].Perm [second, first] ∧
      editor.patch "x\ny".toList [first, second] = .ok (.patched patched) ∧
      editor.patch "x\ny".toList [second, first] = .ok (.patched patched) := by
  intro editor first second patched
  have hperm : [first, second].Perm [second, first] := List.Perm.swap second first []
  have hpatch : editor.patch "x\ny".toList [first, second] = .ok (.patched patched) := by
    simp only [editor, first, second, patched]
    decide +kernel
  exact ⟨hperm, hpatch, (patch_perm_iff editor _ hperm _).mp hpatch⟩

end Editor

end MarkedEdits
