import Mathlib.Data.List.Flatten
import Mathlib.Logic.Function.Iterate
import MarkedEdits.Proofs.Beneath
import MarkedEdits.Proofs.Scope.Layers

/-!
# Reverting until nothing is left to revert

One revert takes one layer of markers off a text. It leaves exactly the unmarked texts as they are,
and of any other text it leaves a proper part (`Editor.revert_sublist`, `Editor.size_revert_lt`). So
reverting again and again comes to an unmarked text (`Editor.unwinding`). The lines of that text are
what lies beneath the lines of the first one.
-/

namespace MarkedEdits

open Text

open scoped List

namespace Text

/-- A part of a text is not longer than the text. -/
theorem size_le_of_sublist {part t : Text} (h : part <+ t) : size part ≤ size t := by
  induction h with
  | slnil => exact Nat.le_refl _
  | cons c _ ih => exact Nat.le_trans ih (Nat.le_add_left _ _)
  | cons_cons c _ ih => exact Nat.add_le_add_left ih _

/-- A part of a text is shorter unless it is the text itself. -/
theorem size_lt_of_sublist {part t : Text} (h : part <+ t) (hne : part ≠ t) :
    size part < size t := by
  induction h with
  | slnil => exact absurd rfl hne
  | cons c hrest _ =>
      have hle := size_le_of_sublist hrest
      have hpos := Char.utf8Size_pos c
      rw [size_cons]
      omega
  | cons_cons c _ ih =>
      have hlt := ih fun hsame ↦ hne (congrArg _ hsame)
      rw [size_cons, size_cons]
      omega

end Text

namespace Marker

variable {marker : Text}

/-- Stripping leaves a part of the text. -/
theorem strip_sublist (hne : marker ≠ []) (hmarker : '\n' ∉ marker) (t : Text) :
    strip marker t <+ t := by
  have hpart := (List.filter_sublist (p := fun line ↦ ¬ marker <+: line) (l := lines t)).flatten
  rwa [flatten_lines, ← strip_eq_filter hne hmarker] at hpart

/-- Uncommenting leaves a part of the text. -/
theorem uncomment_sublist (marker t : Text) : uncomment marker t <+ t := by
  have hline : ∀ line, unmark marker line <+ line := by
    intro line
    unfold unmark
    split
    · exact List.drop_sublist _ _
    · exact List.Sublist.refl _
  have hparts := List.Sublist.flatMap_right (lines t) fun line _ ↦ hline line
  rwa [List.flatMap_id', flatten_lines] at hparts

end Marker

namespace Editor

/-- Reverting leaves a part of the text. -/
theorem revert_sublist (editor : Editor) (t : Text) : editor.revert t <+ t := by
  have hsound := editor.markers_sound
  have hstrip := Marker.strip_sublist hsound.insert_ne_nil hsound.newline_not_mem_insert t
  have hpart := (Marker.uncomment_sublist editor.markers.delete _).trans hstrip
  have hdrop : ∀ s : Text, dropFinalNewline s <+ s := by
    intro s
    unfold dropFinalNewline
    split
    · exact List.dropLast_sublist s
    · exact List.Sublist.refl s
  unfold revert
  simp only
  split
  · exact hpart
  · exact (hdrop _).trans hpart

/-- Reverting shortens every text that it changes. -/
theorem size_revert_lt {editor : Editor} {t : Text} (h : ¬ editor.markers.Unmarked t) :
    size (editor.revert t) < size t :=
  size_lt_of_sublist (editor.revert_sublist t) (mt (editor.revert_eq_self_iff t).mp h)

/-! ## What lies beneath a text -/

/-- What lies beneath the lines of the text, except for empty lines. -/
def bared (editor : Editor) (t : Text) : List Text :=
  ((bodies t).filterMap (Markers.beneath [editor.markers])).filter (· ≠ [])

/-- The markers of one editor are apart. -/
theorem apart_singleton (editor : Editor) : Markers.Apart [editor.markers] where
  sound := by simpa using editor.markers_sound
  unique := by simp

/-- Empty lines make no difference to what is not empty beneath. -/
theorem filter_beneath_filter (editor : Editor) (rows : List Text) :
    (((rows.filter (· ≠ [])).filterMap (Markers.beneath [editor.markers])).filter (· ≠ [])) =
      (rows.filterMap (Markers.beneath [editor.markers])).filter (· ≠ []) := by
  have hnil := editor.apart_singleton.beneath_nil
  induction rows with
  | nil => rfl
  | cons row rest ih =>
      by_cases hrow : row = []
      · rw [hrow, List.filter_cons_of_neg (by simp), List.filterMap_cons_some hnil,
          List.filter_cons_of_neg (by simp), ih]
      · rw [List.filter_cons_of_pos (by simpa using hrow), List.filterMap_cons,
          List.filterMap_cons]
        cases Markers.beneath [editor.markers] row with
        | none => exact ih
        | some left => simp only [List.filter_cons, ih]

/-- Reverting makes no difference to what lies beneath a text. -/
theorem bared_revert (editor : Editor) (t : Text) :
    editor.bared (editor.revert t) = editor.bared t := by
  have hsame : ∀ row, (editor.markers.release row).bind (Markers.beneath [editor.markers]) =
      Markers.beneath [editor.markers] row :=
    editor.apart_singleton.beneath_release (List.mem_singleton.mpr rfl)
  unfold bared
  rw [← filter_beneath_filter, filter_bodies_revert, filter_beneath_filter,
    List.filterMap_filterMap, funext hsame]

/-- An unmarked text lies beneath itself. -/
theorem bared_of_unmarked {editor : Editor} {t : Text} (h : editor.markers.Unmarked t) :
    editor.bared t = (bodies t).filter (· ≠ []) := by
  have hbodies := editor.markers_sound.unmarked_iff.mp h
  unfold bared
  rw [Over.filterMap_beneath_eq (by simpa using hbodies)]

/-! ## Repeated reverts -/

/-- Reverting comes to an unmarked text in no more steps than the text has bytes. -/
theorem exists_unmarked_iterate (editor : Editor) (t : Text) :
    ∃ n ≤ size t, editor.markers.Unmarked (editor.revert^[n] t) ∧
      editor.bared (editor.revert^[n] t) = editor.bared t := by
  induction hsize : size t using Nat.strongRecOn generalizing t with
  | _ bytes ih =>
      subst hsize
      by_cases hunmarked : editor.markers.Unmarked t
      · exact ⟨0, Nat.zero_le _, hunmarked, rfl⟩
      · have hlt := size_revert_lt hunmarked
        obtain ⟨n, hn, hend, hbared⟩ := ih _ hlt (editor.revert t) rfl
        refine ⟨n + 1, by omega, ?_, ?_⟩
        · rwa [Function.iterate_succ_apply]
        · rw [Function.iterate_succ_apply, hbared, bared_revert]

/-- Reverting leaves a text unchanged exactly if no line of it is marked, and otherwise leaves a
proper part of it. So after finitely many reverts the text is unmarked. It then stays as it is, and
its lines are what lies beneath the lines of the first text, empty lines aside. -/
theorem unwinding (editor : Editor) (t : Text) :
    (editor.revertOutcome t = .unchanged ↔ editor.markers.Unmarked t) ∧
      (¬ editor.markers.Unmarked t →
        editor.revertOutcome t = .patched (editor.revert t) ∧ editor.revert t <+ t ∧
          size (editor.revert t) < size t) ∧
      ∃ n ≤ size t,
        editor.markers.Unmarked (editor.revert^[n] t) ∧
          (∀ m, n ≤ m → editor.revert^[m] t = editor.revert^[n] t) ∧
          (bodies (editor.revert^[n] t)).filter (· ≠ []) = editor.bared t := by
  have houtcome : editor.revertOutcome t =
      if editor.markers.Unmarked t then .unchanged else .patched (editor.revert t) := by
    unfold revertOutcome
    simp only [editor.revert_eq_self_iff t]
  refine ⟨?_, fun hmarked ↦ ⟨?_, editor.revert_sublist t, size_revert_lt hmarked⟩, ?_⟩
  · rw [houtcome]
    split <;> simp_all
  · rw [houtcome, if_neg hmarked]
  · obtain ⟨n, hn, hunmarked, hbared⟩ := editor.exists_unmarked_iterate t
    refine ⟨n, hn, hunmarked, fun m hm ↦ ?_, ?_⟩
    · have hfixed := (editor.revert_eq_self_iff _).mpr hunmarked
      rw [← Nat.sub_add_cancel hm, Function.iterate_add_apply]
      exact Function.iterate_fixed hfixed (m - n)
    · rw [← bared_of_unmarked hunmarked, hbared]

/-- An inserted line that has been disabled comes to light with the first revert and goes with the
second. -/
theorem unwinding_disabled :
    let editor : Editor :=
      { owner := ⟨['a'], by simp, List.forall_mem_singleton.mpr rfl⟩, style := .hash
        usable := by decide }
    let t := "# - PL:a - # # + PL:a + # x\ny\n# + PL:a + # z".toList
    let once := "# + PL:a + # x\ny".toList
    ¬ editor.markers.Unmarked t ∧ editor.revertOutcome t = .patched once ∧ size once < size t ∧
      ¬ editor.markers.Unmarked once ∧ editor.revertOutcome once = .patched ['y'] ∧
      editor.revertOutcome ['y'] = .unchanged := by
  intro editor t once
  have honce : editor.revert t = once := by
    simp only [t, once, editor]
    decide +kernel
  have htwice : editor.revert once = ['y'] := by
    simp only [once, editor]
    decide +kernel
  have hmarked : ¬ editor.markers.Unmarked t := by
    simp only [t, editor]
    decide +kernel
  have hmarked' : ¬ editor.markers.Unmarked once := by
    simp only [once, editor]
    decide +kernel
  have hunmarked : editor.markers.Unmarked ['y'] := by
    simp only [editor]
    decide +kernel
  obtain ⟨hfirst, -, hsize⟩ := (unwinding editor t).2.1 hmarked
  have hsecond := ((unwinding editor once).2.1 hmarked').1
  rw [honce] at hfirst hsize
  rw [htwice] at hsecond
  exact ⟨hmarked, hfirst, hsize, hmarked', hsecond, (unwinding editor ['y']).1.mpr hunmarked⟩

end Editor

end MarkedEdits
