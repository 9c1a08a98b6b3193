import MarkedEdits.Editor
import MarkedEdits.Proofs.Style

/-!
# Reverting line by line

Reverting a text drops the bodies that begin with the insert marker and takes the delete marker off
the others; `Markers.release` says so for one body. `revert_assemble` is the law for whole texts. It
needs no care for the newline at the end of the text: a text keeps its ending.
-/

namespace MarkedEdits

open Text Marker

namespace Markers

/-- What reverting leaves of a body: nothing of one that begins with the insert marker. -/
def release (markers : Markers) (body : Text) : Option Text :=
  if markers.insert <+: body then none else some (unmark markers.delete body)

/-- No line of the text begins with one of the markers. -/
def Unmarked (markers : Markers) (t : Text) : Prop :=
  ∀ line ∈ lines t, ¬ markers.Marks line

/-- Whether a text is unmarked is decided line by line. -/
instance (markers : Markers) (t : Text) : Decidable (markers.Unmarked t) :=
  inferInstanceAs (Decidable (∀ line ∈ lines t, _))

variable {markers : Markers}

/-- A body without a marker is left as it is. -/
theorem release_of_not_marks {body : Text} (h : ¬ markers.Marks body) :
    markers.release body = some body := by
  obtain ⟨hinsert, hdelete⟩ := not_or.mp h
  rw [release, if_neg hinsert, unmark_of_unmarked hdelete]

/-- What is left of a body holds no newline. -/
theorem newline_not_mem_release {body left : Text} (hbody : '\n' ∉ body)
    (h : markers.release body = some left) : '\n' ∉ left := by
  unfold release at h
  split at h
  · cases h
  · cases h
    exact newline_not_mem_unmark hbody

/-- Nothing is left of an inserted line. -/
theorem release_insert (markers : Markers) (line : Text) :
    markers.release (markers.insert ++ line) = none :=
  if_pos (List.prefix_append _ _)

/-- Unmarking the bodies that are not inserted is releasing all bodies. -/
theorem map_unmark_filter (markers : Markers) (rows : List Text) :
    (rows.filter fun row ↦ ¬ markers.insert <+: row).map (unmark markers.delete) =
      rows.filterMap markers.release := by
  induction rows with
  | nil => rfl
  | cons row rows ih =>
      by_cases hpre : markers.insert <+: row
      · have hnone : markers.release row = none := if_pos hpre
        rw [List.filter_cons_of_neg (by simpa using hpre), List.filterMap_cons_none hnone, ih]
      · have hsome : markers.release row = some (unmark markers.delete row) := if_neg hpre
        rw [List.filter_cons_of_pos (by simpa using hpre), List.filterMap_cons_some hsome,
          List.map_cons, ih]

namespace Sound

variable (h : markers.Sound)

include h

/-- An empty line is left as it is. -/
theorem release_nil : markers.release [] = some [] := by
  apply release_of_not_marks
  rintro (hpre | hpre)
  · exact h.insert_ne_nil (List.prefix_nil.mp hpre)
  · exact h.delete_ne_nil (List.prefix_nil.mp hpre)

/-- The line itself is left of a disabled line. -/
theorem release_delete (line : Text) : markers.release (markers.delete ++ line) = some line := by
  rw [release, if_neg (h.not_insert_prefix_delete line), unmark_append]

/-- A line is marked when its body is. -/
theorem marks_line_iff (body : Text) : markers.Marks (body ++ ['\n']) ↔ markers.Marks body :=
  or_congr (prefix_line_iff h.newline_not_mem_insert body [])
    (prefix_line_iff h.newline_not_mem_delete body [])

/-- A text is unmarked when none of its bodies is marked. -/
theorem unmarked_iff {t : Text} : markers.Unmarked t ↔ ∀ body ∈ bodies t, ¬ markers.Marks body := by
  have hline : ∀ line : Text, markers.Marks (dropFinalNewline line) ↔ markers.Marks line := by
    intro line
    unfold dropFinalNewline
    split
    · next hend =>
        obtain ⟨body, rfl⟩ := endsWithNewline_iff.mp hend
        rw [List.dropLast_concat, h.marks_line_iff body]
    · exact Iff.rfl
  simp [Unmarked, bodies, hline]

/-- Stripping and uncommenting leave of every body what `release` says. -/
theorem uncomment_strip (rows : List Text) (hrows : ∀ row ∈ rows, '\n' ∉ row) (body : Text)
    (hbody : '\n' ∉ body) :
    uncomment markers.delete (strip markers.insert (unlines rows ++ body)) =
      unlines (rows.filterMap markers.release) ++ (markers.release body).getD [] := by
  have hkept : ∀ row ∈ rows.filter fun row ↦ ¬ markers.insert <+: row, '\n' ∉ row := by
    intro row hrow
    exact hrows row (List.mem_filter.mp hrow).1
  have hlast : '\n' ∉ if markers.insert <+: body then [] else body := by
    split
    · simp
    · exact hbody
  rw [strip_unlines_append h.insert_ne_nil h.newline_not_mem_insert hrows hbody,
    uncomment_unlines_append h.newline_not_mem_delete hkept hlast, map_unmark_filter]
  unfold release
  split
  · simp [unmark]
  · rfl

end Sound

end Markers

namespace Editor

/-- The markers of an editor are sound. -/
theorem markers_sound (editor : Editor) : editor.markers.Sound :=
  Style.markers_sound editor.usable editor.owner

/-- Reverting ended lines leaves of every line what `release` says. -/
theorem revert_unlines (editor : Editor) {rows : List Text} (hrows : ∀ row ∈ rows, '\n' ∉ row) :
    editor.revert (unlines rows) = unlines (rows.filterMap editor.markers.release) := by
  have hsound := editor.markers_sound
  have hlines := hsound.uncomment_strip rows hrows [] (by simp)
  rw [hsound.release_nil, Option.getD_some, List.append_nil, List.append_nil] at hlines
  unfold revert
  rw [hlines]
  rcases atLineStart_unlines rows with hnil | hend
  · rw [unlines_eq_nil_iff.mp hnil]
    rfl
  · simp only [hend, if_true]

/-- Reverting a text whose last line is not ended leaves of the last line what `release` says. If
that is nothing or an empty line, the newline before it goes too. -/
theorem revert_unlines_append (editor : Editor) {front : List Text} {last : Text}
    (hfront : ∀ row ∈ front, '\n' ∉ row) (hbody : '\n' ∉ last) (hne : last ≠ []) :
    editor.revert (unlines front ++ last) =
      assemble false
        (front.filterMap editor.markers.release ++
          bodies ((editor.markers.release last).getD [])) := by
  have hopen : endsWithNewline (unlines front ++ last) = false := by
    rw [endsWithNewline_append hne, endsWithNewline_of_not_mem hbody]
  unfold revert
  -- whatever the last line leaves is closed and opened again
  simp only [hopen, Bool.false_eq_true, if_false]
  rw [editor.markers_sound.uncomment_strip front hfront last hbody, dropFinalNewline_eq,
    close_append (atLineStart_unlines _), ← unlines_bodies, ← unlines_append]
  rfl

/-- Reverting leaves of every body what `release` says and keeps the ending of the text, if no
empty line without a newline is there or is left at its end. -/
theorem revert_assemble (editor : Editor) {closed : Bool} {rows : List Text}
    (hrows : ∀ row ∈ rows, '\n' ∉ row) (hlast : closed = false → rows.getLast? ≠ some [])
    (hleft : closed = false → rows.getLast?.bind editor.markers.release ≠ some []) :
    editor.revert (assemble closed rows) =
      assemble closed (rows.filterMap editor.markers.release) := by
  cases closed with
  | true => exact editor.revert_unlines hrows
  | false =>
      rcases List.eq_nil_or_concat rows with rfl | ⟨front, last, rfl⟩
      · exact editor.revert_unlines hrows
      · rw [List.concat_eq_append] at hrows hlast hleft ⊢
        have hfront : ∀ row ∈ front, '\n' ∉ row := fun row hrow ↦ hrows row (by simp [hrow])
        have hbody : '\n' ∉ last := hrows last (by simp)
        rw [assemble_open_concat,
          editor.revert_unlines_append hfront hbody (by simpa using hlast rfl),
          List.filterMap_append]
        cases hrel : editor.markers.release last with
        | none => simp [hrel]
        | some left =>
            have hne : left ≠ [] := by simpa [hrel] using hleft rfl
            simp [hrel, bodies_body (Markers.newline_not_mem_release hbody hrel) hne]

end Editor

end MarkedEdits
