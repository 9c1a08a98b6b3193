import MarkedEdits.Proofs.Marker

/-!
# Comments that are taken back

`uncomment` takes back what `comment` does, except that the last line stays ended
(`Marker.uncomment_comment`). In the other direction `comment` takes back what `uncomment` does
exactly on the texts that `comment` can lead to: those whose lines are all ended and begin with the
marker (`Marker.comment_uncomment_iff`). `Marker.codec_inverse` puts both together.
-/

namespace MarkedEdits

namespace Marker

open Text

variable {marker : Text}

/-- A line that begins with the marker is the marker and the unmarked line. -/
theorem append_unmark {line : Text} (h : marker <+: line) :
    marker ++ unmark marker line = line := by
  obtain ⟨rest, rfl⟩ := h
  rw [unmark_append]

/-- Uncommenting ended lines takes the marker off each of them. -/
theorem uncomment_unlines (hmarker : '\n' ∉ marker) {rows : List Text}
    (hrows : ∀ row ∈ rows, '\n' ∉ row) :
    uncomment marker (unlines rows) = unlines (rows.map (unmark marker)) := by
  have hnil : unmark marker [] = [] := by simp [unmark]
  have hend : '\n' ∉ ([] : Text) := List.not_mem_nil
  have h := uncomment_unlines_append hmarker hrows hend
  rwa [hnil, List.append_nil, List.append_nil] at h

/-- Each body of a text makes one line of the commented text. -/
theorem lines_comment (hmarker : '\n' ∉ marker) (t : Text) :
    lines (comment marker t) = (bodies t).map fun body ↦ marker ++ body ++ ['\n'] := by
  rw [comment_eq, lines_unlines]
  · rw [List.map_map]
    rfl
  · intro row hrow
    obtain ⟨body, hbody, rfl⟩ := List.mem_map.mp hrow
    have hline := newline_not_mem_of_mem_bodies hbody
    simp [hmarker, hline]

/-- The lines of a commented text begin with the marker. -/
theorem prefix_of_mem_lines_comment (hmarker : '\n' ∉ marker) {t line : Text}
    (h : line ∈ lines (comment marker t)) : marker <+: line := by
  rw [lines_comment hmarker] at h
  obtain ⟨body, -, rfl⟩ := List.mem_map.mp h
  exact (List.prefix_append marker body).trans (List.prefix_append _ _)

/-- Uncommenting takes back a comment. Only the last line stays ended. -/
theorem uncomment_comment (hmarker : '\n' ∉ marker) (t : Text) :
    uncomment marker (comment marker t) = close t := by
  have hunmark : unmark marker ∘ (marker ++ ·) = id := funext (unmark_append marker)
  rw [comment_eq, uncomment_unlines hmarker, List.map_map, hunmark, List.map_id, unlines_bodies]
  intro row hrow
  obtain ⟨body, hbody, rfl⟩ := List.mem_map.mp hrow
  have hline := newline_not_mem_of_mem_bodies hbody
  simp [hmarker, hline]

/-- Nothing is left of a commented text when its marked lines are stripped. -/
theorem strip_comment (hne : marker ≠ []) (hmarker : '\n' ∉ marker) (t : Text) :
    strip marker (comment marker t) = [] := by
  have hnone : (lines (comment marker t)).filter (fun line ↦ ¬ marker <+: line) = [] := by
    rw [List.filter_eq_nil_iff]
    intro line hline
    simpa using prefix_of_mem_lines_comment hmarker hline
  rw [strip_eq_filter hne hmarker, hnone, List.flatten_nil]

/-- Ended lines all begin with the marker when their bodies do. -/
theorem forall_lines_iff (hmarker : '\n' ∉ marker) {u : Text} (hstart : AtLineStart u) :
    (∀ line ∈ lines u, marker <+: line) ↔ ∀ body ∈ bodies u, marker <+: body := by
  have hlines : lines u = (bodies u).map (· ++ ['\n']) := by
    rw [← lines_close, close_of_atLineStart hstart]
  rw [hlines, List.forall_mem_map]
  exact forall₂_congr fun body _ ↦ prefix_line_iff hmarker body []

/-- Commenting takes back what uncommenting does exactly when all lines are ended and begin with the
marker. -/
theorem comment_uncomment_iff (hmarker : '\n' ∉ marker) (u : Text) :
    comment marker (uncomment marker u) = u ↔
      AtLineStart u ∧ ∀ line ∈ lines u, marker <+: line := by
  constructor
  · -- every commented text is of this sort
    intro h
    rw [← h]
    exact ⟨atLineStart_comment marker _, fun line ↦ prefix_of_mem_lines_comment hmarker⟩
  · rintro ⟨hstart, hmarked⟩
    have hbodies := (forall_lines_iff hmarker hstart).mp hmarked
    have hrows : ∀ row ∈ bodies u, '\n' ∉ row := fun row ↦ newline_not_mem_of_mem_bodies
    have hleft : ∀ row ∈ (bodies u).map (unmark marker), '\n' ∉ row := by
      intro row hrow
      obtain ⟨body, hbody, rfl⟩ := List.mem_map.mp hrow
      exact newline_not_mem_unmark (hrows body hbody)
    have hagain : ((bodies u).map (unmark marker)).map (marker ++ ·) = bodies u := by
      rw [List.map_map]
      exact (List.map_congr_left fun body hbody ↦ append_unmark (hbodies body hbody)).trans
        (List.map_id _)
    have hsame : bodies (unlines ((bodies u).map (unmark marker))) =
        (bodies u).map (unmark marker) := by
      simpa using bodies_unlines_append hleft []
    calc comment marker (uncomment marker u)
        = comment marker (uncomment marker (unlines (bodies u))) := by
          rw [unlines_bodies, close_of_atLineStart hstart]
      _ = comment marker (unlines ((bodies u).map (unmark marker))) := by
          rw [uncomment_unlines hmarker hrows]
      _ = unlines (((bodies u).map (unmark marker)).map (marker ++ ·)) := by
          rw [comment_eq, hsame]
      _ = u := by rw [hagain, unlines_bodies, close_of_atLineStart hstart]

/-- Uncommenting takes back a comment, where a last line that is not ended gets a newline, and
stripping leaves nothing of it. Commenting takes back what uncommenting does to the texts, and only
to those, that are empty or end with a newline and whose lines all begin with the marker. -/
theorem codec_inverse (hne : marker ≠ []) (hmarker : '\n' ∉ marker) :
    (∀ t, uncomment marker (comment marker t) =
        (if t = [] ∨ endsWithNewline t = true then t else t ++ ['\n']) ∧
      strip marker (comment marker t) = []) ∧
    ∀ u, comment marker (uncomment marker u) = u ↔
      (u = [] ∨ endsWithNewline u = true) ∧ ∀ line ∈ lines u, marker <+: line :=
  ⟨fun t ↦ ⟨uncomment_comment hmarker t, strip_comment hne hmarker t⟩,
    comment_uncomment_iff hmarker⟩

/-- A line with the marker, an empty line, a line that ends with a carriage return and a last line
that is not ended. -/
theorem codec_inverse_mixed :
    let marker := "# ".toList
    let t := "# a\n\nb\r\nc".toList
    let commented := "# # a\n# \n# b\r\n# c\n".toList
    marker ≠ [] ∧ '\n' ∉ marker ∧ comment marker t = commented ∧
      uncomment marker commented = t ++ ['\n'] ∧ strip marker commented = [] ∧
      comment marker (uncomment marker commented) = commented := by
  intro marker t commented
  have hne : marker ≠ [] := by decide
  have hmarker : '\n' ∉ marker := by decide
  have hcommented : comment marker t = commented := by decide
  obtain ⟨hforth, hback⟩ := codec_inverse hne hmarker
  obtain ⟨huncomment, hstrip⟩ := hforth t
  have hopen : ¬ (t = [] ∨ endsWithNewline t = true) := by decide
  rw [hcommented] at huncomment hstrip
  rw [if_neg hopen] at huncomment
  exact ⟨hne, hmarker, hcommented, huncomment, hstrip, (hback commented).mpr (by decide)⟩

end Marker

end MarkedEdits
