import MarkedEdits.Marker
import MarkedEdits.Proofs.Text.Lines

/-!
# Marked lines, body by body

`comment`, `uncomment` and `strip` work on every line by itself. For a marker without newlines they
are therefore maps and filters of the bodies of a text: `comment_eq` writes the bodies with the
marker before them, `strip_unlines_append` keeps the bodies that do not begin with the marker,
`countMarked_eq` counts the others, and `uncomment_unlines_append` takes the marker off these.
-/

namespace MarkedEdits

namespace Marker

open Text

/-- A commented text is its bodies, each with the marker before it, as ended lines. -/
theorem comment_eq (marker t : Text) :
    comment marker t = unlines ((bodies t).map (marker ++ ·)) := by
  unfold comment unlines bodies
  rw [List.flatMap_map, List.flatMap_map]
  congr 1
  funext line
  unfold terminated dropFinalNewline
  split
  · next hend =>
      obtain ⟨front, rfl⟩ := endsWithNewline_iff.mp hend
      simp
  · simp

/-- A commented text ends at the start of a line. -/
theorem atLineStart_comment (marker t : Text) : AtLineStart (comment marker t) := by
  rw [comment_eq]
  exact atLineStart_unlines _

variable {marker : Text}

/-- A marker without newlines that begins a text begins its first body. -/
theorem prefix_line_iff (hmarker : '\n' ∉ marker) (body rest : Text) :
    marker <+: body ++ '\n' :: rest ↔ marker <+: body := by
  constructor
  · rintro ⟨tail, htail⟩
    rcases List.append_eq_append_iff.mp htail with ⟨left, rfl, -⟩ | ⟨left, rfl, hleft⟩
    · exact List.prefix_append _ _
    · cases left with
      | nil => simp
      | cons c left =>
          obtain ⟨rfl, -⟩ := List.cons.inj hleft
          simp at hmarker
  · exact fun h ↦ h.trans (List.prefix_append _ _)

/-! ## Stripping -/

/-- Within a line nothing is stripped. -/
theorem stripFrom_body_cons {body : Text} (h : '\n' ∉ body) (rest : Text) :
    stripFrom marker false (body ++ '\n' :: rest) = body ++ '\n' :: strip marker rest := by
  induction body with
  | nil =>
      rw [List.nil_append, stripFrom]
      rfl
  | cons c body ih =>
      obtain ⟨hc, hbody⟩ := not_or.mp (mt List.mem_cons.mpr h)
      rw [List.cons_append, stripFrom]
      have hflag : (c == '\n') = false := by simpa using Ne.symm hc
      simp [hflag, ih hbody]

/-- Within the last line nothing is stripped. -/
theorem stripFrom_body {body : Text} (h : '\n' ∉ body) : stripFrom marker false body = body := by
  induction body with
  | nil => simp [stripFrom]
  | cons c body ih =>
      obtain ⟨hc, hbody⟩ := not_or.mp (mt List.mem_cons.mpr h)
      rw [stripFrom]
      have hflag : (c == '\n') = false := by simpa using Ne.symm hc
      simp [hflag, ih hbody]

/-- Without newlines there is no further line. -/
theorem dropLine_body {body : Text} (h : '\n' ∉ body) : dropLine body = [] := by
  induction body with
  | nil => rfl
  | cons c body ih =>
      obtain ⟨hc, hbody⟩ := not_or.mp (mt List.mem_cons.mpr h)
      rw [dropLine, if_neg (Ne.symm hc), ih hbody]

/-- The second line follows the first newline. -/
theorem dropLine_body_cons {body : Text} (h : '\n' ∉ body) (rest : Text) :
    dropLine (body ++ '\n' :: rest) = rest := by
  induction body with
  | nil => simp [dropLine]
  | cons c body ih =>
      obtain ⟨hc, hbody⟩ := not_or.mp (mt List.mem_cons.mpr h)
      rw [List.cons_append, dropLine, if_neg (Ne.symm hc), ih hbody]

/-- At the start of a line that does not begin with the marker, stripping goes on within it. -/
theorem strip_eq_stripFrom {t : Text} (h : ¬ marker <+: t) (hline : ¬ ['\n'] <+: t) :
    strip marker t = stripFrom marker false t := by
  cases t with
  | nil => simp [strip, stripFrom]
  | cons c t =>
      have hpre : marker.isPrefixOf (c :: t) = false := by
        rw [Bool.eq_false_iff]
        exact fun hp ↦ h (List.isPrefixOf_iff_prefix.mp hp)
      unfold strip
      rw [stripFrom, stripFrom]
      simp [hpre]

/-- A line that begins with the marker is stripped to its end. -/
theorem strip_marked (hne : marker ≠ []) (t : Text) :
    strip marker (marker ++ t) = strip marker (dropLine t) := by
  obtain ⟨c, front, rfl⟩ := List.exists_cons_of_ne_nil hne
  have hpre : (c :: front).isPrefixOf (c :: (front ++ t)) = true :=
    List.isPrefixOf_iff_prefix.mpr ⟨t, rfl⟩
  unfold strip
  rw [List.cons_append, stripFrom]
  simp [hpre]

/-- The first line goes when it begins with the marker and stays otherwise. -/
theorem strip_body_cons (hne : marker ≠ []) (hmarker : '\n' ∉ marker) {body : Text}
    (hbody : '\n' ∉ body) (rest : Text) :
    strip marker (body ++ '\n' :: rest) =
      if marker <+: body then strip marker rest else body ++ '\n' :: strip marker rest := by
  split
  · next hpre =>
      obtain ⟨tail, rfl⟩ := hpre
      have htail : '\n' ∉ tail := fun h ↦ hbody (List.mem_append_right _ h)
      rw [List.append_assoc, strip_marked hne, dropLine_body_cons htail]
  · next hpre =>
      cases body with
      | nil =>
          -- the empty line ends where it begins, so stripping does not go on within it
          unfold strip
          rw [List.nil_append, stripFrom]
          have : marker.isPrefixOf ('\n' :: rest) = false := by
            rw [Bool.eq_false_iff]
            intro hp
            exact hpre ((prefix_line_iff hmarker [] rest).mp
              (List.isPrefixOf_iff_prefix.mp hp))
          simp [this]
      | cons c body =>
          have hstart : ¬ ['\n'] <+: (c :: body) ++ '\n' :: rest := by
            rintro ⟨tail, htail⟩
            obtain ⟨rfl, -⟩ := List.cons.inj htail
            simp at hbody
          rw [strip_eq_stripFrom (mt (prefix_line_iff hmarker _ rest).mp hpre) hstart,
            stripFrom_body_cons hbody]

/-- The last line, which is not ended, goes when it begins with the marker. -/
theorem strip_body (hne : marker ≠ []) {body : Text} (hbody : '\n' ∉ body) :
    strip marker body = if marker <+: body then [] else body := by
  split
  · next hpre =>
      obtain ⟨tail, rfl⟩ := hpre
      have htail : '\n' ∉ tail := fun h ↦ hbody (List.mem_append_right _ h)
      rw [strip_marked hne, dropLine_body htail, strip, stripFrom]
  · next hpre =>
      have hstart : ¬ ['\n'] <+: body := by
        rintro ⟨tail, rfl⟩
        simp at hbody
      rw [strip_eq_stripFrom hpre hstart, stripFrom_body hbody]

/-- Stripping keeps the bodies that do not begin with the marker. -/
theorem strip_unlines_append (hne : marker ≠ []) (hmarker : '\n' ∉ marker) {rows : List Text}
    (hrows : ∀ row ∈ rows, '\n' ∉ row) {body : Text} (hbody : '\n' ∉ body) :
    strip marker (unlines rows ++ body) =
      unlines (rows.filter fun row ↦ ¬ marker <+: row) ++ if marker <+: body then [] else body := by
  induction rows with
  | nil => exact strip_body hne hbody
  | cons row rows ih =>
      have ih := ih fun other hother ↦ hrows other (List.mem_cons_of_mem row hother)
      rw [unlines_cons, List.append_assoc, List.cons_append,
        strip_body_cons hne hmarker (hrows row (by simp)), ih]
      by_cases hpre : marker <+: row <;> simp [hpre]

/-- Stripping keeps the lines that do not begin with the marker. -/
theorem strip_eq_filter (hne : marker ≠ []) (hmarker : '\n' ∉ marker) (t : Text) :
    strip marker t = ((lines t).filter fun line ↦ ¬ marker <+: line).flatten := by
  induction t using line_induction with
  | nil => simp [strip, stripFrom, lines]
  | last body hbody hsome =>
      rw [strip_body hne hbody, lines_body hbody hsome]
      by_cases hpre : marker <+: body <;> simp [hpre]
  | cons body rest hbody ih =>
      have hline : marker <+: body ++ ['\n'] ↔ marker <+: body := prefix_line_iff hmarker body []
      rw [strip_body_cons hne hmarker hbody, lines_body_cons hbody, List.filter_cons, ih]
      by_cases hpre : marker <+: body <;> simp [hline, hpre]

/-! ## Counting -/

/-- Within the first line lies what has no newline. -/
theorem dropLine_append {front : Text} (h : '\n' ∉ front) (t : Text) :
    dropLine (front ++ t) = dropLine t := by
  induction front with
  | nil => rfl
  | cons c front ih =>
      obtain ⟨hc, hfront⟩ := not_or.mp (mt List.mem_cons.mpr h)
      rw [List.cons_append, dropLine, if_neg (Ne.symm hc), ih hfront]

/-- The bodies of a text are the first one and those behind the first line. A marker that begins the
text begins the first body. -/
theorem exists_bodies_eq_cons {t : Text} (hne : t ≠ []) (hmarker : '\n' ∉ marker) :
    ∃ first, bodies t = first :: bodies (dropLine t) ∧ (marker <+: t ↔ marker <+: first) := by
  induction t using line_induction with
  | nil => exact absurd rfl hne
  | last body hbody hne =>
      exact ⟨body, by rw [bodies_body hbody hne, dropLine_body hbody, bodies_nil], Iff.rfl⟩
  | cons body rest hbody _ =>
      exact ⟨body, by rw [bodies_cons hbody, dropLine_body_cons hbody],
        prefix_line_iff hmarker body rest⟩

/-- The runs that a scan counts are the bodies that begin with the marker, from the next line on
when the scan begins within a line. -/
theorem countFrom_eq (hmarker : '\n' ∉ marker) (atStart : Bool) (t : Text) :
    countFrom marker atStart t =
      (bodies (if atStart then t else dropLine t)).countP (marker <+: ·) := by
  fun_induction countFrom marker atStart t with
  | case1 atStart => cases atStart <;> rfl
  | case2 atStart c rest hmarked ih =>
      obtain ⟨hstart, hpre⟩ := Bool.and_eq_true_iff.mp hmarked
      obtain ⟨tail, htail⟩ := List.isPrefixOf_iff_prefix.mp hpre
      obtain ⟨first, hbodies, hfirst⟩ :=
        exists_bodies_eq_cons (List.cons_ne_nil c rest) hmarker
      have hbehind : dropLine (c :: rest) = dropLine ((c :: rest).drop marker.length) := by
        rw [← htail, dropLine_append hmarker, List.drop_left]
      rw [ih, if_pos hstart, hbodies, List.countP_cons, hbehind]
      simp [hfirst.mp ⟨tail, htail⟩]
  | case3 atStart c rest hunmarked ih =>
      rw [ih]
      -- behind a newline the scan is at the start of the next line
      have hbehind : (if (c == '\n') = true then rest else dropLine rest) =
          dropLine (c :: rest) := by
        by_cases hc : c = '\n' <;> simp [dropLine, hc]
      rw [hbehind]
      cases atStart with
      | false => rfl
      | true =>
          obtain ⟨first, hbodies, hfirst⟩ :=
            exists_bodies_eq_cons (List.cons_ne_nil c rest) hmarker
          have hnone : ¬ marker <+: first := by
            rw [← hfirst, ← List.isPrefixOf_iff_prefix]
            simpa using hunmarked
          simp [hbodies, hnone]

/-- The marked lines that are counted are the bodies that begin with the marker. -/
theorem countMarked_eq (hne : marker ≠ []) (hmarker : '\n' ∉ marker) (t : Text) :
    countMarked marker t = (bodies t).countP (marker <+: ·) := by
  rw [countMarked, if_neg fun h ↦ hne h.1, countFrom_eq hmarker]
  rfl

/-- The lines that are counted are those that begin with the marker. -/
theorem countMarked_eq_countP (hne : marker ≠ []) (hmarker : '\n' ∉ marker) (t : Text) :
    countMarked marker t = (lines t).countP (marker <+: ·) := by
  rw [countMarked_eq hne hmarker]
  induction t using line_induction with
  | nil => rfl
  | last body hbody hsome => rw [bodies_body hbody hsome, lines_body hbody hsome]
  | cons body rest hbody ih =>
      have hline : marker <+: body ++ ['\n'] ↔ marker <+: body := prefix_line_iff hmarker body []
      rw [bodies_cons hbody, lines_body_cons hbody, List.countP_cons, List.countP_cons, ih]
      simp only [hline]

/-! ## Uncommenting -/

/-- A body of a line that is unmarked is no line of its own. -/
theorem newline_not_mem_unmark {body : Text} (h : '\n' ∉ body) : '\n' ∉ unmark marker body := by
  unfold unmark
  split
  · exact fun hmem ↦ h (List.mem_of_mem_drop hmem)
  · exact h

/-- The newline of a line stays when the line is unmarked. -/
theorem unmark_line (hmarker : '\n' ∉ marker) (body : Text) :
    unmark marker (body ++ ['\n']) = unmark marker body ++ ['\n'] := by
  have hiff := prefix_line_iff hmarker body []
  unfold unmark
  by_cases hpre : marker <+: body
  · rw [if_pos (List.isPrefixOf_iff_prefix.mpr (hiff.mpr hpre)),
      if_pos (List.isPrefixOf_iff_prefix.mpr hpre), List.drop_append_of_le_length hpre.length_le]
  · rw [if_neg (mt List.isPrefixOf_iff_prefix.mp (mt hiff.mp hpre)),
      if_neg (mt List.isPrefixOf_iff_prefix.mp hpre)]

/-- A line that does not begin with the marker is unmarked as it is. -/
theorem unmark_of_unmarked {line : Text} (h : ¬ marker <+: line) : unmark marker line = line :=
  if_neg (mt List.isPrefixOf_iff_prefix.mp h)

/-- The marker of a line is taken off. -/
theorem unmark_append (marker line : Text) : unmark marker (marker ++ line) = line := by
  unfold unmark
  rw [if_pos (List.isPrefixOf_iff_prefix.mpr (List.prefix_append marker line))]
  exact List.drop_left

/-- Uncommenting takes the marker off every body. -/
theorem uncomment_unlines_append (hmarker : '\n' ∉ marker) {rows : List Text}
    (hrows : ∀ row ∈ rows, '\n' ∉ row) {body : Text} (hbody : '\n' ∉ body) :
    uncomment marker (unlines rows ++ body) =
      unlines (rows.map (unmark marker)) ++ unmark marker body := by
  unfold uncomment
  induction rows with
  | nil =>
      by_cases hne : body = []
      · subst hne
        simp [lines, unmark]
      · simp [lines_body hbody hne]
  | cons row rows ih =>
      have ih := ih fun other hother ↦ hrows other (List.mem_cons_of_mem row hother)
      rw [unlines_cons, List.append_assoc, List.cons_append, lines_body_cons (hrows row (by simp)),
        List.flatMap_cons, ih, unmark_line hmarker]
      simp

end Marker

end MarkedEdits
