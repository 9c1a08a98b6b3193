import MarkedEdits.Proofs.Text.Breaks

/-!
# Lines and the offsets at which they stand

`placed` lists the lines of a text with the offsets at which they begin. Different lines have no
byte in common (`placed_apart`), and what occurs in a text without a newline occurs in one line,
the ends of which `lineStart` and `lineEnd` find (`OccursAt.exists_placed`,
`exists_occursAt_of_placed`).
-/

namespace MarkedEdits

namespace Text

/-- A line and the offset at which it begins. -/
structure PlacedLine where
  start : Nat
  line : Text
  deriving DecidableEq, Repr

/-- The offset at which the line ends. -/
def PlacedLine.stop (placed : PlacedLine) : Nat :=
  placed.start + size placed.line

/-- The lines one after the other, the first one at the offset. -/
def placeFrom (offset : Nat) : List Text → List PlacedLine
  | [] => []
  | line :: rest => ⟨offset, line⟩ :: placeFrom (offset + size line) rest

/-- The lines of the text where they stand in it. -/
def placed (t : Text) : List PlacedLine :=
  placeFrom 0 (lines t)

/-- A line is placed behind the lines before it. -/
theorem mem_placeFrom_iff {offset : Nat} {all : List Text} {p : PlacedLine} :
    p ∈ placeFrom offset all ↔
      ∃ before after, all = before ++ p.line :: after ∧ p.start = offset + size before.flatten := by
  induction all generalizing offset with
  | nil => simp [placeFrom]
  | cons line rest ih =>
      rw [placeFrom, List.mem_cons, ih]
      constructor
      · rintro (rfl | ⟨before, after, rfl, hstart⟩)
        · exact ⟨[], rest, rfl, rfl⟩
        · refine ⟨line :: before, after, rfl, ?_⟩
          rw [hstart, List.flatten_cons, size_append, Nat.add_assoc]
      · rintro ⟨before, after, hall, hstart⟩
        cases before with
        | nil =>
            obtain ⟨rfl, rfl⟩ := List.cons.inj hall
            left
            cases p
            cases hstart
            rfl
        | cons first before =>
            obtain ⟨rfl, rfl⟩ := List.cons.inj hall
            refine .inr ⟨before, after, rfl, ?_⟩
            rw [hstart, List.flatten_cons, size_append, Nat.add_assoc]

/-- The lines that stand in a text are its lines. -/
theorem line_mem_lines {t : Text} {p : PlacedLine} (h : p ∈ placed t) : p.line ∈ lines t := by
  obtain ⟨before, after, hlines, -⟩ := mem_placeFrom_iff.mp h
  simp [hlines]

/-- Every line of a text stands somewhere in it. -/
theorem exists_placed_of_mem_lines {t line : Text} (h : line ∈ lines t) :
    ∃ p ∈ placed t, p.line = line := by
  obtain ⟨before, after, hlines⟩ := List.append_of_mem h
  exact ⟨⟨size before.flatten, line⟩, mem_placeFrom_iff.mpr ⟨before, after, hlines, by simp⟩, rfl⟩

/-- A line has a first byte. -/
theorem start_lt_stop {t : Text} {p : PlacedLine} (h : p ∈ placed t) : p.start < p.stop := by
  have hpos := size_pos (ne_nil_of_mem_lines (line_mem_lines h))
  unfold PlacedLine.stop
  omega

/-- Every line ends before the next one begins. -/
theorem pairwise_placeFrom (offset : Nat) (all : List Text) :
    (placeFrom offset all).Pairwise (·.stop ≤ ·.start) := by
  induction all generalizing offset with
  | nil => exact List.Pairwise.nil
  | cons line rest ih =>
      refine List.pairwise_cons.mpr ⟨fun p hp ↦ ?_, ih _⟩
      obtain ⟨before, after, -, hstart⟩ := mem_placeFrom_iff.mp hp
      show offset + size line ≤ p.start
      omega

/-- Two lines of a text are the same, or one ends before the other begins. -/
theorem placed_apart {t : Text} {a b : PlacedLine} (ha : a ∈ placed t) (hb : b ∈ placed t) :
    a = b ∨ a.stop ≤ b.start ∨ b.stop ≤ a.start := by
  have hall : (placed t).Pairwise (·.stop ≤ ·.start) := pairwise_placeFrom 0 (lines t)
  refine List.Pairwise.forall_of_forall_of_flip
    (R := fun a b : PlacedLine ↦ a = b ∨ a.stop ≤ b.start ∨ b.stop ≤ a.start)
    (fun _ _ ↦ .inl rfl) ?_ ?_ ha hb
  · exact hall.imp fun h ↦ .inr (.inl h)
  · exact hall.imp fun h ↦ .inr (.inr h)

/-- Only one line of a text holds a given byte. -/
theorem eq_of_placed {t : Text} {a b : PlacedLine} (ha : a ∈ placed t) (hb : b ∈ placed t) {i : Nat}
    (hia : a.start ≤ i ∧ i < a.stop) (hib : b.start ≤ i ∧ i < b.stop) : a = b := by
  rcases placed_apart ha hb with heq | hle | hle
  · exact heq
  · omega
  · omega

/-- Only one line of a text begins at a given offset. -/
theorem eq_of_placed_start {t : Text} {a b : PlacedLine} (ha : a ∈ placed t) (hb : b ∈ placed t)
    (h : a.start = b.start) : a = b :=
  eq_of_placed ha hb (i := a.start) ⟨Nat.le_refl _, start_lt_stop ha⟩
    ⟨Nat.le_of_eq h.symm, h ▸ start_lt_stop hb⟩

/-- A last line that is not ended stands behind the whole lines and ends with the text. -/
theorem exists_placed_last {front : List Text} {last : Text} (hfront : ∀ row ∈ front, '\n' ∉ row)
    (hlast : '\n' ∉ last) (hne : last ≠ []) :
    ∃ p ∈ placed (unlines front ++ last), p.line = last ∧ p.start = size (unlines front) ∧
      p.stop = size (unlines front ++ last) := by
  refine ⟨⟨size (unlines front), last⟩, mem_placeFrom_iff.mpr ⟨front.map (· ++ ['\n']), [], ?_, ?_⟩,
    rfl, rfl, (size_append _ _).symm⟩
  · exact lines_unlines_append hfront hlast hne
  · rw [Nat.zero_add, unlines, List.flatMap_def]

/-! ## The numbers of lines -/

/-- Before a line there are as many newlines as lines. -/
theorem count_newline_flatten {t line : Text} {before after : List Text}
    (h : lines t = before ++ line :: after) : before.flatten.count '\n' = before.length := by
  induction t generalizing before with
  | nil => simp [lines] at h
  | cons c t ih =>
      cases before with
      | nil => rfl
      | cons first before =>
          by_cases hc : c = '\n'
          · simp only [lines, hc, if_true, List.cons_append, List.cons.injEq] at h
            rw [← h.1, List.flatten_cons, List.count_append, ih h.2, List.length_cons]
            simp [Nat.add_comm]
          · rw [lines, if_neg hc] at h
            cases hlines : lines t with
            | nil => simp [hlines] at h
            | cons rest others =>
                simp only [hlines, List.cons_append, List.cons.injEq] at h
                have hcount := @ih (rest :: before) (by rw [hlines, h.2, List.cons_append])
                rw [← h.1, List.flatten_cons, List.cons_append, List.count_cons_of_ne hc]
                simpa using hcount

/-- Counting newlines up to a part of a text counts those in the part. -/
theorem newlinesBefore_size_append (a b : Text) :
    newlinesBefore (a ++ b) (size a) = a.count '\n' := by
  induction a with
  | nil => cases b <;> rfl
  | cons c a ih =>
      have hpos := Char.utf8Size_pos c
      rw [List.cons_append, size_cons, newlinesBefore, if_neg (by omega), Nat.add_sub_cancel_left,
        ih, List.count_cons, Nat.add_comm]
      simp

/-- A line has the number that counting newlines gives its start. -/
theorem lineNumber_of_lines {t line : Text} {before after : List Text}
    (h : lines t = before ++ line :: after) :
    lineNumber t (size before.flatten) = before.length + 1 := by
  have ht : t = before.flatten ++ (line :: after).flatten := by
    rw [← List.flatten_append, ← h, flatten_lines]
  rw [lineNumber, ht, newlinesBefore_size_append, count_newline_flatten h]

/-- The lines of a text are numbered in the order in which they stand in it. -/
theorem map_placed_lineNumber (t : Text) :
    (placed t).map (fun p ↦ (p.line, lineNumber t p.start)) = (lines t).zipIdx 1 := by
  have hfrom : ∀ before rest, lines t = before ++ rest →
      (placeFrom (size before.flatten) rest).map (fun p ↦ (p.line, lineNumber t p.start)) =
        rest.zipIdx (before.length + 1) := by
    intro before rest hlines
    induction rest generalizing before with
    | nil => rfl
    | cons line rest ih =>
        have hrest := ih (before ++ [line]) (by simpa using hlines)
        rw [List.flatten_concat, size_append, List.length_append, List.length_singleton] at hrest
        rw [placeFrom, List.map_cons, List.zipIdx_cons, hrest, lineNumber_of_lines hlines]
  exact hfrom [] (lines t) rfl

/-! ## Occurrences within a line -/

/-- The line of an offset ends with the next newline. -/
theorem lineEnd_eq (front : Text) {body : Text} (hbody : '\n' ∉ body) (rest : Text) :
    lineEnd (front ++ body ++ '\n' :: rest) (size front) = size front + size body + 1 := by
  have hfound : findFrom (front ++ body ++ '\n' :: rest) ['\n'] (size front) =
      some (size front + size body) := by
    refine findFrom_eq_some_iff.mpr ⟨?_, Nat.le_add_right _ _, ?_, fun j hj hocc ↦ ?_⟩
    · exact isBoundary_iff.mpr ⟨front, body ++ '\n' :: rest, by simp, rfl⟩
    · exact ⟨front ++ body, rest, by simp, by simp⟩
    · -- an earlier newline would be one of the characters of the body
      obtain ⟨a, b, hab, rfl⟩ := hocc
      apply Nat.le_of_not_lt
      intro hlt
      obtain ⟨between, ha, hrest⟩ := exists_between (a := front) (x := body ++ '\n' :: rest)
        (b := a) (y := ['\n'] ++ b) (by simpa using hab) hj
      obtain ⟨left, hbody', hleft⟩ := exists_between (a := between) (x := ['\n'] ++ b) (b := body)
        (y := '\n' :: rest) (by simpa using hrest.symm) (by simp [ha] at hlt; omega)
      cases left with
      | nil => simp [ha, hbody'] at hlt
      | cons c left =>
          obtain ⟨rfl, -⟩ := List.cons.inj hleft
          simp [hbody'] at hbody
  rw [lineEnd, hfound]

/-- The last line ends with the text when it has no newline. -/
theorem lineEnd_eq_size (front : Text) {body : Text} (hbody : '\n' ∉ body) :
    lineEnd (front ++ body) (size front) = size (front ++ body) := by
  cases hfound : findFrom (front ++ body) ['\n'] (size front) with
  | none => rw [lineEnd, hfound]
  | some newline =>
      obtain ⟨-, hle, ⟨a, b, hab, rfl⟩, -⟩ := findFrom_first hfound
      obtain ⟨between, -, hrest⟩ := exists_between (a := front) (x := body) (b := a)
        (y := ['\n'] ++ b) (by simpa using hab) hle
      simp [hrest] at hbody

/-- What occurs without a newline occurs in one line, and that line is found from either end of the
occurrence. -/
theorem OccursAt.exists_placed {t needle : Text} {j : Nat} (hocc : OccursAt t needle j)
    (hneedle : '\n' ∉ needle) (hne : needle ≠ []) :
    ∃ p ∈ placed t, p.start = lineStart t j ∧ p.stop = lineEnd t (j + size needle) ∧
      needle <:+: p.line := by
  obtain ⟨before, after, rfl, rfl⟩ := hocc
  obtain ⟨front, x, rfl, hfront, hx⟩ := exists_eq_append_body before
  have hstart := lineStart_eq hfront hx (needle ++ after)
  rw [← List.append_assoc, ← size_append] at hstart
  by_cases hafter : '\n' ∈ after
  · obtain ⟨y, rest, rfl, hy⟩ := List.eq_append_cons_of_mem hafter
    have hbody : '\n' ∉ x ++ needle ++ y := by simp [hx, hneedle, hy]
    have hend := lineEnd_eq (front ++ x ++ needle) hy rest
    rw [size_append] at hend
    refine ⟨⟨size front, x ++ needle ++ y ++ ['\n']⟩, ?_, hstart.symm, ?_, ?_⟩
    · refine mem_placeFrom_iff.mpr ⟨lines front, lines rest, ?_, by simp⟩
      rw [← lines_body_cons hbody, ← lines_append hfront]
      simp
    · rw [← List.append_assoc _ y, hend]
      simp [PlacedLine.stop, Nat.add_assoc]
    · exact ⟨x, y ++ ['\n'], by simp⟩
  · have hbody : '\n' ∉ x ++ needle ++ after := by simp [hx, hneedle, hafter]
    have hend := lineEnd_eq_size (front ++ x ++ needle) hafter
    rw [size_append (front ++ x)] at hend
    refine ⟨⟨size front, x ++ needle ++ after⟩, ?_, hstart.symm, ?_, x, after, rfl⟩
    · refine mem_placeFrom_iff.mpr ⟨lines front, [], ?_, by simp⟩
      rw [← lines_body hbody (by simp [hne]), ← lines_append hfront]
      simp
    · rw [hend]
      simp [PlacedLine.stop]

/-- What is a part of a line occurs in the text, and the line is found from either end of the
occurrence. -/
theorem exists_occursAt_of_placed {t needle : Text} {p : PlacedLine} (hp : p ∈ placed t)
    (hneedle : '\n' ∉ needle) (hne : needle ≠ []) (hpart : needle <:+: p.line) :
    ∃ j, OccursAt t needle j ∧ lineStart t j = p.start ∧ lineEnd t (j + size needle) = p.stop := by
  obtain ⟨before, after, hlines, hstart⟩ := mem_placeFrom_iff.mp hp
  obtain ⟨x, y, hline⟩ := hpart
  have ht : t = before.flatten ++ x ++ needle ++ (y ++ after.flatten) := by
    rw [← flatten_lines t, hlines, ← hline]
    simp
  have hocc : OccursAt t needle (p.start + size x) :=
    ⟨before.flatten ++ x, y ++ after.flatten, ht, by simp [hstart]⟩
  obtain ⟨q, hq, hfirst, hlast, -⟩ := hocc.exists_placed hneedle hne
  -- both lines hold the first byte of the occurrence
  have hpos := size_pos hne
  have hbefore := (lineStart_spec hocc.isBoundary).2
  have hbehind := (lineEnd_spec hocc.isBoundary_end).2
  have hstop : p.start + size x + size needle ≤ p.stop := by
    rw [PlacedLine.stop, ← hline, size_append, size_append]
    omega
  have hsame : q = p := by
    refine eq_of_placed hq hp (i := p.start + size x) ⟨?_, ?_⟩ ⟨?_, ?_⟩ <;> omega
  exact ⟨_, hocc, by rw [← hfirst, hsame], by rw [← hlast, hsame]⟩

end Text

end MarkedEdits
