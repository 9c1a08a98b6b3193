import MarkedEdits.Text.Lines

/-!
# Texts as lists of line bodies

The body of a line is the line without its newline. A text is determined by its bodies and by
whether its last line has a newline (`assemble_bodies`), and any bodies without newlines can be
assembled to a text that has them, unless the last line would be empty and not ended
(`bodies_assemble`).

A text can be cut at the start of a line. There the lines and the bodies of the two parts are
those of the whole (`lines_append`, `bodies_append`).
-/

namespace MarkedEdits

namespace Text

/-- A line begins right after the text: it is empty or ends with a newline. -/
def AtLineStart (t : Text) : Prop :=
  t = [] ∨ endsWithNewline t = true

/-- The lines of the text without their newlines. -/
def bodies (t : Text) : List Text :=
  (lines t).map dropFinalNewline

/-- The text of lines with these bodies, all of them ended by a newline. -/
def unlines (rows : List Text) : Text :=
  rows.flatMap (· ++ ['\n'])

/-- The text of lines with these bodies. The last line is ended by a newline when `closed`. -/
def assemble (closed : Bool) (rows : List Text) : Text :=
  if closed then unlines rows else (unlines rows).dropLast

/-- The text with its last line ended by a newline. -/
def close (t : Text) : Text :=
  if t = [] ∨ endsWithNewline t = true then t else t ++ ['\n']

/-! ## Ends of texts -/

/-- A text that ends with a newline is some text and a newline. -/
theorem endsWithNewline_iff {t : Text} :
    endsWithNewline t = true ↔ ∃ front, t = front ++ ['\n'] := by
  simp [endsWithNewline, List.getLast?_eq_some_iff]

/-- The empty text does not end with a newline. -/
@[simp] theorem endsWithNewline_nil : endsWithNewline [] = false := rfl

/-- The end of a text is the end of its last part. -/
theorem endsWithNewline_append {a b : Text} (h : b ≠ []) :
    endsWithNewline (a ++ b) = endsWithNewline b := by
  obtain ⟨last, hlast⟩ := Option.isSome_iff_exists.mp (List.getLast?_isSome.mpr h)
  simp [endsWithNewline, List.getLast?_append, hlast]

/-- A text without newlines does not end with one. -/
theorem endsWithNewline_of_not_mem {t : Text} (h : '\n' ∉ t) : endsWithNewline t = false := by
  rw [Bool.eq_false_iff]
  intro hend
  obtain ⟨front, rfl⟩ := endsWithNewline_iff.mp hend
  simp at h

/-- A line begins right after two texts when one begins after each of them. -/
theorem AtLineStart.append {a b : Text} (ha : AtLineStart a) (hb : AtLineStart b) :
    AtLineStart (a ++ b) := by
  rcases hb with rfl | hb
  · simpa using ha
  · right
    rw [endsWithNewline_append (by rintro rfl; simp at hb)]
    exact hb

/-- What ends at the start of a line does so after any front. -/
theorem AtLineStart.of_append {a b : Text} (h : AtLineStart (a ++ b)) : AtLineStart b := by
  by_cases hb : b = []
  · exact .inl hb
  · rcases h with h | h
    · exact absurd (List.append_eq_nil_iff.mp h).2 hb
    · exact .inr (by rwa [endsWithNewline_append hb] at h)

/-- Ending the last line changes nothing at the start of a line. -/
theorem close_of_atLineStart {t : Text} (h : AtLineStart t) : close t = t :=
  if_pos h

/-- Only the last part of a text needs its line ended. -/
theorem close_append {a b : Text} (h : AtLineStart a) : close (a ++ b) = a ++ close b := by
  by_cases hb : b = []
  · subst hb
    simpa [close] using close_of_atLineStart h
  · simp only [close, endsWithNewline_append hb, List.append_eq_nil_iff, hb, and_false, false_or]
    split <;> simp

/-- A piece of a line becomes a line. -/
theorem close_body {body : Text} (h : '\n' ∉ body) (hne : body ≠ []) :
    close body = body ++ ['\n'] := by
  simp [close, hne, endsWithNewline_of_not_mem h]

/-- A closed text is at the start of a line. -/
theorem atLineStart_close (t : Text) : AtLineStart (close t) := by
  unfold close
  split
  · assumption
  · exact .inr (endsWithNewline_iff.mpr ⟨t, rfl⟩)

/-- Taking off the last newline is the same before and after the last line is ended. -/
theorem dropFinalNewline_eq (t : Text) : dropFinalNewline t = (close t).dropLast := by
  unfold dropFinalNewline close
  by_cases h : endsWithNewline t = true
  · simp [h]
  · by_cases hn : t = [] <;> simp [h, hn]

/-- The last newline of a text is that of its last part. -/
theorem dropFinalNewline_append (a : Text) {b : Text} (h : b ≠ []) :
    dropFinalNewline (a ++ b) = a ++ dropFinalNewline b := by
  rw [dropFinalNewline, dropFinalNewline, endsWithNewline_append h,
    List.dropLast_append_of_ne_nil h]
  split <;> rfl

/-! ## Lines -/

/-- A newline is a line of its own. -/
theorem lines_newline_cons (t : Text) : lines ('\n' :: t) = ['\n'] :: lines t := by
  simp [lines]

/-- The first newline ends the first line. -/
theorem lines_body_cons {body : Text} (h : '\n' ∉ body) (t : Text) :
    lines (body ++ '\n' :: t) = (body ++ ['\n']) :: lines t := by
  induction body with
  | nil => exact lines_newline_cons t
  | cons c body ih =>
      obtain ⟨hc, hbody⟩ := not_or.mp (mt List.mem_cons.mpr h)
      rw [List.cons_append, lines, if_neg (Ne.symm hc), ih hbody]
      rfl

/-- A text without newlines is one line. -/
theorem lines_body {body : Text} (h : '\n' ∉ body) (hne : body ≠ []) : lines body = [body] := by
  induction body with
  | nil => exact absurd rfl hne
  | cons c body ih =>
      obtain ⟨hc, hbody⟩ := not_or.mp (mt List.mem_cons.mpr h)
      rw [lines, if_neg (Ne.symm hc)]
      by_cases hb : body = []
      · subst hb
        rfl
      · rw [ih hbody hb]

/-- Every text is read line by line: it is empty, or one line without a newline, or a body and a
newline before a text. -/
theorem line_induction {motive : Text → Prop} (nil : motive [])
    (last : ∀ body, '\n' ∉ body → body ≠ [] → motive body)
    (cons : ∀ body rest, '\n' ∉ body → motive rest → motive (body ++ '\n' :: rest)) (t : Text) :
    motive t := by
  induction hn : t.length using Nat.strongRecOn generalizing t with
  | _ n ih =>
      by_cases hmem : '\n' ∈ t
      · obtain ⟨body, rest, rfl, hbody⟩ := List.eq_append_cons_of_mem hmem
        refine cons body rest hbody (ih rest.length ?_ rest rfl)
        simp only [List.length_append, List.length_cons] at hn
        omega
      · by_cases hne : t = []
        · subst hne
          exact nil
        · exact last t hmem hne

/-- The lines of two texts, the second of which begins on a new line. -/
theorem lines_append {a : Text} (h : AtLineStart a) (b : Text) :
    lines (a ++ b) = lines a ++ lines b := by
  induction a using line_induction with
  | nil => rfl
  | last body hbody hne =>
      rcases h with h | h
      · exact absurd h hne
      · rw [endsWithNewline_of_not_mem hbody] at h
        cases h
  | cons body rest hbody ih =>
      have hrest : AtLineStart rest :=
        AtLineStart.of_append (a := body ++ ['\n']) (by simpa using h)
      rw [List.append_assoc, List.cons_append, lines_body_cons hbody, lines_body_cons hbody,
        ih hrest]
      rfl

/-- Some of the lines of a text are the lines of the text that they make up. -/
theorem lines_flatten_filter (p : Text → Bool) (t : Text) :
    lines ((lines t).filter p).flatten = (lines t).filter p := by
  induction t using line_induction with
  | nil => rfl
  | last body hbody hsome =>
      rw [lines_body hbody hsome]
      cases hp : p body
      · simp [hp, lines]
      · simp [hp, lines_body hbody hsome]
  | cons body rest hbody ih =>
      rw [lines_body_cons hbody, List.filter_cons]
      split
      · rw [List.flatten_cons, List.append_assoc]
        exact (lines_body_cons hbody _).trans (congrArg _ ih)
      · exact ih

/-! ## Bodies -/

/-- The empty text has no lines. -/
@[simp] theorem bodies_nil : bodies [] = [] := rfl

/-- A text without newlines is its only body. -/
theorem bodies_body {body : Text} (h : '\n' ∉ body) (hne : body ≠ []) : bodies body = [body] := by
  simp [bodies, lines_body h hne, dropFinalNewline, endsWithNewline_of_not_mem h]

/-- The first newline ends the first body. -/
theorem bodies_cons {body : Text} (h : '\n' ∉ body) (t : Text) :
    bodies (body ++ '\n' :: t) = body :: bodies t := by
  have hend : endsWithNewline (body ++ ['\n']) = true := endsWithNewline_iff.mpr ⟨body, rfl⟩
  simp [bodies, lines_body_cons h, dropFinalNewline, hend]

/-- The bodies of two texts, the second of which begins on a new line. -/
theorem bodies_append {a : Text} (h : AtLineStart a) (b : Text) :
    bodies (a ++ b) = bodies a ++ bodies b := by
  simp [bodies, lines_append h]

/-- Only the empty text has no bodies. -/
@[simp] theorem bodies_eq_nil_iff {t : Text} : bodies t = [] ↔ t = [] := by
  constructor
  · intro h
    rw [← flatten_lines t, List.map_eq_nil_iff.mp h]
    rfl
  · rintro rfl
    rfl

/-- A body is a part of the text that begins where a line does. -/
theorem exists_of_mem_bodies {t body : Text} (h : body ∈ bodies t) :
    ∃ front rest, t = front ++ body ++ rest ∧ AtLineStart front := by
  induction t using line_induction with
  | nil => cases h
  | last first hfirst hne =>
      rw [bodies_body hfirst hne, List.mem_singleton] at h
      subst h
      exact ⟨[], [], by simp, .inl rfl⟩
  | cons first rest hfirst ih =>
      rw [bodies_cons hfirst, List.mem_cons] at h
      rcases h with rfl | h
      · exact ⟨[], '\n' :: rest, by simp, .inl rfl⟩
      · obtain ⟨front, behind, rfl, hfront⟩ := ih h
        refine ⟨(first ++ ['\n']) ++ front, behind, by simp, ?_⟩
        exact AtLineStart.append (.inr (endsWithNewline_iff.mpr ⟨first, rfl⟩)) hfront

/-- No body holds a newline. -/
theorem newline_not_mem_of_mem_bodies {t body : Text} (h : body ∈ bodies t) : '\n' ∉ body := by
  induction t using line_induction with
  | nil => cases h
  | last first hfirst hne =>
      rw [bodies_body hfirst hne, List.mem_singleton] at h
      rwa [h]
  | cons first rest hfirst ih =>
      rw [bodies_cons hfirst, List.mem_cons] at h
      rcases h with rfl | h
      · exact hfirst
      · exact ih h

/-- A line with a newline before the others. -/
@[simp] theorem unlines_cons (row : Text) (rows : List Text) :
    unlines (row :: rows) = row ++ '\n' :: unlines rows := by
  simp [unlines]

/-- No lines make the empty text. -/
@[simp] theorem unlines_nil : unlines [] = [] := rfl

/-- Only no lines make the empty text. -/
@[simp] theorem unlines_eq_nil_iff {rows : List Text} : unlines rows = [] ↔ rows = [] := by
  cases rows <;> simp

/-- Lines can be written one group after the other. -/
@[simp] theorem unlines_append (a b : List Text) : unlines (a ++ b) = unlines a ++ unlines b := by
  simp [unlines]

/-- Ended lines end at the start of a line. -/
theorem atLineStart_unlines (rows : List Text) : AtLineStart (unlines rows) := by
  induction rows with
  | nil => exact .inl rfl
  | cons row rows ih =>
      rw [unlines_cons, show row ++ '\n' :: unlines rows = (row ++ ['\n']) ++ unlines rows by simp]
      exact AtLineStart.append (.inr (endsWithNewline_iff.mpr ⟨row, rfl⟩)) ih

/-- Ended lines are the lines that they are written from. -/
theorem lines_unlines {rows : List Text} (h : ∀ row ∈ rows, '\n' ∉ row) :
    lines (unlines rows) = rows.map (· ++ ['\n']) := by
  induction rows with
  | nil => rfl
  | cons row rows ih =>
      obtain ⟨hrow, hrest⟩ := List.forall_mem_cons.mp h
      rw [unlines_cons, lines_body_cons hrow, ih hrest, List.map_cons]

/-- Writing every body as an ended line ends the last line of the text. -/
theorem unlines_bodies (t : Text) : unlines (bodies t) = close t := by
  induction t using line_induction with
  | nil => rfl
  | last body hbody hne =>
      rw [bodies_body hbody hne, close_body hbody hne]
      simp
  | cons body rest hbody ih =>
      have hstart : AtLineStart (body ++ ['\n']) := .inr (endsWithNewline_iff.mpr ⟨body, rfl⟩)
      rw [bodies_cons hbody, unlines_cons, ih,
        show body ++ '\n' :: rest = (body ++ ['\n']) ++ rest by simp, close_append hstart]
      simp

/-- When the last line is ended, every line is a body and a newline. -/
theorem lines_close (t : Text) : lines (close t) = (bodies t).map (· ++ ['\n']) := by
  rw [← unlines_bodies, lines_unlines fun row ↦ newline_not_mem_of_mem_bodies]

/-- The bodies of ended lines followed by a text. -/
theorem bodies_unlines_append {rows : List Text} (h : ∀ row ∈ rows, '\n' ∉ row) (t : Text) :
    bodies (unlines rows ++ t) = rows ++ bodies t := by
  induction rows with
  | nil => rfl
  | cons row rows ih =>
      rw [unlines_cons, List.append_assoc, List.cons_append, bodies_cons (h row (by simp)),
        ih fun other hother ↦ h other (List.mem_cons_of_mem row hother)]
      rfl

/-- A text has the same bodies when its last line is ended. -/
theorem bodies_close (t : Text) : bodies (close t) = bodies t := by
  rw [← unlines_bodies]
  simpa using bodies_unlines_append (fun row ↦ newline_not_mem_of_mem_bodies (t := t)) []

/-! ## Assembling bodies -/

/-- Lines of which the last one is not ended. -/
theorem assemble_open_concat (rows : List Text) (last : Text) :
    assemble false (rows ++ [last]) = unlines rows ++ last := by
  simp [assemble, List.dropLast_append_of_ne_nil]

/-- No lines make the empty text. -/
@[simp] theorem assemble_nil (closed : Bool) : assemble closed [] = [] := by
  cases closed <;> rfl

/-- A text is assembled from its bodies and its ending. -/
theorem assemble_bodies (t : Text) : assemble (endsWithNewline t) (bodies t) = t := by
  unfold assemble
  rw [unlines_bodies]
  unfold close
  split
  · next h => simp [h]
  · next h =>
      by_cases hne : t = []
      · simp [hne]
      · simp [hne, h]

/-- The bodies of an assembled text, which has no empty line that is not ended. -/
theorem bodies_assemble {closed : Bool} {rows : List Text} (hrows : ∀ row ∈ rows, '\n' ∉ row)
    (hlast : closed = false → rows.getLast? ≠ some []) : bodies (assemble closed rows) = rows := by
  cases closed with
  | true => simpa [assemble] using bodies_unlines_append hrows []
  | false =>
      rcases List.eq_nil_or_concat rows with rfl | ⟨front, last, rfl⟩
      · rfl
      · have hne : last ≠ [] := by simpa using hlast rfl
        rw [List.concat_eq_append] at hrows ⊢
        rw [assemble_open_concat, bodies_unlines_append fun row hrow ↦ hrows row (by simp [hrow]),
          bodies_body (hrows last (by simp)) hne]

/-- Lines that are all ended are the lines of which the last one is not ended, and a newline. -/
theorem assemble_closed {rows : List Text} (h : rows ≠ []) :
    assemble true rows = assemble false rows ++ ['\n'] := by
  obtain ⟨front, last, rfl⟩ := List.eq_nil_or_concat rows |>.resolve_left h
  rw [List.concat_eq_append, assemble_open_concat]
  simp [assemble]

/-- An assembled text has its bodies, except for an empty one at the end that is not ended. -/
theorem filter_bodies_assemble (closed : Bool) {rows : List Text}
    (hrows : ∀ row ∈ rows, '\n' ∉ row) :
    (bodies (assemble closed rows)).filter (· ≠ []) = rows.filter (· ≠ []) := by
  by_cases hlast : closed = false ∧ rows.getLast? = some []
  · obtain ⟨rfl, hnil⟩ := hlast
    obtain ⟨front, rfl⟩ := List.getLast?_eq_some_iff.mp hnil
    have hfront : ∀ row ∈ front, '\n' ∉ row := fun row hrow ↦ hrows row (by simp [hrow])
    rw [assemble_open_concat, bodies_unlines_append hfront]
    simp
  · rw [bodies_assemble hrows fun hopen hnil ↦ hlast ⟨hopen, hnil⟩]

/-- An assembled text with a line ends with a newline when it is closed. -/
theorem endsWithNewline_assemble {closed : Bool} {rows : List Text}
    (hrows : ∀ row ∈ rows, '\n' ∉ row) (hsome : closed = true → rows ≠ [])
    (hlast : closed = false → rows.getLast? ≠ some []) :
    endsWithNewline (assemble closed rows) = closed := by
  cases closed with
  | true =>
      rcases atLineStart_unlines rows with h | h
      · exact absurd (unlines_eq_nil_iff.mp h) (hsome rfl)
      · exact h
  | false =>
      rcases List.eq_nil_or_concat rows with rfl | ⟨front, last, rfl⟩
      · rfl
      · have hne : last ≠ [] := by simpa using hlast rfl
        rw [List.concat_eq_append] at hrows ⊢
        rw [assemble_open_concat, endsWithNewline_append hne,
          endsWithNewline_of_not_mem (hrows last (by simp))]

/-- The last line of a text that ends without a newline is not empty. -/
theorem getLast?_bodies_ne {t : Text} (h : endsWithNewline t = false) :
    (bodies t).getLast? ≠ some [] := by
  intro hlast
  obtain ⟨front, hfront⟩ := List.getLast?_eq_some_iff.mp hlast
  have ht := assemble_bodies t
  rw [h, hfront, assemble_open_concat, List.append_nil] at ht
  rcases atLineStart_unlines front with hnil | hend
  · rw [ht] at hnil
    simp [hnil] at hfront
  · rw [ht, h] at hend
    cases hend

/-- What holds no newline is a part of a line when it is a part of its body. -/
theorem infix_line_iff {needle body : Text} (h : '\n' ∉ needle) :
    needle <:+: body ++ ['\n'] ↔ needle <:+: body := by
  rw [List.infix_concat_iff, List.suffix_concat_iff]
  constructor
  · rintro ((rfl | ⟨front, rfl, -⟩) | hpart)
    · exact List.nil_infix
    · simp at h
    · exact hpart
  · exact .inr

/-- Whole lines and a last line that is not ended are the lines of the text. -/
theorem lines_unlines_append {rows : List Text} (hrows : ∀ row ∈ rows, '\n' ∉ row) {last : Text}
    (hlast : '\n' ∉ last) (hne : last ≠ []) :
    lines (unlines rows ++ last) = rows.map (· ++ ['\n']) ++ [last] := by
  rw [lines_append (atLineStart_unlines rows), lines_unlines hrows, lines_body hlast hne]

/-- A text that does not end at the start of a line has a last line that is not ended, and that line
is not empty. -/
theorem exists_open_last {t : Text} (h : ¬ AtLineStart t) :
    ∃ front last, bodies t = front ++ [last] ∧ t = unlines front ++ last ∧ last ≠ [] := by
  obtain ⟨hne, hend⟩ := not_or.mp h
  have hopen : endsWithNewline t = false := by simpa using hend
  rcases List.eq_nil_or_concat (bodies t) with hnil | ⟨front, last, hconcat⟩
  · exact absurd (bodies_eq_nil_iff.mp hnil) hne
  · rw [List.concat_eq_append] at hconcat
    refine ⟨front, last, hconcat, ?_, ?_⟩
    · rw [← assemble_open_concat, ← hconcat, ← hopen, assemble_bodies]
    · have hlast := getLast?_bodies_ne hopen
      simpa [hconcat] using hlast

end Text

end MarkedEdits
