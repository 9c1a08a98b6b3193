import MarkedEdits.Text.Search

/-!
# Lines

A line is a maximal piece of a text that holds a newline at most as its last character, so the
lines of a text concatenate to the text (`flatten_lines`) and only the last one may lack its
newline. Only `'\n'` ends a line.
-/

namespace MarkedEdits

namespace Text

/-- The lines of the text, newlines included. -/
def lines : Text → List Text
  | [] => []
  | c :: t =>
      if c = '\n' then [c] :: lines t
      else
        match lines t with
        | [] => [[c]]
        | line :: rest => (c :: line) :: rest

/-- What follows the first line. -/
def dropLine : Text → Text
  | [] => []
  | c :: t => if c = '\n' then t else dropLine t

/-- The text ends with a newline. -/
def endsWithNewline (t : Text) : Bool :=
  t.getLast? == some '\n'

/-- The line with its newline, which is added when it is missing. -/
def terminated (line : Text) : Text :=
  if endsWithNewline line then line else line ++ ['\n']

/-- The text without its last newline, when it ends with one. -/
def dropFinalNewline (t : Text) : Text :=
  if endsWithNewline t then t.dropLast else t

/-- The start of the line that holds the offset; zero when the offset is no boundary. -/
def lineStart (t : Text) (pos : Nat) : Nat :=
  match rfindWithin t ['\n'] pos with
  | some newline => newline + 1
  | none => 0

/-- The end of the line that holds the offset, its newline included; the end of the text when no
newline follows or the offset is no boundary. -/
def lineEnd (t : Text) (pos : Nat) : Nat :=
  match findFrom t ['\n'] pos with
  | some newline => newline + 1
  | none => size t

/-- The number of newlines that begin before the offset. -/
def newlinesBefore : Text → Nat → Nat
  | [], _ => 0
  | c :: t, pos =>
      if pos = 0 then 0
      else (if c = '\n' then 1 else 0) + newlinesBefore t (pos - c.utf8Size)

/-- The number of the line that holds the offset, counted from one. Offsets past the end belong to
the last line. -/
def lineNumber (t : Text) (pos : Nat) : Nat :=
  newlinesBefore t pos + 1

/-- The lines make up the text. -/
@[simp] theorem flatten_lines (t : Text) : (lines t).flatten = t := by
  induction t with
  | nil => rfl
  | cons c t ih =>
      by_cases h : c = '\n'
      · simp [lines, h, ih]
      · rw [lines, if_neg h]
        cases hl : lines t with
        | nil => simp_all
        | cons line rest => simp_all

/-- No line is empty. -/
theorem ne_nil_of_mem_lines {t line : Text} (h : line ∈ lines t) : line ≠ [] := by
  induction t generalizing line with
  | nil => simp [lines] at h
  | cons c t ih =>
      by_cases hc : c = '\n'
      · simp only [lines, hc, if_true, List.mem_cons] at h
        rcases h with rfl | h
        · simp
        · exact ih h
      · rw [lines, if_neg hc] at h
        cases hl : lines t with
        | nil => simp_all
        | cons first rest =>
            simp only [hl, List.mem_cons] at h
            rcases h with rfl | h
            · simp
            · exact ih (by simp [hl, h])

/-- Dropping a line does not lengthen a text. -/
theorem length_dropLine_le (t : Text) : (dropLine t).length ≤ t.length := by
  induction t with
  | nil => simp [dropLine]
  | cons c t ih =>
      by_cases h : c = '\n'
      · simp [dropLine, h]
      · simp only [dropLine, h, if_false, List.length_cons]
        omega

/-- Dropping a line shortens a text that is not empty. -/
theorem length_dropLine_lt (c : Char) (t : Text) : (dropLine (c :: t)).length < (c :: t).length := by
  have := length_dropLine_le t
  by_cases h : c = '\n'
  · simp [dropLine, h]
  · simp only [dropLine, h, if_false, List.length_cons]
    omega

end Text

end MarkedEdits
