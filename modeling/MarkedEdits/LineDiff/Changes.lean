import MarkedEdits.LineDiff.Slide

/-!
# Changes between two texts

The changes between two texts are their lines in the order of reading, each marked as kept, deleted
or inserted. Where lines are changed the deleted ones come first. A line ends with a newline, with a
carriage return, or with both.
-/

namespace MarkedEdits

namespace LineDiff

/-- The lines of the text with their ends. -/
def rows : Text → List Text
  | [] => []
  | '\r' :: '\n' :: t => ['\r', '\n'] :: rows t
  | c :: t =>
      if c = '\n' ∨ c = '\r' then [c] :: rows t
      else
        match rows t with
        | [] => [[c]]
        | row :: rest => (c :: row) :: rest

/-- The text ends with the end of a line. -/
def isEnded (row : Text) : Bool :=
  row.getLast? == some '\n' || row.getLast? == some '\r'

/-- The lines make up the text. -/
@[simp] theorem flatten_rows (t : Text) : (rows t).flatten = t := by
  fun_induction rows t <;> simp_all

/-- A line with what becomes of it. -/
structure Change where
  kind : Kind
  row : Text
  deriving DecidableEq, Repr

/-- The changes with the insertions of each run after its deletions. The rows are those inserted so
far in the present run. -/
def deletionsFirst (inserted : List Text) : List Change → List Change
  | [] => inserted.map (⟨.insert, ·⟩)
  | ⟨.keep, row⟩ :: rest =>
      inserted.map (⟨.insert, ·⟩) ++ ⟨.keep, row⟩ :: deletionsFirst [] rest
  | ⟨.delete, row⟩ :: rest => ⟨.delete, row⟩ :: deletionsFirst inserted rest
  | ⟨.insert, row⟩ :: rest => deletionsFirst (inserted ++ [row]) rest

/-- The changes that make the first text into the second. -/
def changes (old new : Text) : List Change :=
  deletionsFirst [] ((settle (script (rows old) (rows new))).flatMap fun step ↦
    step.lines.map (⟨step.kind, ·⟩))

/-- Which lines are changed or follow a changed line at a distance of at most `reach`. The first
`left` lines count as such. -/
def following (reach left : Nat) : List Change → List Bool
  | [] => []
  | change :: rest =>
      if change.kind = .keep then decide (0 < left) :: following reach (left - 1) rest
      else true :: following reach reach rest

/-- The changed lines, with the kept lines at a distance of at most `reach` from one of them. -/
def context (reach : Nat) (changes : List Change) : List Change :=
  let after := following reach 0 changes
  let before := (following reach 0 changes.reverse).reverse
  (changes.zip (after.zip before)).filterMap fun (change, isAfter, isBefore) ↦
    if isAfter || isBefore then some change else none

end LineDiff

end MarkedEdits
