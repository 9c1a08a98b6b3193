import MarkedEdits.Text.Lines

/-!
# Marked lines

A marker is a text that stands at the start of a line. `comment` puts a marker before every line,
`uncomment` takes one marker off every line that has it, and `strip` deletes the marked lines
altogether.

`strip` and `countMarked` scan the text from left to right for runs that begin at the start of a
line with the marker and reach to the end of a line. For a marker that is neither empty nor holds a
newline these runs are the lines that begin with the marker.
-/

namespace MarkedEdits

namespace Marker

/-- The text with the marker before every line and a newline after every line. -/
def comment (marker t : Text) : Text :=
  (Text.lines t).flatMap fun line ↦ marker ++ Text.terminated line

/-- The line without one leading marker, if it has one. -/
def unmark (marker line : Text) : Text :=
  if marker.isPrefixOf line then line.drop marker.length else line

/-- The text with one leading marker taken off every line that has it. -/
def uncomment (marker t : Text) : Text :=
  (Text.lines t).flatMap (unmark marker)

/-- What follows a marked run that begins with the first character of a text is shorter than the
text. -/
theorem length_afterRun_lt (marker : Text) (c : Char) (t : Text) :
    (Text.dropLine ((c :: t).drop marker.length)).length < (c :: t).length := by
  cases marker with
  | nil => simpa using Text.length_dropLine_lt c t
  | cons m marker =>
      have := Text.length_dropLine_le (t.drop marker.length)
      simp only [List.length_cons, List.drop_succ_cons, List.length_drop] at *
      omega

/-- What remains of a text without its marked runs. The flag says whether the text begins at the
start of a line. -/
def stripFrom (marker : Text) (atStart : Bool) (t : Text) : Text :=
  match t with
  | [] => []
  | c :: rest =>
      if atStart && marker.isPrefixOf (c :: rest) then
        stripFrom marker true (Text.dropLine ((c :: rest).drop marker.length))
      else c :: stripFrom marker (c == '\n') rest
termination_by t.length
decreasing_by
  · exact length_afterRun_lt marker c rest
  · simp

/-- The number of marked runs of a text. The flag says whether the text begins at the start of a
line. -/
def countFrom (marker : Text) (atStart : Bool) (t : Text) : Nat :=
  match t with
  | [] => 0
  | c :: rest =>
      if atStart && marker.isPrefixOf (c :: rest) then
        countFrom marker true (Text.dropLine ((c :: rest).drop marker.length)) + 1
      else countFrom marker (c == '\n') rest
termination_by t.length
decreasing_by
  · exact length_afterRun_lt marker c rest
  · simp

/-- The text without its marked runs. -/
def strip (marker t : Text) : Text :=
  stripFrom marker true t

/-- The number of marked runs. An empty marker has one, empty run in the empty text. -/
def countMarked (marker t : Text) : Nat :=
  if marker = [] ∧ t = [] then 1 else countFrom marker true t

end Marker

end MarkedEdits
