import MarkedEdits.Text.Blank
import MarkedEdits.Text.Lines

/-!
# Near misses

When a fragment does not occur in a text, the line that comes closest to it is worth showing. The
distance of a line from the fragment is the least edit distance of the fragment from the pieces of
the line that are as wide as the fragment, or from the whole line when the line is no wider. A line
is close when that distance is at most two fifths of the width.
-/

namespace MarkedEdits

namespace Text

/-- One row of the edit distance table from the row above it. `corner` is the entry above and to
the left, `left` the entry to the left, and the list holds the entries above. -/
def distanceRow (c : Char) : Text → (corner left : Nat) → List Nat → List Nat
  | d :: b, corner, left, up :: above =>
      let best := min (min (left + 1) (up + 1)) (if c = d then corner else corner + 1)
      best :: distanceRow c b up best above
  | _, _, _, _ => []

/-- The edit distance table of `b`, continued by the rows for the characters of the first text. The
entries of the last row are the distances from the initial pieces of `b`. -/
def distanceTable (b : Text) : Text → List Nat → List Nat
  | [], row => row
  | _ :: _, [] => []
  | c :: a, corner :: above =>
      distanceTable b a ((corner + 1) :: distanceRow c b corner (corner + 1) above)

/-- The least number of insertions, deletions and substitutions of a character that turn one text
into the other. -/
def distance (a b : Text) : Nat :=
  (distanceTable b a (List.range (b.length + 1))).getLastD 0

/-- The pieces of the text that are `width` characters wide, from left to right. -/
def windows (width : Nat) (t : Text) : List Text :=
  (List.range (t.length + 1 - width)).map fun i ↦ (t.drop i).take width

/-- The distance of the fragment from the part of the line that comes closest to it. -/
def fragmentDistance (fragment line : Text) : Nat :=
  if line.length ≤ fragment.length then distance line fragment
  else ((windows fragment.length line).map (distance · fragment)).min?.getD fragment.length

/-- The distance is at most two fifths of the width of the fragment. -/
def isClose (fragment : Text) (d : Nat) : Bool :=
  5 * d ≤ 2 * fragment.length

/-- The candidate with the least distance; of equally distant ones the last. -/
def closest : List (Text × Nat) → Option (Text × Nat)
  | [] => none
  | candidate :: rest =>
      match closest rest with
      | some best => if candidate.2 < best.2 then some candidate else some best
      | none => some candidate

/-- The trimmed line of the text that comes closest to the trimmed fragment, if one is close. -/
def suggestLine (t fragment : Text) : Option Text :=
  let fragment := trim fragment
  if fragment = [] then none
  else
    let candidates := ((lines t).map trim).filter (· ≠ [])
    let scored := candidates.map fun line ↦ (line, fragmentDistance fragment line)
    (closest (scored.filter fun scored ↦ isClose fragment scored.2)).map (·.1)

end Text

end MarkedEdits
