import MarkedEdits.Text.Basic

/-!
# The middle of a shortest script

A script that makes one list of lines into another is a path through a grid. A step along the old
lines deletes a line, a step along the new lines inserts one, and a diagonal step keeps a line that
both have. A shortest script is searched for from both ends at once. Where the paths from the two
ends meet, the grid is split in two smaller ones.
-/

namespace MarkedEdits

namespace LineDiff

/-- The number of lines that two lists have in common from the positions on. -/
def commonFrom (a b : Array Text) (x y : Nat) : Nat :=
  if h : x < a.size ∧ y < b.size then
    if a[x] = b[y] then commonFrom a b (x + 1) (y + 1) + 1 else 0
  else 0
termination_by a.size - x

/-- How many old lines the furthest path on each diagonal has passed. The number of a diagonal is
the number of old lines passed minus the number of new lines passed. -/
structure Frontier where
  offset : Nat
  reach : Array Nat

namespace Frontier

/-- The frontier for diagonals of at most this distance from the main one. -/
def ofWidth (width : Nat) : Frontier :=
  ⟨width, .replicate (2 * width + 1) 0⟩

/-- The number of old lines passed on the diagonal. -/
def get (f : Frontier) (k : Int) : Nat :=
  f.reach.getD (k + f.offset).toNat 0

/-- The frontier with another number of old lines passed on the diagonal. -/
def set (f : Frontier) (k : Int) (x : Nat) : Frontier :=
  { f with reach := f.reach.setIfInBounds (k + f.offset).toNat x }

/-- The old lines passed on the diagonal after `d` changes and before the lines in common: one more
than on the diagonal below, or as many as on the diagonal above. -/
def entry (f : Frontier) (d : Nat) (k : Int) : Nat :=
  if k = -(d : Int) ∨ (k ≠ d ∧ f.get (k - 1) < f.get (k + 1)) then f.get (k + 1)
  else f.get (k - 1) + 1

end Frontier

/-- The diagonals that a path with `d` changes may end on, the highest first. -/
def diagonals (d : Nat) : List Int :=
  (List.range (d + 1)).map fun (i : Nat) ↦ (d : Int) - 2 * i

/-- The difference of the numbers of lines, which is the diagonal of the far corner. -/
def corner (a b : Array Text) : Int :=
  (a.size : Int) - b.size

/-- Extends the paths with `d - 1` changes by one change and the lines in common after it. A path
that meets the frontier from the other end stops the search at a point: the point at which the
lines in common begin, or their end as seen from the other side. -/
def sweep (a b : Array Text) (d limit : Nat) (fromEnd : Bool) (own other : Frontier) :
    Except (Nat × Nat) Frontier :=
  (diagonals d).foldlM (fun f k ↦
    let x := f.entry d k
    let y := (x - k).toNat
    let common := commonFrom a b x y
    if (k - corner a b).natAbs < limit ∧ a.size ≤ x + common + other.get (corner a b - k) then
      .error (if fromEnd then (a.size - (x + common), b.size - (y + common)) else (x, y))
    else .ok (f.set k (x + common))) own

/-- One more change for the paths from the start and then for those from the end. On grids with an
odd corner the two kinds of paths meet after a step from the start, on others after one from the
end. -/
def round (a b : Array Text) (frontiers : Frontier × Frontier) (d : Nat) :
    Except (Nat × Nat) (Frontier × Frontier) := do
  let isOdd := corner a b % 2 ≠ 0
  let forward ← sweep a b d (if isOdd then d else 0) false frontiers.1 frontiers.2
  let backward ←
    sweep a.reverse b.reverse d (if isOdd then 0 else d + 1) true frontiers.2 forward
  return (forward, backward)

/-- The point in which the shortest paths from the two ends meet. -/
def middle? (a b : Array Text) : Option (Nat × Nat) :=
  let changes := (a.size + b.size + 1) / 2 + 1
  let start := Frontier.ofWidth (changes + 1)
  match (List.range changes).foldlM (round a b) (start, start) with
  | .error point => some point
  | .ok _ => none

end LineDiff

end MarkedEdits
