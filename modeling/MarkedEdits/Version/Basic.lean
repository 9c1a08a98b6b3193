import MarkedEdits.Version.Part

/-!
# Versions

A version has three numbers, the segments of a pre-release and the segments of build metadata. A
version with a pre-release comes before the version without; of two pre-releases the order is
decided by the first segment in which they differ.
-/

namespace MarkedEdits

/-- A semantic version. The lists are empty when there is no pre-release or no build metadata. -/
structure Version where
  major : Nat
  minor : Nat
  patch : Nat
  pre : List Text := []
  build : List Text := []
  deriving DecidableEq, Repr

namespace Version

/-- The identifier after its sign, or nothing when it has no segments. -/
def renderMarked (sign : Char) (segments : List Text) : Text :=
  if segments = [] then [] else sign :: Text.join '.' segments

/-- The version as a text. -/
def render (version : Version) : Text :=
  digitsOf version.major ++ '.' :: digitsOf version.minor ++ '.' :: digitsOf version.patch ++
    renderMarked '-' version.pre ++ renderMarked '+' version.build

/-- Compares two segments of pre-releases. Numeric segments come first and are compared by value,
the others by the code points of their characters. -/
def compareSegment (a b : Text) : Ordering :=
  match a.all Char.isDigit, b.all Char.isDigit with
  | true, true => compare (numberOf a) (numberOf b)
  | true, false => .lt
  | false, true => .gt
  | false, false => if a = b then .eq else if a < b then .lt else .gt

/-- Compares the segments of two pre-releases. Of two that agree as far as both go, the longer one
is greater. -/
def compareSegments : List Text → List Text → Ordering
  | [], [] => .eq
  | [], _ :: _ => .lt
  | _ :: _, [] => .gt
  | a :: as, b :: bs => (compareSegment a b).then (compareSegments as bs)

/-- Compares two pre-releases. Having none is greatest. -/
def comparePre (a b : List Text) : Ordering :=
  match a, b with
  | [], [] => .eq
  | [], _ :: _ => .gt
  | _ :: _, [] => .lt
  | a, b => compareSegments a b

/-- The last part that a version with these identifiers has. -/
def lastPart (hasPre hasBuild : Bool) : Part :=
  if hasBuild then .build else if hasPre then .pre else .patch

/-- The version that the whole text denotes. -/
def parse (t : Text) : Except Fault Version := do
  if t = [] then throw .empty
  let (major, rest) ← readNumber .major t
  let (minor, rest) ← readNumber .minor (← readDot .major rest)
  let (patch, rest) ← readNumber .patch (← readDot .minor rest)
  let (pre, rest) ← readMarked '-' .pre rest
  let (build, rest) ← readMarked '+' .build rest
  match rest with
  | [] => return { major, minor, patch, pre, build }
  | c :: _ => throw (.unexpectedCharAfter (lastPart (pre ≠ []) (build ≠ [])) c)

end Version

end MarkedEdits
