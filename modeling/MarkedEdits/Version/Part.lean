import MarkedEdits.Text.Quoted
import MarkedEdits.Text.Split

/-!
# Parts of a version

A version is made up of numbers below two to the power of 64, written without leading zeros, and of
dot-separated identifiers of ASCII letters, digits and hyphens. Reading a part takes it from the
front of a text and returns what remains.
-/

namespace MarkedEdits

namespace Version

/-- The parts of a version, as messages refer to them. -/
inductive Part where
  | major
  | minor
  | patch
  | pre
  | build
  deriving DecidableEq, Repr

/-- The name of the part. -/
def Part.name : Part → String
  | major => "major version number"
  | minor => "minor version number"
  | patch => "patch version number"
  | pre => "pre-release identifier"
  | build => "build metadata"

/-- Why a text is no version or no requirement. -/
inductive Fault where
  | empty
  | unexpectedEnd (part : Part)
  | unexpectedChar (part : Part) (c : Char)
  | unexpectedCharAfter (part : Part) (c : Char)
  | expectedComma (part : Part) (c : Char)
  | leadingZero (part : Part)
  | overflow (part : Part)
  | emptySegment (part : Part)
  | wildcardNotAlone (c : Char)
  | afterWildcard
  | tooManyComparators
  deriving DecidableEq, Repr

/-- The fault in words. -/
def Fault.message : Fault → String
  | empty => "empty string, expected a semver version"
  | unexpectedEnd part => s!"unexpected end of input while parsing {part.name}"
  | unexpectedChar part c =>
      s!"unexpected character {String.ofList (Text.quotedChar c)} while parsing {part.name}"
  | unexpectedCharAfter part c =>
      s!"unexpected character {String.ofList (Text.quotedChar c)} after {part.name}"
  | expectedComma part c =>
      s!"expected comma after {part.name}, found {String.ofList (Text.quotedChar c)}"
  | leadingZero part => s!"invalid leading zero in {part.name}"
  | overflow part => s!"value of {part.name} exceeds u64::MAX"
  | emptySegment part => s!"empty identifier segment in {part.name}"
  | wildcardNotAlone c =>
      s!"wildcard req ({c}) must be the only comparator in the version req"
  | afterWildcard => "unexpected character after wildcard in version req"
  | tooManyComparators => "excessive number of version comparators"

/-- Numbers of a version are below this bound. -/
def numberBound : Nat := UInt64.size

/-- The number that the decimal digits denote. -/
def numberOf (digits : Text) : Nat :=
  digits.foldl (fun n c ↦ 10 * n + (c.toNat - '0'.toNat)) 0

/-- The decimal digits of the number, without leading zeros. -/
def digitsOf (n : Nat) : Text :=
  Nat.toDigits 10 n

/-- The number at the front of the text. -/
def readNumber (part : Part) (t : Text) : Except Fault (Nat × Text) :=
  let digits := t.takeWhile Char.isDigit
  let rest := t.dropWhile Char.isDigit
  match digits, rest with
  | [], [] => .error (.unexpectedEnd part)
  | [], c :: _ => .error (.unexpectedChar part c)
  | first :: more, _ =>
      if first = '0' ∧ more ≠ [] then .error (.leadingZero part)
      else if numberBound ≤ numberOf digits then .error (.overflow part)
      else .ok (numberOf digits, rest)

/-- The text after the dot that must follow the part. -/
def readDot (part : Part) : Text → Except Fault Text
  | [] => .error (.unexpectedEnd part)
  | c :: rest => if c = '.' then .ok rest else .error (.unexpectedCharAfter part c)

/-- The character may stand in an identifier. -/
def isIdentifierChar (c : Char) : Bool :=
  c.isAlphanum || c == '-'

/-- What is wrong with one segment of an identifier. Only numeric pre-release segments must not
have leading zeros. -/
def segmentFault? (part : Part) (segment : Text) : Option Fault :=
  if segment = [] then some (.emptySegment part)
  else if part = .pre ∧ segment.all Char.isDigit ∧ 1 < segment.length ∧ segment.head? = some '0' then
    some (.leadingZero part)
  else none

/-- The segments of the identifier at the front of the text. -/
def readIdentifier (part : Part) (t : Text) : Except Fault (List Text × Text) :=
  let inIdentifier := fun c ↦ isIdentifierChar c || c == '.'
  let segments := Text.splitOn '.' (t.takeWhile inIdentifier)
  match segments.findSome? (segmentFault? part) with
  | some fault => .error fault
  | none => .ok (segments, t.dropWhile inIdentifier)

/-- The identifier after its sign, when the text begins with the sign; otherwise none is read. -/
def readMarked (sign : Char) (part : Part) (t : Text) : Except Fault (List Text × Text) :=
  match t with
  | c :: rest => if c = sign then readIdentifier part rest else .ok ([], t)
  | [] => .ok ([], [])

end Version

end MarkedEdits
