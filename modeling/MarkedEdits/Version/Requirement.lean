import MarkedEdits.Version.Basic

/-!
# Version requirements

A requirement is a list of comparators, and a version satisfies it when it satisfies each of them.
A version with a pre-release moreover needs a comparator that names a pre-release of the very same
three numbers. Without comparators every version without a pre-release is admitted.
-/

namespace MarkedEdits

namespace Version

/-- How a comparator compares. A wildcard compares the numbers that are given. -/
inductive Operator where
  | exact
  | greater
  | greaterEq
  | less
  | lessEq
  | tilde
  | caret
  | wildcard
  deriving DecidableEq, Repr

/-- How the operator is written. -/
def Operator.symbol : Operator → Text
  | exact => ['=']
  | greater => ['>']
  | greaterEq => ['>', '=']
  | less => ['<']
  | lessEq => ['<', '=']
  | tilde => ['~']
  | caret => ['^']
  | wildcard => []

/-- An operator with a version of which the last numbers may be left out. -/
structure Comparator where
  operator : Operator
  major : Nat
  minor : Option Nat
  patch : Option Nat
  pre : List Text
  deriving DecidableEq, Repr

/-- A requirement admits the versions that satisfy all its comparators. -/
abbrev Requirement := List Comparator

namespace Comparator

/-- The comparator as a text. Build metadata is not part of it. -/
def render (c : Comparator) : Text :=
  let star : Text := if c.operator = .wildcard then ['.', '*'] else []
  let numbers : Text :=
    match c.minor, c.patch with
    | none, _ => star
    | some minor, none => '.' :: digitsOf minor ++ star
    | some minor, some patch =>
        '.' :: digitsOf minor ++ '.' :: digitsOf patch ++ renderMarked '-' c.pre
  c.operator.symbol ++ digitsOf c.major ++ numbers

/-- The numbers that are given are those of the version, and so is the pre-release. -/
def matchesExact (c : Comparator) (v : Version) : Bool :=
  v.major = c.major && c.minor.all (v.minor = ·) && c.patch.all (v.patch = ·) && v.pre = c.pre

/-- The first given part in which the version differs decides, in favour of the version when it
compares to the comparator as `wanted`. Once a number is not given nothing is left to decide. -/
def matchesOrdered (wanted : Ordering) (c : Comparator) (v : Version) : Bool :=
  if v.major ≠ c.major then compare v.major c.major == wanted
  else
    match c.minor with
    | none => false
    | some minor =>
        if v.minor ≠ minor then compare v.minor minor == wanted
        else
          match c.patch with
          | none => false
          | some patch =>
              if v.patch ≠ patch then compare v.patch patch == wanted
              else comparePre v.pre c.pre == wanted

/-- The given major and minor numbers are those of the version, and the rest is no less. -/
def matchesTilde (c : Comparator) (v : Version) : Bool :=
  if v.major ≠ c.major ∨ c.minor.any (v.minor ≠ ·) then false
  else
    match c.patch with
    | some patch =>
        if v.patch ≠ patch then patch < v.patch else comparePre v.pre c.pre != .lt
    | none => comparePre v.pre c.pre != .lt

/-- The version is no less, and agrees up to the leftmost number that is not zero. -/
def matchesCaret (c : Comparator) (v : Version) : Bool :=
  if v.major ≠ c.major then false
  else
    match c.minor, c.patch with
    | none, _ => true
    | some minor, none => if 0 < c.major then minor ≤ v.minor else v.minor = minor
    | some minor, some patch =>
        if 0 < c.major ∧ v.minor ≠ minor then minor < v.minor
        else if v.minor ≠ minor then false
        else if (0 < c.major ∨ 0 < minor) ∧ v.patch ≠ patch then patch < v.patch
        else if v.patch ≠ patch then false
        else comparePre v.pre c.pre != .lt

/-- The version satisfies the comparator. -/
def admits (c : Comparator) (v : Version) : Bool :=
  match c.operator with
  | .exact | .wildcard => c.matchesExact v
  | .greater => c.matchesOrdered .gt v
  | .greaterEq => c.matchesExact v || c.matchesOrdered .gt v
  | .less => c.matchesOrdered .lt v
  | .lessEq => c.matchesExact v || c.matchesOrdered .lt v
  | .tilde => c.matchesTilde v
  | .caret => c.matchesCaret v

/-- The comparator names a pre-release of the numbers of the version. -/
def namesPreOf (c : Comparator) (v : Version) : Bool :=
  c.major = v.major && c.minor = some v.minor && c.patch = some v.patch && c.pre ≠ []

/-- The wildcard at the front of the text. -/
def readWildcard : Text → Option (Char × Text)
  | c :: rest => if c = '*' ∨ c = 'x' ∨ c = 'X' then some (c, rest) else none
  | [] => none

/-- The operator at the front of the text, when one is written there. -/
def readOperator : Text → Option Operator × Text
  | '=' :: rest => (some .exact, rest)
  | '>' :: '=' :: rest => (some .greaterEq, rest)
  | '>' :: rest => (some .greater, rest)
  | '<' :: '=' :: rest => (some .lessEq, rest)
  | '<' :: rest => (some .less, rest)
  | '~' :: rest => (some .tilde, rest)
  | '^' :: rest => (some .caret, rest)
  | t => (none, t)

/-- The text without its leading spaces. -/
def dropSpaces (t : Text) : Text :=
  t.dropWhile (· == ' ')

/-- What stands for a number that may be left out. -/
inductive Slot where
  | absent
  | wildcard
  | number (n : Nat)
  deriving DecidableEq, Repr

/-- The number that is given. -/
def Slot.number? : Slot → Option Nat
  | number n => some n
  | absent | wildcard => none

/-- A dot and a number or a wildcard, when the text goes on with a dot. After a wildcard no number
may follow. -/
def readSlot (part : Part) (before : Slot) : Text → Except Fault (Slot × Text)
  | '.' :: rest =>
      match readWildcard rest with
      | some (_, rest) => .ok (.wildcard, rest)
      | none =>
          if before = .wildcard then .error .afterWildcard
          else (readNumber part rest).map fun (n, rest) ↦ (.number n, rest)
  | rest => .ok (.absent, rest)

/-- The comparator at the front of the text, the last part it has, and what follows it and the
spaces after it. -/
def read (t : Text) : Except Fault (Comparator × Part × Text) := do
  let (written, rest) := readOperator t
  let (major, rest) ← readNumber .major (dropSpaces rest)
  let (minor, rest) ← readSlot .minor .absent rest
  let (patch, rest) ← readSlot .patch minor rest
  let full := patch.number?.isSome
  let (pre, rest) ← if full then readMarked '-' .pre rest else pure ([], rest)
  let (build, rest) ← if full then readMarked '+' .build rest else pure ([], rest)
  let wild := minor = .wildcard ∨ patch = .wildcard
  let operator := written.getD (if wild then .wildcard else .caret)
  let last :=
    if full then lastPart (pre ≠ []) (build ≠ [])
    else if patch ≠ .absent then .patch else if minor ≠ .absent then .minor else .major
  return (⟨operator, major, minor.number?, patch.number?, pre⟩, last, dropSpaces rest)

end Comparator

namespace Requirement

/-- The most comparators of a requirement. -/
def maxComparators : Nat := 32

/-- The requirement as a text. -/
def render (requirement : Requirement) : Text :=
  match requirement with
  | [] => ['*']
  | first :: rest => first.render ++ rest.flatMap fun c ↦ ',' :: ' ' :: c.render

/-- The version satisfies the requirement. -/
def admits (requirement : Requirement) (v : Version) : Bool :=
  requirement.all (·.admits v) && (v.pre = [] || requirement.any (·.namesPreOf v))

/-- A fault in a comparator that begins with a wildcard and ends there is that the wildcard is not
alone. -/
def refineFault (t : Text) (fault : Fault) : Fault :=
  match Comparator.readWildcard t with
  | none => fault
  | some (c, rest) =>
      match Comparator.dropSpaces rest with
      | [] | ',' :: _ => .wildcardNotAlone c
      | _ => fault

/-- The comparators of the whole text, of which there may be `budget` more. -/
def readAll : (budget : Nat) → Text → Except Fault Requirement
  | 0, _ => .error .tooManyComparators
  | budget + 1, t => do
      let (comparator, last, rest) ← (Comparator.read t).mapError (refineFault t)
      match rest with
      | [] => return [comparator]
      | ',' :: rest => return comparator :: (← readAll budget (Comparator.dropSpaces rest))
      | c :: _ => throw (.expectedComma last c)

/-- The requirement that the whole text denotes. -/
def parse (t : Text) : Except Fault Requirement :=
  let t := Comparator.dropSpaces t
  match Comparator.readWildcard t with
  | none => readAll maxComparators t
  | some (c, rest) =>
      match Comparator.dropSpaces rest with
      | [] => .ok []
      | ',' :: _ => .error (.wildcardNotAlone c)
      | _ => .error .afterWildcard

end Requirement

end Version

end MarkedEdits
