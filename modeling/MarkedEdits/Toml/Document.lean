import MarkedEdits.Toml.DateTime
import MarkedEdits.Toml.Quotes

/-!
# TOML documents

A document is a sequence of lines with a header or a pair of a key and a value, read from top to
bottom. A header opens a table of its own, which it may find there only as the parent of other
tables. A dotted key adds to tables that came about by dotted keys, and to no others.

The readers that call each other take a bound on the depth of their calls, which the length of the
text provides.
-/

namespace MarkedEdits

namespace Toml

/-- The text without leading spaces and tabs. -/
def dropSpace (t : Text) : Text :=
  t.dropWhile isSpace

/-- What follows a comment up to the end of its line. -/
def dropComment : Text → Option Text
  | [] => some []
  | '\n' :: rest => some ('\n' :: rest)
  | '\r' :: '\n' :: rest => some ('\r' :: '\n' :: rest)
  | c :: rest => if isPlain c then dropComment rest else none

/-- What follows the spaces, newlines and comments at the front of the text. The flag says whether
the text begins inside a comment. -/
def dropTrivia (inComment : Bool) : Text → Option Text
  | [] => some []
  | '\n' :: rest | '\r' :: '\n' :: rest => dropTrivia false rest
  | c :: rest =>
      if inComment then (if isPlain c then dropTrivia true rest else none)
      else if isSpace c then dropTrivia false rest
      else if c = '#' then dropTrivia true rest
      else some (c :: rest)

/-- What follows the end of the line, before which there may be spaces and a comment. -/
def dropLineEnd (t : Text) : Option Text := do
  let rest ← match dropSpace t with
    | '#' :: comment => dropComment comment
    | rest => some rest
  match rest with
  | [] => some []
  | '\n' :: rest | '\r' :: '\n' :: rest => some rest
  | _ => none

/-- The result, or the fault that the text is malformed. -/
def orMalformed {α : Type} : Option α → Except Fault α
  | some a => .ok a
  | none => .error .malformed

/-- The character may stand in a key without quotes. -/
def isBareKeyChar (c : Char) : Bool :=
  c.isAlphanum || c == '_' || c == '-'

/-- The key without dots at the front of the text, and what follows it. -/
def readSimpleKey (t : Text) : Option (Text × Text) :=
  match t with
  | '"' :: _ | '\'' :: _ => readLineString t
  | _ =>
      let key := t.takeWhile isBareKeyChar
      if key = [] then none else some (key, t.dropWhile isBareKeyChar)

/-- The parts of the dotted key at the front of the text, the last one apart, and what follows the
key and the spaces after it. -/
def readKey : (bound : Nat) → Text → Except Fault ((List Text × Text) × Text)
  | 0, _ => .error .malformed
  | bound + 1, t => do
      let (first, rest) ← orMalformed (readSimpleKey (dropSpace t))
      match dropSpace rest with
      | '.' :: rest =>
          let ((path, key), rest) ← readKey bound rest
          if maxDepth < path.length + 2 then throw .tooDeep
          return ((first :: path, key), rest)
      | rest => return (([], first), rest)

/-- Changes the table at the end of a path of keys. Tables that are missing on the way come about
as parents in a dotted key or in a header. An array of tables is entered at its last table. -/
def descend (dotted : Bool) (change : Origin → Entries → Except Fault Entries) :
    List Text → Origin → Entries → Except Fault Entries
  | [], origin, entries => change origin entries
  | key :: path, _, entries =>
      match entries.lookup key with
      | none => do
          let origin := if dotted then .dotted else .implied
          let child ← descend dotted change path origin []
          return Entries.set key (.table origin child) entries
      | some (.table origin child) =>
          if origin = .inline ∨ (dotted ∧ origin = .header) then .error (.redefined key)
          else do
            let child ← descend dotted change path origin child
            return Entries.set key (.table origin child) entries
      | some (.array true items) =>
          match items.getLast? with
          | some (.table origin child) => do
              let child ← descend dotted change path origin child
              return Entries.set key (.array true (items.dropLast ++ [.table origin child])) entries
          | _ => .error (.redefined key)
      | some _ => .error (.redefined key)

/-- The table with one more pair. A dotted key ends in a table that came about by dotted keys. -/
def addPair (path : List Text) (key : Text) (value : Value) :
    Origin → Entries → Except Fault Entries :=
  descend true (fun origin entries ↦
    if (path ≠ [] ∧ origin ≠ .dotted) ∨ (entries.lookup key).isSome then .error (.redefined key)
    else .ok (entries ++ [(key, value)])) path

/-- The document with the table that a header opens. -/
def openTable (isArray : Bool) (path : List Text) (key : Text) (root : Entries) :
    Except Fault Entries :=
  descend false (fun _ entries ↦
    match entries.lookup key, isArray with
    | none, false => .ok (Entries.set key (.table .header []) entries)
    | some (.table .implied child), false => .ok (Entries.set key (.table .header child) entries)
    | none, true => .ok (Entries.set key (.array true [.table .header []]) entries)
    | some (.array true items), true =>
        .ok (Entries.set key (.array true (items ++ [.table .header []])) entries)
    | _, _ => .error (.redefined key)) path .header root

/-- The character ends a value without quotes. -/
def endsScalar (c : Char) : Bool :=
  isSpace c || "\n\r,[]\x7b\x7d#=".toList.contains c

/-- The value without quotes that the whole text denotes. -/
def scalarOf (t : Text) : Option Value :=
  if t = "true".toList then some (.boolean true)
  else if t = "false".toList then some (.boolean false)
  else if isDateTime t then some (.datetime t)
  else if isFloat t then some (.float t)
  else (readInteger t).map .integer

/-- The value without quotes at the front of the text, and what follows it. A date may be followed
by a space and a time. -/
def readScalar (t : Text) : Option (Value × Text) :=
  let written := t.takeWhile (!endsScalar ·)
  let rest := t.dropWhile (!endsScalar ·)
  match readDate written, rest with
  | some [], ' ' :: c :: after =>
      if c.isDigit then
        let time := (c :: after).takeWhile (!endsScalar ·)
        (scalarOf (written ++ ' ' :: time)).map (·, (c :: after).dropWhile (!endsScalar ·))
      else (scalarOf written).map (·, rest)
  | _, _ => (scalarOf written).map (·, rest)

mutual

/-- The value at the front of the text, inside `depth` arrays and inline tables, and what follows
it. -/
def readValue : (bound depth : Nat) → Text → Except Fault (Value × Text)
  | 0, _, _ => .error .malformed
  | bound + 1, depth, t =>
      match t with
      | '"' :: _ | '\'' :: _ => do
          let (text, rest) ← orMalformed (readString t)
          return (.string text, rest)
      | '[' :: rest => do
          if maxDepth ≤ depth then throw .tooDeep
          let (items, rest) ← readItems bound (depth + 1) [] rest
          return (.array false items, rest)
      | '{' :: rest => do
          if maxDepth ≤ depth then throw .tooDeep
          let (entries, rest) ← readPairs bound (depth + 1) [] rest
          return (.table .inline entries, rest)
      | _ => orMalformed (readScalar t)

/-- The remaining items of an array after those read so far, and what follows the array. -/
def readItems : (bound depth : Nat) → List Value → Text → Except Fault (List Value × Text)
  | 0, _, _, _ => .error .malformed
  | bound + 1, depth, items, t => do
      match ← orMalformed (dropTrivia false t) with
      | ']' :: rest => return (items, rest)
      | rest =>
          let (item, rest) ← readValue bound depth rest
          let items := items ++ [item]
          match ← orMalformed (dropTrivia false rest) with
          | ',' :: rest => readItems bound depth items rest
          | ']' :: rest => return (items, rest)
          | _ => throw .malformed

/-- The remaining pairs of an inline table after those read so far, and what follows the table. There
may be newlines and comments around the equals sign and the comma, but not within a key. -/
def readPairs : (bound depth : Nat) → Entries → Text → Except Fault (Entries × Text)
  | 0, _, _, _ => .error .malformed
  | bound + 1, depth, entries, t => do
      match ← orMalformed (dropTrivia false t) with
      | '}' :: rest => return (entries, rest)
      | rest =>
          let ((path, key), rest) ← readKey bound rest
          let rest ← orMalformed (dropTrivia false rest >>= readChar '=' >>= dropTrivia false)
          let (value, rest) ← readValue bound depth rest
          let entries ← addPair path key value .inline entries
          match ← orMalformed (dropTrivia false rest) with
          | ',' :: rest => readPairs bound depth entries rest
          | '}' :: rest => return (entries, rest)
          | _ => throw .malformed

end

/-- The document that the remaining lines complete, of which the table at the path `current` is
being filled. -/
def readLines : (bound : Nat) → (current : List Text) → Entries → Text → Except Fault Entries
  | 0, _, _, _ => .error .malformed
  | bound + 1, current, root, t => do
      match ← orMalformed (dropTrivia false t) with
      | [] => return root
      | '[' :: rest =>
          let (isArray, rest) := match rest with
            | '[' :: inner => (true, inner)
            | inner => (false, inner)
          let ((path, key), rest) ← readKey bound rest
          let rest ← orMalformed (readChar ']' rest)
          let rest ← if isArray then orMalformed (readChar ']' rest) else pure rest
          let rest ← orMalformed (dropLineEnd rest)
          let root ← openTable isArray path key root
          readLines bound (path ++ [key]) root rest
      | rest =>
          let ((path, key), rest) ← readKey bound rest
          let rest ← orMalformed (readChar '=' rest)
          let (value, rest) ← readValue bound 0 (dropSpace rest)
          let rest ← orMalformed (dropLineEnd rest)
          let root ← descend false (addPair path key value) current .header root
          readLines bound current root rest

/-- The text without a byte order mark at its front. -/
def dropByteOrderMark : Text → Text
  | '\ufeff' :: rest => rest
  | t => t

/-- The top table of the document. -/
def parse (t : Text) : Except Fault Entries :=
  let t := dropByteOrderMark t
  readLines (2 * t.length + 2) [] [] t

end Toml

end MarkedEdits
