import MarkedEdits.Toml.Number

/-!
# TOML strings

Basic strings stand between double quotes and have escapes; literal strings stand between single
quotes and have none. Both also come in a form with three quotes that may hold newlines. Reading a
string first finds its closing quotes and then resolves its escapes.
-/

namespace MarkedEdits

namespace Toml

/-- The character is no control character other than the tab. -/
def isPlain (c : Char) : Bool :=
  c == '\t' || (0x20 ≤ c.toNat && c.toNat ≠ 0x7f)

/-- The space and the tab, which separate the tokens of a line. -/
def isSpace (c : Char) : Bool :=
  c == ' ' || c == '\t'

/-- What the character stands for after a backslash. -/
def simpleEscape? (c : Char) : Option Char :=
  match c with
  | 'b' => some '\x08'
  | 't' => some '\t'
  | 'n' => some '\n'
  | 'f' => some '\x0c'
  | 'r' => some '\r'
  | 'e' => some '\x1b'
  | '"' => some '"'
  | '\\' => some '\\'
  | _ => none

/-- The number of hexadecimal digits that follow the character after a backslash. -/
def escapeWidth? (c : Char) : Option Nat :=
  match c with
  | 'x' => some 2
  | 'u' => some 4
  | 'U' => some 8
  | _ => none

/-- The character whose code point has exactly these hexadecimal digits. -/
def charOfHex (width : Nat) (digits : Text) : Option Char := do
  if digits.length ≠ width then none
  let n := ofDigits 16 (← digits.mapM digitValue)
  if n.isValidChar then some (Char.ofNat n) else none

/-- What follows a backslash at the end of a line: the text after all blanks and newlines, of which
the first after the spaces must be a newline. -/
def afterContinuation (t : Text) : Option Text :=
  match t.dropWhile isSpace with
  | '\n' :: _ | '\r' :: '\n' :: _ =>
      some (t.dropWhile fun c ↦ isSpace c || c == '\n' || c == '\r')
  | _ => none

/-- Dropping characters does not lengthen a text. -/
theorem length_dropWhile_le (p : Char → Bool) (t : Text) :
    (t.dropWhile p).length ≤ t.length :=
  (List.dropWhile_sublist p).length_le

/-- What follows a continued line is no longer than what stood there. -/
theorem length_afterContinuation_le {t rest : Text} (h : afterContinuation t = some rest) :
    rest.length ≤ t.length := by
  unfold afterContinuation at h
  split at h
  · cases h
    exact length_dropWhile_le _ t
  · cases h
    exact length_dropWhile_le _ t
  · cases h

/-- What follows a backslash at the end of a line, where lines may be continued. -/
def continued? (multiline : Bool) (t : Text) : Option Text :=
  if multiline then afterContinuation t else none

/-- What follows a continued line is no longer than what stood there. -/
theorem length_continued?_le {multiline : Bool} {t rest : Text}
    (h : continued? multiline t = some rest) : rest.length ≤ t.length := by
  unfold continued? at h
  split at h
  · exact length_afterContinuation_le h
  · cases h

/-- The text with its escapes resolved. A line may be continued when `multiline` is set. -/
def unescape (multiline : Bool) (t : Text) : Option Text :=
  match t with
  | [] => some []
  | c :: rest =>
      if c ≠ '\\' then (unescape multiline rest).map (c :: ·)
      else
        match hc : continued? multiline rest with
        | some after =>
            have := length_continued?_le hc
            unescape multiline after
        | none =>
            match rest with
            | [] => none
            | e :: rest =>
                match simpleEscape? e, escapeWidth? e with
                | some plain, _ => (unescape multiline rest).map (plain :: ·)
                | none, some width => do
                    let plain ← charOfHex width (rest.take width)
                    return plain :: (← unescape multiline (rest.drop width))
                | none, none => none
termination_by t.length
decreasing_by
  all_goals
    simp only [List.length_cons, List.length_drop] at *
    omega

/-- The part of the text up to the quote that closes a string of one line, and what follows it. A
backslash takes the next character with it when there are escapes. -/
def scanLine (quote : Char) (escapes : Bool) : Text → Option (Text × Text)
  | [] => none
  | c :: rest =>
      if c = quote then some ([], rest)
      else if isPlain c = false then none
      else if c = '\\' ∧ escapes then
        match rest with
        | [] => none
        | e :: rest =>
            if isPlain e then (scanLine quote escapes rest).map fun (raw, after) ↦
              (c :: e :: raw, after)
            else none
      else (scanLine quote escapes rest).map fun (raw, after) ↦ (c :: raw, after)

/-- The up to two quotes that belong to a string although they follow its closing quotes, and what
follows them. -/
def scanExtraQuotes (quote : Char) : Text → Text × Text
  | [] => ([], [])
  | [a] => if a = quote then ([a], []) else ([], [a])
  | a :: b :: rest =>
      if a ≠ quote then ([], a :: b :: rest)
      else if b ≠ quote then ([a], b :: rest)
      else ([a, b], rest)

/-- The part of the text up to the three quotes that close a string of several lines, and what
follows them. A backslash keeps the next quote or backslash from being read when there are
escapes. -/
def scanLines (quote : Char) (escapes : Bool) : Text → Option (Text × Text)
  | [] => none
  | c :: rest =>
      if [quote, quote, quote].isPrefixOf (c :: rest) then
        some (scanExtraQuotes quote (rest.drop 2))
      else if c = '\r' ∧ rest.head? ≠ some '\n' then none
      else if c ≠ '\r' ∧ c ≠ '\n' ∧ isPlain c = false then none
      else if c = '\\' ∧ escapes then
        match rest with
        | [] => none
        | e :: after =>
            if e = quote ∨ e = '\\' then (scanLines quote escapes after).map fun (raw, after) ↦
              (c :: e :: raw, after)
            else (scanLines quote escapes (e :: after)).map fun (raw, after) ↦ (c :: raw, after)
      else (scanLines quote escapes rest).map fun (raw, after) ↦ (c :: raw, after)

/-- The text without a newline at its front. -/
def dropFirstNewline : Text → Text
  | '\n' :: rest | '\r' :: '\n' :: rest => rest
  | t => t

/-- The string of one line at the front of the text, and what follows it. -/
def readLineString : Text → Option (Text × Text)
  | '"' :: rest => do
      let (raw, after) ← scanLine '"' true rest
      return (← unescape false raw, after)
  | '\'' :: rest => scanLine '\'' false rest
  | _ => none

/-- The string at the front of the text, and what follows it. -/
def readString : Text → Option (Text × Text)
  | '"' :: '"' :: '"' :: rest => do
      let (raw, after) ← scanLines '"' true (dropFirstNewline rest)
      return (← unescape true raw, after)
  | '\'' :: '\'' :: '\'' :: rest => scanLines '\'' false (dropFirstNewline rest)
  | t => readLineString t

end Toml

end MarkedEdits
