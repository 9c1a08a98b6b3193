import MarkedEdits.Text.Hidden

/-!
# Quoted texts

Messages show a text or a character between quotes, in a form that keeps every character visible:
the quote, the backslash and the common control characters are written with a backslash, and every
other hidden character by its code point in braces.
-/

namespace MarkedEdits

namespace Text

/-- The code point of the character in lower-case hexadecimal, as `\u` and a number in braces. -/
def escapeCodePoint (c : Char) : Text :=
  ['\\', 'u', '{'] ++ Nat.toDigits 16 c.toNat ++ ['}']

/-- The character as it stands between two quotes of the given kind. -/
def escapeChar (quote c : Char) : Text :=
  match c with
  | '\x00' => ['\\', '0']
  | '\t' => ['\\', 't']
  | '\n' => ['\\', 'n']
  | '\r' => ['\\', 'r']
  | '\\' => ['\\', '\\']
  | c => if c = quote then ['\\', c] else if isHidden c then escapeCodePoint c else [c]

/-- The text between double quotes. -/
def quoted (t : Text) : Text :=
  '"' :: t.flatMap (escapeChar '"') ++ ['"']

/-- The character between single quotes. -/
def quotedChar (c : Char) : Text :=
  '\'' :: escapeChar '\'' c ++ ['\'']

end Text

end MarkedEdits
