import MarkedEdits.Text.Basic

/-!
# JSON

Reports are written as JSON with every item and member on a line of its own, indented by two blanks
for each level. Empty arrays and objects take no lines. In strings the quote, the backslash and the
control characters are escaped, and all other characters stand for themselves.
-/

namespace MarkedEdits

namespace Json

/-- What a report consists of. -/
inductive Value where
  | number (n : Nat)
  | string (t : Text)
  | array (items : List Value)
  | object (members : List (Text × Value))
  deriving Repr

/-- The character as it stands in a string. -/
def escape (c : Char) : Text :=
  match c with
  | '"' => ['\\', '"']
  | '\\' => ['\\', '\\']
  | '\x08' => ['\\', 'b']
  | '\x0c' => ['\\', 'f']
  | '\n' => ['\\', 'n']
  | '\r' => ['\\', 'r']
  | '\t' => ['\\', 't']
  | c =>
      if c.toNat < 0x20 then
        ['\\', 'u', '0', '0', Nat.digitChar (c.toNat / 16), Nat.digitChar (c.toNat % 16)]
      else [c]

/-- The text as a string. -/
def string (t : Text) : Text :=
  '"' :: t.flatMap escape ++ ['"']

/-- A new line at a level. -/
def newLine (level : Nat) : Text :=
  '\n' :: List.replicate (2 * level) ' '

mutual

/-- The value as it is written at a level. -/
def Value.render (level : Nat) : Value → Text
  | .number n => n.repr.toList
  | .string t => string t
  | .array [] => ['[', ']']
  | .array (item :: items) =>
      '[' :: newLine (level + 1) ++ item.render (level + 1) ++ renderItems (level + 1) items ++
        newLine level ++ [']']
  | .object [] => ['\x7b', '\x7d']
  | .object ((name, value) :: members) =>
      '\x7b' :: newLine (level + 1) ++ string name ++ [':', ' '] ++ value.render (level + 1) ++
        renderMembers (level + 1) members ++ newLine level ++ ['\x7d']

/-- The items that follow the first one. -/
def renderItems (level : Nat) : List Value → Text
  | [] => []
  | item :: items => ',' :: newLine level ++ item.render level ++ renderItems level items

/-- The members that follow the first one. -/
def renderMembers (level : Nat) : List (Text × Value) → Text
  | [] => []
  | (name, value) :: members =>
      ',' :: newLine level ++ string name ++ [':', ' '] ++ value.render level ++
        renderMembers level members

end

end Json

end MarkedEdits
