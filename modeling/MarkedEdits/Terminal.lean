import MarkedEdits.Text.Basic

/-!
# Text on a terminal

A terminal shows the text between a control sequence and a reset sequence in another look. A reset
within the text is followed by the control sequence again, so that the look lasts to the end.
-/

namespace MarkedEdits

namespace Terminal

/-- The colours in use. -/
inductive Color where
  | red
  | green
  | yellow
  | cyan
  deriving DecidableEq, Repr

/-- The code of a colour. -/
def Color.code : Color → String
  | red => "31"
  | green => "32"
  | yellow => "33"
  | cyan => "36"

/-- How a text looks. -/
structure Look where
  bold : Bool := false
  dim : Bool := false
  color : Option Color := none
  deriving DecidableEq, Repr

namespace Look

/-- The control sequence that turns the look on. -/
def start (look : Look) : Text :=
  let codes := (if look.bold then ["1"] else []) ++ (if look.dim then ["2"] else []) ++
    (look.color.map (·.code)).toList
  "\x1b[".toList ++ (String.intercalate ";" codes).toList ++ ['m']

end Look

/-- The control sequence that turns every look off. -/
def reset : Text := "\x1b[0m".toList

/-- The text with another text after every reset. -/
def afterResets (look : Text) : Text → Text
  | [] => []
  | c :: t =>
      if reset.isPrefixOf (c :: t) then reset ++ look ++ afterResets look (t.drop 3)
      else c :: afterResets look t
termination_by t => t.length

/-- The text in a look, or as it is when there are no colours. -/
def paint (colored : Bool) (look : Look) (t : Text) : Text :=
  if colored then look.start ++ afterResets look.start t ++ reset else t

end Terminal

end MarkedEdits
