import MarkedEdits.Text.Split
import MarkedEdits.Toml.Value

/-!
# TOML numbers

An integer is decimal, or hexadecimal, octal or binary after a sign for the base, and fits into 64
bits with a sign. A float has a fraction or an exponent and is finite when rounded to double
precision. Single underscores may stand between digits.
-/

namespace MarkedEdits

namespace Toml

/-- The value of a digit; letters count on from ten. -/
def digitValue (c : Char) : Option Nat :=
  if c.isDigit then some (c.toNat - '0'.toNat)
  else if 'a' ≤ c ∧ c ≤ 'f' then some (c.toNat - 'a'.toNat + 10)
  else if 'A' ≤ c ∧ c ≤ 'F' then some (c.toNat - 'A'.toNat + 10)
  else none

/-- The digits of the text in a base, from the first on; at least one, with single underscores
allowed between two of them. -/
def readDigits (base : Nat) (t : Text) : Option (List Nat) :=
  let digit := fun c ↦ (digitValue c).filter (· < base)
  let groups := Text.splitOn '_' t
  if groups.any (· == []) then none else groups.flatten.mapM digit

/-- The number that the digits denote. -/
def ofDigits (base : Nat) (digits : List Nat) : Nat :=
  digits.foldl (fun n d ↦ base * n + d) 0

/-- The digits are written without a needless zero in front. -/
def noLeadingZero (digits : List Nat) : Bool :=
  match digits with
  | 0 :: _ :: _ => false
  | _ => true

/-- The sign in front of the text and what follows it. -/
def readSign : Text → Option Bool × Text
  | '+' :: rest => (some false, rest)
  | '-' :: rest => (some true, rest)
  | t => (none, t)

/-- The number with its sign, when it fits into 64 bits. -/
def fitSigned (negative : Bool) (n : Nat) : Option Int :=
  if negative then (if n ≤ Nat.pow 2 63 then some (-n) else none)
  else if n < Nat.pow 2 63 then some n else none

/-- The integer that the whole text denotes. Only decimal ones may have a sign. -/
def readInteger (t : Text) : Option Int :=
  let inBase := fun base digits ↦ do
    fitSigned false (ofDigits base (← readDigits base digits))
  match t with
  | '0' :: 'x' :: digits => inBase 16 digits
  | '0' :: 'o' :: digits => inBase 8 digits
  | '0' :: 'b' :: digits => inBase 2 digits
  | _ => do
      let (sign, rest) := readSign t
      let digits ← readDigits 10 rest
      if noLeadingZero digits then fitSigned (sign == some true) (ofDigits 10 digits) else none

/-- The number `mantissa * 10 ^ exponent` is rounded to infinity in double precision: it is not
less than the midpoint between the greatest double and the power of two above it. -/
def overflows (mantissa : Nat) (exponent : Int) : Bool :=
  let limit := Nat.pow 2 1024 - Nat.pow 2 970
  let magnitude := (Nat.toDigits 10 mantissa).length + exponent
  if mantissa = 0 ∨ magnitude < 308 then false
  else if 310 < magnitude then true
  else if 0 ≤ exponent then limit ≤ mantissa * Nat.pow 10 exponent.toNat
  else limit * Nat.pow 10 (-exponent).toNat ≤ mantissa

/-- The whole text is a float. -/
def isFloat (t : Text) : Bool :=
  let (_, unsigned) := readSign t
  if unsigned = ['i', 'n', 'f'] ∨ unsigned = ['n', 'a', 'n'] then true
  else
    let isExponentSign := fun c ↦ c == 'e' || c == 'E'
    let significand := unsigned.takeWhile (!isExponentSign ·)
    let exponent? : Option (Option Int) :=
      match unsigned.dropWhile (!isExponentSign ·) with
      | [] => some none
      | _ :: written =>
          let (sign, digits) := readSign written
          (readDigits 10 digits).map fun digits ↦
            some (if sign = some true then -(ofDigits 10 digits : Int) else ofDigits 10 digits)
    let digits? : Option (List Nat × List Nat) :=
      match Text.splitOn '.' significand with
      | [whole] => (readDigits 10 whole).map (·, [])
      | [whole, fraction] => do return (← readDigits 10 whole, ← readDigits 10 fraction)
      | _ => none
    match exponent?, digits? with
    | some exponent, some (whole, fraction) =>
        (exponent.isSome || fraction ≠ []) && noLeadingZero whole &&
          !overflows (ofDigits 10 (whole ++ fraction)) (exponent.getD 0 - fraction.length)
    | _, _ => false

end Toml

end MarkedEdits
