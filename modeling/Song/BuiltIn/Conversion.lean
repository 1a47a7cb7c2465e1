import Song.BuiltIn.Arithmetic
import Song.Decimal.Reader
import Song.Text.Blank

/-!
# Built-in conversion

Numbers, strings, characters and scalar values into one another.
-/
namespace Song.BuiltIn

/-- Whether the text is an optional minus sign and at least one digit. -/
def isInteger (text : List Char) : Bool :=
  let digits := if text.head? = some '-' then text.drop 1 else text
  !digits.isEmpty && digits.all Decimal.isDigit

/-- The integer that such a text denotes, if it fits in 64 bits. -/
def integer? (text : List Char) : Option Number :=
  let (negative, digits) := Decimal.splitSign text
  let i : Int := if negative then -(Decimal.natural digits : Int) else Decimal.natural digits
  (Number.checked .negation i).toOption

def isDecimalPart (c : Char) : Bool :=
  Decimal.isDigit c || c = '.' || c = 'e' || c = 'E' || c = '+' || c = '-'

/-- Reads a number: whole numbers as integers, other decimals as doubles. -/
def number? (text : List Char) : Option Number :=
  if isInteger text then integer? text
  else if text.any Decimal.isDigit && text.all isDecimalPart then
    (Decimal.read? text).map .float
  else none

/-- A number as it is, a string by reading it. -/
def toNumberValue (a : Expr) : Except Cause Expr :=
  match a with
  | .number n => .ok (.number n)
  | a =>
    match a.text?.bind fun chars => number? (Text.trim chars) with
    | some n => .ok (.number n)
    | none => .error (.notANumber a)

/-- A string as it is, any other value in source form. -/
def toTextValue (a : Expr) : Expr :=
  match a.text? with
  | some _ => a
  | none => .string a.render

def charOfScalar? (i : Int) : Option Char :=
  if h : 0 ≤ i ∧ i.toNat.isValidChar then some (Char.ofNatAux i.toNat h.2) else none

/-- A character as it is, an integer as a scalar value. -/
def toCharacterValue (a : Expr) : Except Cause Expr :=
  match a with
  | .number (.int i) =>
    match charOfScalar? i.toInt with
    | some c => .ok (.char c)
    | none => .error (.notACharacter a)
  | .number (.float _) => .error .numericMismatch
  | .char c => .ok (.char c)
  | other => .error (.notANumber other)

def toScalarValue (a : Expr) : Except Cause Expr := do
  let c ← asChar a
  return .int (Int64.ofNat c.toNat)

end Song.BuiltIn
