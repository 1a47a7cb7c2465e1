import Song.Decimal.Shortest

/-!
# Reading decimals

A decimal is an optional sign, digits with at most one point among them, and an
optional exponent; the names of infinity and of not-a-number are read in any
case. The value is the double nearest to the decimal.
-/
namespace Song.Decimal

def isDigit (c : Char) : Bool :=
  '0' ≤ c && c ≤ '9'

def natural (digits : List Char) : Nat :=
  digits.foldl (fun n c => 10 * n + (c.toNat - '0'.toNat)) 0

/-- Splits off a sign; true means minus. -/
def splitSign : List Char → Bool × List Char
  | '-' :: text => (true, text)
  | '+' :: text => (false, text)
  | text => (false, text)

/-- The double nearest to `digits * 10 ^ exponent`. Far outside the range of doubles the answer
does not depend on the digits. -/
def nearest (d : Scaled) : Float :=
  let top := (digitCount d.digits : Int) + d.exponent
  if d.digits = 0 ∨ top < -330 then 0.0
  else if 330 < top then 1.0 / 0.0
  else Float.ofScientific d.digits (d.exponent < 0) d.exponent.natAbs

/-- The part after the mark of an exponent: an optional sign and at least one digit. -/
def exponent? (text : List Char) : Option Int :=
  let (negative, digits) := splitSign text
  if digits.isEmpty || !digits.all isDigit then none
  else some (if negative then -(natural digits : Int) else natural digits)

/-- An unsigned decimal; at least one digit stands before or after the point. -/
def unsigned? (text : List Char) : Option Scaled :=
  let whole := text.takeWhile isDigit
  let (part, rest) :=
    match text.dropWhile isDigit with
    | '.' :: more => (more.takeWhile isDigit, more.dropWhile isDigit)
    | more => ([], more)
  let scaled (e : Int) : Scaled := ⟨natural (whole ++ part), e - part.length⟩
  if (whole ++ part).isEmpty then none
  else
    match rest with
    | [] => some (scaled 0)
    | mark :: more =>
      if mark = 'e' || mark = 'E' then (exponent? more).map scaled else none

def named? (text : List Char) : Option Float :=
  let lower := String.ofList (text.map Char.toLower)
  if lower = "inf" || lower = "infinity" then some (1.0 / 0.0)
  else if lower = "nan" then some (0.0 / 0.0)
  else none

/-- Reads a signed decimal or a named value. -/
def read? (text : List Char) : Option Float :=
  let (negative, body) := splitSign text
  let value := (named? body).or ((unsigned? body).map nearest)
  value.map fun x => if negative then -x else x

end Song.Decimal
