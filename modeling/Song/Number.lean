import Song.Decimal.Layout

/-!
# Numbers

A number is a 64-bit integer or a double. Arithmetic on two integers is exact or
reports an overflow; a double among the operands makes the operation one on
doubles. Whole division, modulo and equality never mix the two kinds.
-/
namespace Song

/-- A number; an integer and a double are never the same number. -/
inductive Number where
  | int (value : Int64)
  | float (value : Float)
deriving DecidableEq

/-- The operations whose exact result can lie outside the integers. -/
inductive Operation where
  | addition
  | subtraction
  | multiplication
  | division
  | modulo
  | exponentiation
  | negation
deriving Repr, DecidableEq

def Operation.name : Operation → String
  | .addition => "addition"
  | .subtraction => "subtraction"
  | .multiplication => "multiplication"
  | .division => "division"
  | .modulo => "modulo"
  | .exponentiation => "exponentiation"
  | .negation => "negation"

inductive NumericError where
  /-- An operation on integers met a double, or the two kinds were compared. -/
  | mismatch
  | divisionByZero
  | overflow (operation : Operation)
deriving Repr, DecidableEq

def NumericError.message : NumericError → String
  | .mismatch => "numeric mismatch: operation requires two integers of the same kind"
  | .divisionByZero => "division by zero"
  | .overflow operation => "integer overflow in " ++ operation.name

namespace Number

/-- Doubles are written with the fewest digits that read back, positionally from `0.0001` on
and below `10 ^ 16`, and always with a point or an exponent. -/
def floatLayout : Decimal.Layout where
  smallest := -3
  largest := 16
  point := '.'
  exponentMark := 'e'
  notANumber := "NaN"
  infinity := "inf"

def renderFloat (x : Float) : String :=
  String.ofList (floatLayout.write x)

def renderInt (i : Int64) : String :=
  String.ofList (Decimal.Layout.integer i.toInt)

def render : Number → String
  | int i => renderInt i
  | float x => renderFloat x

/-- The integers that fit in 64 bits. -/
def Fits (i : Int) : Prop :=
  -Int.pow 2 63 ≤ i ∧ i < Int.pow 2 63

instance (i : Int) : Decidable (Fits i) :=
  inferInstanceAs (Decidable (_ ∧ _))

/-- The integer, or the overflow of the operation that gave it. -/
def checked (operation : Operation) (i : Int) : Except NumericError Number :=
  if Fits i then .ok (int (Int64.ofInt i)) else .error (.overflow operation)

def toFloat : Number → Float
  | int i => Float.ofInt i.toInt
  | float x => x

def isFloat : Number → Bool
  | int _ => false
  | float _ => true

def add : Number → Number → Except NumericError Number
  | int a, int b => checked .addition (a.toInt + b.toInt)
  | a, b => .ok (float (a.toFloat + b.toFloat))

def subtract : Number → Number → Except NumericError Number
  | int a, int b => checked .subtraction (a.toInt - b.toInt)
  | a, b => .ok (float (a.toFloat - b.toFloat))

def multiply : Number → Number → Except NumericError Number
  | int a, int b => checked .multiplication (a.toInt * b.toInt)
  | a, b => .ok (float (a.toFloat * b.toFloat))

/-- Division of doubles; its result is a double also for two integers. -/
def divide (a b : Number) : Except NumericError Number :=
  if b.toFloat == 0.0 then .error .divisionByZero
  else .ok (float (a.toFloat / b.toFloat))

/-- Whole division, toward zero. -/
def quotient : Number → Number → Except NumericError Number
  | int a, int b =>
    if b.toInt = 0 then .error .divisionByZero else checked .division (a.toInt.tdiv b.toInt)
  | _, _ => .error .mismatch

/-- The remainder of whole division, with the sign of the dividend. The one quotient that does
not fit leaves no remainder either. -/
def modulo : Number → Number → Except NumericError Number
  | int a, int b =>
    if b.toInt = 0 then .error .divisionByZero
    else if Fits (a.toInt.tdiv b.toInt) then checked .modulo (a.toInt.tmod b.toInt)
    else .error (.overflow .modulo)
  | _, _ => .error .mismatch

def remainder : Number → Number → Except NumericError Number
  | int a, int b => modulo (int a) (int b)
  | a, b => .ok (float (Binary.remainder a.toFloat b.toFloat))

/-- `base ^ exponent` where that can fit in 64 bits; large powers are not computed. -/
def wholePower? (base : Int) (exponent : Nat) : Option Int :=
  if exponent < 64 then some (Int.pow base exponent)
  else if base = 0 ∨ base = 1 then some base
  else if base = -1 then some (if exponent % 2 = 0 then 1 else -1)
  else none

/-- Powers of integers with natural exponents below `2 ^ 32` are integers. -/
def power : Number → Number → Except NumericError Number
  | int a, int b =>
    if b.toInt < 0 then .ok (float (Float.pow (int a).toFloat (int b).toFloat))
    else if Int.pow 2 32 ≤ b.toInt then .error (.overflow .exponentiation)
    else
      match wholePower? a.toInt b.toInt.toNat with
      | some i => checked .exponentiation i
      | none => .error (.overflow .exponentiation)
  | a, b => .ok (float (Float.pow a.toFloat b.toFloat))

def negate : Number → Except NumericError Number
  | int a => checked .negation (-a.toInt)
  | float x => .ok (float (-x))

/-- The order of doubles; not-a-number has no place in it. -/
def compareFloat (x y : Float) : Option Ordering :=
  if x < y then some .lt
  else if x == y then some .eq
  else if y < x then some .gt
  else none

/-- The order of numbers, by value across the kinds. -/
def order : Number → Number → Option Ordering
  | int a, int b => some (compare a.toInt b.toInt)
  | a, b => compareFloat a.toFloat b.toFloat

/-- Structural equality: the same kind and the same value. -/
def same : Number → Number → Bool
  | int a, int b => a == b
  | float x, float y => x == y
  | _, _ => false

def equal : Number → Number → Except NumericError Bool
  | int a, int b => .ok (a == b)
  | float x, float y => .ok (x == y)
  | _, _ => .error .mismatch

/-- The nearest integer that fits in 64 bits. -/
def saturate (i : Int) : Int64 :=
  if i < -Int.pow 2 63 then Int64.minValue
  else if Int.pow 2 63 ≤ i then Int64.maxValue
  else Int64.ofInt i

/-- Drops the fraction. A double out of range gives the nearest integer, and not-a-number zero. -/
def truncate : Number → Number
  | int a => int a
  | float x =>
    match Binary.ofFloat x with
    | .nan => int 0
    | .infinite negative => int (if negative then Int64.minValue else Int64.maxValue)
    | .finite .. => int (saturate ((Binary.truncate? x).getD 0))

end Number
end Song
