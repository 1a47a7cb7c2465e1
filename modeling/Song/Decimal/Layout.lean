import Song.Decimal.Shortest

/-!
# Writing decimals

How the digits of a number are laid out is one record of decisions: between
which magnitudes the form is positional, and how the special values are
spelt.
-/
namespace Song.Decimal

structure Layout where
  /-- Positional from `10 ^ (smallest - 1)` on. -/
  smallest : Int
  /-- Positional below `10 ^ largest`. -/
  largest : Int
  point : Char
  exponentMark : Char
  notANumber : String
  infinity : String

namespace Layout

def digitsOf (n : Nat) : List Char :=
  Nat.toDigits 10 n

def zeros (n : Nat) : List Char :=
  List.replicate n '0'

def integer (i : Int) : List Char :=
  match i with
  | .ofNat n => digitsOf n
  | .negSucc n => '-' :: digitsOf (n + 1)

/-- Positional form with at least one digit on either side of the point, where `top` digits
stand before the point. -/
def positional (style : Layout) (digits : List Char) (top : Int) : List Char :=
  if top ≤ 0 then
    '0' :: style.point :: zeros (-top).toNat ++ digits
  else if (digits.length : Int) ≤ top then
    digits ++ zeros (top.toNat - digits.length) ++ [style.point, '0']
  else digits.take top.toNat ++ style.point :: digits.drop top.toNat

/-- One digit, the others after the point if there are any, and the exponent. -/
def scientific (style : Layout) (digits : List Char) (top : Int) : List Char :=
  digits.take 1 ++
    (if digits.length ≤ 1 then [] else style.point :: digits.drop 1) ++
    style.exponentMark :: integer (top - 1)

/-- A decimal value in the layout that its magnitude calls for. -/
def arrange (style : Layout) (d : Scaled) : List Char :=
  let digits := digitsOf d.digits
  let top := digits.length + d.exponent
  if style.smallest ≤ top ∧ top ≤ style.largest then
    style.positional digits top
  else style.scientific digits top

def write (style : Layout) (x : Float) : List Char :=
  match Binary.ofFloat x with
  | .nan => style.notANumber.toList
  | .infinite negative => signed negative style.infinity.toList
  | .finite negative significand power =>
    signed negative
      (if significand = 0 then ['0', style.point, '0']
      else style.arrange (shortest significand power))
where
  signed (negative : Bool) (text : List Char) : List Char :=
    if negative then '-' :: text else text

end Layout
end Song.Decimal
