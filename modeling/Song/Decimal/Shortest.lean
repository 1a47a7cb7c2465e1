import Song.Binary

/-!
# The fewest digits that read back

A finite positive double is written with the least number of significant digits
for which the decimal rounds to that double; among those the one nearest to it,
and of two equally near the larger. All comparisons are exact.
-/
namespace Song.Decimal

/-- The value `digits * 10 ^ exponent`. -/
structure Scaled where
  digits : Nat
  exponent : Int
deriving Repr, DecidableEq

/-- Numerator and denominator of `a * base ^ e`. -/
def fraction (base a : Nat) (e : Int) : Nat × Nat :=
  if 0 ≤ e then (a * Nat.pow base e.toNat, 1) else (a, Nat.pow base (-e).toNat)

/-- The doubled ends of the interval of reals that round to `significand * 2 ^ power`, in
units of `2 ^ (power - 2)`. Below a power of two the neighbour is nearer. -/
def interval (significand : Nat) (power : Int) : Nat × Nat :=
  let narrow := significand = Binary.leastNormal ∧ Binary.leastPower < power
  (4 * significand - (if narrow then 1 else 2), 4 * significand + 2)

/-- Whether the decimal rounds to `significand * 2 ^ power`; a decimal halfway between two
doubles rounds to the one with an even significand. -/
def readsBack (significand : Nat) (power : Int) (d : Scaled) : Bool :=
  let (low, high) := interval significand power
  let (num, den) := fraction 10 d.digits d.exponent
  let (unit, parts) := fraction 2 1 (power - 2)
  let value := num * parts
  let below := low * unit * den
  let above := high * unit * den
  if significand % 2 = 0 then below ≤ value && value ≤ above
  else below < value && value < above

/-- The number of decimal digits of a natural number, at least one. -/
def digitCount (n : Nat) : Nat :=
  (Nat.toDigits 10 n).length

/-- The least `k` with `significand * 2 ^ power < 10 ^ k`, for a positive significand. -/
def magnitude (significand : Nat) (power : Int) : Int :=
  let (num, den) := fraction 2 significand power
  let guess : Int := (digitCount num : Int) - (digitCount den : Int)
  let (bound, scale) := fraction 10 1 guess
  if num * scale < bound * den then guess else guess + 1

/-- The decimal with `count` significant digits that reads back, if there is one. -/
def withDigits? (significand : Nat) (power : Int) (top : Int) (count : Nat) : Option Scaled :=
  let exponent := top - count
  let (num, den) := fraction 2 significand power
  let (grid, scale) := fraction 10 1 exponent
  let dividend := num * scale
  let divisor := den * grid
  let floor := dividend / divisor
  let lower : Scaled := ⟨floor, exponent⟩
  let upper : Scaled := ⟨floor + 1, exponent⟩
  if dividend % divisor = 0 then some lower
  else
    match readsBack significand power lower, readsBack significand power upper with
    | true, true => if 2 * (dividend % divisor) < divisor then some lower else some upper
    | true, false => some lower
    | false, true => some upper
    | false, false => none

/-- Moves the zeros that the digits end in to the exponent; `room` bounds their number. -/
def Scaled.strip (room : Nat) (d : Scaled) : Scaled :=
  match room with
  | 0 => d
  | room + 1 =>
    if d.digits % 10 = 0 ∧ d.digits ≠ 0 then strip room ⟨d.digits / 10, d.exponent + 1⟩ else d

/-- Tries ever more digits; seventeen always suffice for a double. -/
def search (significand : Nat) (power : Int) (top : Int) (count : Nat) : Nat → Scaled
  | 0 =>
    let (num, den) := fraction 10 1 (17 - top)
    let (a, b) := fraction 2 significand power
    ⟨a * num / (b * den), top - 17⟩
  | room + 1 =>
    match withDigits? significand power top count with
    | some d => d
    | none => search significand power top (count + 1) room

/-- The shortest decimal of a positive double. -/
def shortest (significand : Nat) (power : Int) : Scaled :=
  (search significand power (magnitude significand power) 1 17).strip 18

end Song.Decimal
