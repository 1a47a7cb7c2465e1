/-!
# Binary floating-point values

A double is taken apart into sign, significand and power of two, so that
truncation and remainder are exact arithmetic on natural numbers.
-/
namespace Song

/-- What a double stands for. -/
inductive Binary where
  | nan
  | infinite (negative : Bool)
  /-- `significand * 2 ^ power`, negated if `negative`. -/
  | finite (negative : Bool) (significand : Nat) (power : Int)
deriving Repr, DecidableEq

namespace Binary

/-- The least power of two that a significand is scaled by. -/
def leastPower : Int := -1074

def leastNormal : Nat := Nat.pow 2 52

def ofFloat (x : Float) : Binary :=
  let bits := x.toBits
  let negative := bits >>> 63 == 1
  let exponent := ((bits >>> 52) &&& 0x7FF).toNat
  let fraction := (bits &&& 0xFFFFFFFFFFFFF).toNat
  if exponent = 2047 then
    if fraction = 0 then .infinite negative else .nan
  else if exponent = 0 then .finite negative fraction leastPower
  else .finite negative (leastNormal + fraction) ((exponent : Int) - 1075)

/-- The double with this sign and magnitude, for a magnitude below `2 ^ 53 * 2 ^ power` that
needs no rounding. `room` bounds how often the significand is doubled to make it normal. -/
def pack (negative : Bool) (room : Nat) (significand : Nat) (power : Int) : Float :=
  match room with
  | 0 =>
    let sign : Nat := if negative then Nat.pow 2 63 else 0
    let magnitude :=
      if significand < leastNormal then significand
      else (power + 1075).toNat * Nat.pow 2 52 + (significand - leastNormal)
    Float.ofBits (UInt64.ofNat (sign + magnitude))
  | room + 1 =>
    if significand < leastNormal ∧ leastPower < power then
      pack negative room (2 * significand) (power - 1)
    else pack negative 0 significand power

/-- `a * 2 ^ power` as a natural number, in units of `2 ^ unit`, for `unit ≤ power`. -/
def inUnits (unit power : Int) (a : Nat) : Nat :=
  a * Nat.pow 2 (power - unit).toNat

/-- The remainder of a division that truncates: it has the sign of the dividend, also when it
is zero. It is exact, and not a number where there is no quotient. -/
def remainder (x y : Float) : Float :=
  match ofFloat x, ofFloat y with
  | .finite negative a p, .finite _ b q =>
    if b = 0 then 0.0 / 0.0
    else
      let unit := min p q
      pack negative 53 (inUnits unit p a % inUnits unit q b) unit
  | .finite .., .infinite _ => x
  | _, _ => 0.0 / 0.0

/-- The integer part, toward zero; `none` where there is none. -/
def truncate? (x : Float) : Option Int :=
  match ofFloat x with
  | .finite negative a p =>
    let magnitude : Nat :=
      if 0 ≤ p then a * Nat.pow 2 p.toNat else a / Nat.pow 2 (-p).toNat
    some (if negative then -(magnitude : Int) else magnitude)
  | _ => none

end Binary
end Song
