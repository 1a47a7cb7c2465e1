import Song.BuiltIn.Arithmetic

/-!
# Built-in comparison

Order is defined on numbers and on characters. Equality is defined between two
values of one kind, and between lists item by item.
-/
namespace Song.BuiltIn

/-- The order of two characters or two numbers; `none` only with not-a-number. -/
def order (a b : Expr) : Except Cause (Option Ordering) :=
  match a, b with
  | .char x, .char y => .ok (some (compare x.toNat y.toNat))
  | a, b => do
    let m ← asNumber a
    let n ← asNumber b
    return m.order n

def ordered (accept : Ordering → Bool) (a b : Expr) : Except Cause Expr := do
  let o ← order a b
  return .bool ((o.map accept).getD false)

mutual
def equal (a b : Expr) : Except Cause Bool :=
  match a, b with
  | .bool x, .bool y => .ok (x == y)
  | .number m, .number n =>
    match m.equal n with
    | .ok r => .ok r
    | .error e => .error (.ofNumeric e)
  | .char x, .char y => .ok (x == y)
  | .list xs, .list ys => if xs.length ≠ ys.length then .ok false else equalItems xs ys
  | a, b => .error (.notComparable a b)
termination_by structural a

/-- Whether items are equal pairwise, up to the first difference. -/
def equalItems (xs ys : List Expr) : Except Cause Bool :=
  match xs, ys with
  | x :: xs, y :: ys =>
    match equal x y with
    | .ok true => equalItems xs ys
    | other => other
  | _, _ => .ok true
termination_by structural xs
end

end Song.BuiltIn
