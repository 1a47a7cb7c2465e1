import Song.Failure

/-!
# Built-in arithmetic
-/
namespace Song.BuiltIn

def asBool : Expr → Except Cause Bool
  | .bool b => .ok b
  | other => .error (.notABoolean other)

def asNumber : Expr → Except Cause Number
  | .number n => .ok n
  | other => .error (.notANumber other)

def asChar : Expr → Except Cause Char
  | .char c => .ok c
  | other => .error (.notACharacter other)

def ofNumeric (result : Except NumericError Number) : Except Cause Expr :=
  match result with
  | .ok n => .ok (.number n)
  | .error e => .error (.ofNumeric e)

def binary (operation : Number → Number → Except NumericError Number) (a b : Expr) :
    Except Cause Expr := do
  let m ← asNumber a
  let n ← asNumber b
  ofNumeric (operation m n)

def unary (operation : Number → Except NumericError Number) (a : Expr) : Except Cause Expr := do
  ofNumeric (operation (← asNumber a))

def floatFunction (f : Float → Float) (a : Expr) : Except Cause Expr := do
  let n ← asNumber a
  return .float (f n.toFloat)

/-- The sum of numbers, or two lists one after the other. -/
def plus (a b : Expr) : Except Cause Expr :=
  match a, b with
  | .list xs, .list ys => .ok (.list (xs ++ ys))
  | a, b => binary Number.add a b

end Song.BuiltIn
