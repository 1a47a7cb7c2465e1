import Song.BuiltIn.Comparison
import Song.BuiltIn.Conversion
import Song.Outcome

/-!
# The meaning of built-ins

What a built-in gives for values. The two connectives that may leave their
second operand unevaluated are not among these.
-/
namespace Song

namespace BuiltIn

/-- The starting context: every built-in under all its names. -/
def startingContext : Bindings :=
  .ofList (all.flatMap fun b => (b.token :: b.aliases).map fun name => (name, .builtIn b))

def result (b : BuiltIn) (args : List Expr) : Except Cause Expr :=
  match b, args with
  | operator .plus, [x, y] => plus x y
  | operator .minus, [x] => unary Number.negate x
  | operator .minus, [x, y] => binary Number.subtract x y
  | operator .times, [x, y] => binary Number.multiply x y
  | operator .divide, [x, y] => binary Number.divide x y
  | operator .remainder, [x, y] => binary Number.remainder x y
  | operator .quotient, [x, y] => binary Number.quotient x y
  | operator .modulo, [x, y] => binary Number.modulo x y
  | operator .power, [x, y] => binary Number.power x y
  | operator .less, [x, y] => ordered Ordering.isLT x y
  | operator .greater, [x, y] => ordered Ordering.isGT x y
  | operator .lessOrEqual, [x, y] => ordered Ordering.isLE x y
  | operator .greaterOrEqual, [x, y] => ordered Ordering.isGE x y
  | operator .equal, [x, y] => (equal x y).map .bool
  | operator .notEqual, [x, y] => (equal x y).map fun r => .bool (!r)
  | operator .not, [x] => (asBool x).map fun r => .bool (!r)
  | toNumber, [x] => toNumberValue x
  | toText, [x] => .ok (toTextValue x)
  | toCharacter, [x] => toCharacterValue x
  | toScalar, [x] => toScalarValue x
  | truncate, [x] => (asNumber x).map fun n => .number n.truncate
  | sin, [x] => floatFunction Float.sin x
  | cos, [x] => floatFunction Float.cos x
  | tan, [x] => floatFunction Float.tan x
  | arcSin, [x] => floatFunction Float.asin x
  | arcCos, [x] => floatFunction Float.acos x
  | arcTan, [x] => floatFunction Float.atan x
  | log10, [x] => floatFunction Float.log10 x
  | log2, [x] => floatFunction Float.log2 x
  | ln, [x] => floatFunction Float.log x
  | _, args => .error (.signatureMismatch args)

/-- Reads a line; at the end of the input it is empty. -/
def takeLine (streams : Streams) : Outcome Expr :=
  match streams.readLine with
  | (none, streams) => .value (.list []) streams
  | (some (.text line), streams) => .value (.string line) streams
  | (some .undecodable, streams) => .fail (.inputOutput Streams.undecodableReason) streams

def lineOf (value : Expr) : String :=
  String.ofList (value.toText ++ ['\n'])

def meaning (b : BuiltIn) (args : List Expr) (streams : Streams) : Outcome Expr :=
  match b, args with
  | readLine, [] => takeLine streams
  | readLine, [prompt] => takeLine (streams.write (String.ofList prompt.toText))
  | writeOut, [x] => .value x (streams.write (lineOf x))
  | writeErr, [x] => .value x (streams.writeError (lineOf x))
  | b, args => .ofExcept (b.result args) streams

end BuiltIn
end Song
