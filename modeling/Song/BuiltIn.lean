import Song.Operator

/-!
# Built-in functions

The closed table of functions that are not written in the language itself, with
the names they are bound to at the start.
-/
namespace Song

inductive BuiltIn where
  | operator (o : Operator)
  | toNumber
  | toText
  | toCharacter
  | toScalar
  | truncate
  | sin
  | cos
  | tan
  | arcSin
  | arcCos
  | arcTan
  | log10
  | log2
  | ln
  | readLine
  | writeOut
  | writeErr
deriving Repr, DecidableEq

namespace BuiltIn

/-- The name a built-in is shown by and bound to. -/
def token : BuiltIn → String
  | operator o => o.symbol
  | toNumber => "number"
  | toText => "string"
  | toCharacter => "character"
  | toScalar => "scalar"
  | truncate => "truncate"
  | sin => "sin"
  | cos => "cos"
  | tan => "tan"
  | arcSin => "arcsin"
  | arcCos => "arccos"
  | arcTan => "arctan"
  | log10 => "log"
  | log2 => "log2"
  | ln => "ln"
  | readLine => "in"
  | writeOut => "out"
  | writeErr => "err"

/-- Further names bound to the same built-in. -/
def aliases : BuiltIn → List String
  | arcSin => ["asin"]
  | arcCos => ["acos"]
  | arcTan => ["atan"]
  | _ => []

/-- Every built-in, in the order of the table. -/
def all : List BuiltIn :=
  Operator.all.map operator ++
    [toNumber, toText, toCharacter, toScalar, truncate, sin, cos, tan, arcSin, arcCos, arcTan,
      log10, log2, ln, readLine, writeOut, writeErr]

/-- The built-in of a name or of one of the further names. -/
def ofToken? (name : String) : Option BuiltIn :=
  all.find? fun b => b.token == name || b.aliases.contains name

/-- Whether calls of two arguments are written with the name between them. -/
def isInfix : BuiltIn → Bool
  | operator o => o.isInfix
  | _ => false

/-- The least and the greatest number of arguments. -/
def arity : BuiltIn → Nat × Nat
  | operator .minus => (1, 2)
  | operator .not => (1, 1)
  | operator _ => (2, 2)
  | readLine => (0, 1)
  | _ => (1, 1)

def accepts (b : BuiltIn) (count : Nat) : Bool :=
  b.arity.1 ≤ count && count ≤ b.arity.2

end BuiltIn
end Song
