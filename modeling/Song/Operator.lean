/-!
# Operators

The operators of the language, their spelling and how tightly they bind.
-/
namespace Song

inductive Operator where
  | plus
  | minus
  | times
  | divide
  | remainder
  | quotient
  | modulo
  | power
  | less
  | greater
  | lessOrEqual
  | greaterOrEqual
  | equal
  | notEqual
  | and
  | or
  | not
deriving Repr, DecidableEq

namespace Operator

/-- How the operator is written. The same text is the name that it calls. -/
def symbol : Operator → String
  | plus => "+"
  | minus => "-"
  | times => "*"
  | divide => "/"
  | remainder => "%"
  | quotient => "Div"
  | modulo => "Mod"
  | power => "^"
  | less => "<"
  | greater => ">"
  | lessOrEqual => "<="
  | greaterOrEqual => ">="
  | equal => "Eq"
  | notEqual => "Neq"
  | and => "And"
  | or => "Or"
  | not => "Not"

/-- How tightly an infix operator binds; only negation of truth stands before its operand
alone and has no level. -/
def level? : Operator → Option Nat
  | or => some 0
  | and => some 1
  | equal | notEqual => some 2
  | less | greater | lessOrEqual | greaterOrEqual => some 3
  | plus | minus => some 4
  | times | divide | remainder | quotient | modulo => some 5
  | power => some 6
  | not => none

def isInfix (o : Operator) : Bool :=
  o.level?.isSome

def all : List Operator :=
  [plus, minus, times, divide, remainder, quotient, modulo, power, less, greater, lessOrEqual,
    greaterOrEqual, equal, notEqual, and, or, not]

end Operator
end Song
