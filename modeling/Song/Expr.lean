import Song.BuiltIn
import Song.Context
import Song.Number

/-!
# Expressions

Syntax trees and values are one type: a value is an expression that evaluates to
itself. A closure holds its clauses and the context it was declared in; a
deferred call stands for a call whose arguments are already values.
-/
namespace Song

/-- One clause of a function: parameter patterns, a guard and a body. Clauses of lambdas have
no name, and a clause without a guard has the guard `true`. -/
structure Clause (ε : Type) where
  name : Option String
  patterns : List ε
  guard : ε
  body : ε

/-- A function value: clauses in the order of their declaration, and the context in which the
first of them was declared. -/
structure Closure (ε : Type) where
  name : Option String
  clauses : List (Clause ε)
  captured : Context ε

/-- An expression or value. -/
inductive Expr where
  | bool (value : Bool)
  | number (value : Number)
  | char (value : Char)
  /-- Items in order; a list of characters is a string. -/
  | list (items : List Expr)
  /-- Leading items before a list of the others. -/
  | cons (heads : List Expr) (tail : Expr)
  /-- The pattern that takes any value. -/
  | wildcard
  | name (name : String)
  /-- The declaration of a clause, or a lambda. -/
  | function (clause : Clause Expr)
  | assign (target value : Expr)
  | closure (closure : Closure Expr)
  /-- Statements in a scope of their own. -/
  | block (statements : List Expr)
  /-- A call by name. -/
  | call (callee : String) (args : List Expr)
  /-- A call of what an expression evaluates to. -/
  | apply (target : Expr) (args : List Expr)
  /-- A call in tail position whose arguments are values. -/
  | deferred (target : Expr) (args : List Expr)
  | builtIn (function : BuiltIn)

abbrev Bindings := Context Expr

namespace Clause

variable {ε : Type}

def arity (clause : Clause ε) : Nat :=
  clause.patterns.length

end Clause

namespace Closure

variable {ε : Type}

def ofClause (name : Option String) (clause : Clause ε) (captured : Context ε) : Closure ε :=
  ⟨name, [clause], captured⟩

/-- The function with a clause that is tried after the others. -/
def withClause (closure : Closure ε) (clause : Clause ε) : Closure ε :=
  { closure with clauses := closure.clauses ++ [clause] }

def accepts (closure : Closure ε) (count : Nat) : Bool :=
  closure.clauses.any fun clause => clause.arity == count

end Closure

namespace Expr

def int (i : Int64) : Expr :=
  number (.int i)

def float (x : Float) : Expr :=
  number (.float x)

def text (chars : List Char) : Expr :=
  list (chars.map char)

def string (s : String) : Expr :=
  text s.toList

def characters? : List Expr → Option (List Char)
  | [] => some []
  | char c :: rest => (characters? rest).map (c :: ·)
  | _ => none

def items? : Expr → Option (List Expr)
  | list items => some items
  | _ => none

/-- The characters of a string; the empty list is the empty string. -/
def text? : Expr → Option (List Char)
  | list items => characters? items
  | _ => none

def isCallable : Expr → Bool
  | closure _ | builtIn _ => true
  | _ => false

/-- Whether the guard is any other than the one that a clause without a guard has. -/
def isGuard : Expr → Bool
  | bool true => false
  | _ => true

/-- Whether the name is that of an operator that stands between two operands. -/
def isInfixName (name : String) : Bool :=
  ((BuiltIn.ofToken? name).map BuiltIn.isInfix).getD false

/-- Whether the expression is written with an operator between two operands. -/
def isInfixCall : Expr → Bool
  | call callee [_, _] => isInfixName callee
  | _ => false

end Expr
end Song
