import Song.Expr.Printer
import Song.Streams

/-!
# Failures of evaluation

A failure is a cause and the expressions within which it arose, the outermost
first. It is reported as a trace of one line for each of them.
-/
namespace Song

inductive Cause where
  | unknownSymbol (name : String)
  /-- No clause takes these arguments, or a built-in takes another number of them. -/
  | signatureMismatch (args : List Expr)
  | notAClosure (value : Expr)
  | notABoolean (value : Expr)
  | notANumber (value : Expr)
  | notACharacter (value : Expr)
  | notAList (value : Expr)
  | notAFunction (value : Expr)
  /-- Doubles cannot be matched. -/
  | floatPattern (pattern : Expr)
  | numericMismatch
  | divisionByZero
  | integerOverflow (operation : Operation)
  | emptyBlock
  | notComparable (left right : Expr)
  | inputOutput (reason : String)

namespace Cause

def message : Cause → String
  | unknownSymbol name => "unknown symbol: " ++ name
  | signatureMismatch args =>
    "no clause matches (" ++ Expr.separated (Expr.renderItems args) ++ ")"
  | notAClosure value => "not a closure: " ++ value.render
  | notABoolean value => "not a boolean: " ++ value.render
  | notANumber value => "not a number: " ++ value.render
  | notACharacter value => "not a character: " ++ value.render
  | notAList value => "not a list: " ++ value.render
  | notAFunction value => "not a function: " ++ value.render
  | floatPattern pattern => "patterns cannot be floats: " ++ pattern.render
  | numericMismatch => "numeric mismatch: integer operation on a float"
  | divisionByZero => "division by zero"
  | integerOverflow operation => "integer overflow in " ++ operation.name
  | emptyBlock => "empty scope"
  | notComparable left right => "cannot compare " ++ left.render ++ " and " ++ right.render
  | inputOutput reason => "i/o error: " ++ reason

def ofNumeric : NumericError → Cause
  | .mismatch => numericMismatch
  | .divisionByZero => divisionByZero
  | .overflow operation => integerOverflow operation

end Cause

/-- A cause, and the expressions around it from the outside in. -/
structure Failure where
  within : List Expr
  cause : Cause

namespace Failure

def ofCause (cause : Cause) : Failure :=
  ⟨[], cause⟩

def inside (e : Expr) (failure : Failure) : Failure :=
  { failure with within := e :: failure.within }

/-- What the outermost layer says: an enclosing expression, or the cause itself. -/
def headline (failure : Failure) : String :=
  match failure.within with
  | [] => failure.cause.message
  | e :: _ => e.render

def inner? (failure : Failure) : Option Failure :=
  match failure.within with
  | [] => none
  | _ :: rest => some { failure with within := rest }

/-- Whether the failure is itself, and not within anything, that no clause matched. -/
def isSignatureMismatch (failure : Failure) : Bool :=
  match failure.within, failure.cause with
  | [], .signatureMismatch _ => true
  | _, _ => false

def traceLine (depth : Nat) (mark text : String) : String :=
  "\n" ++ String.ofList (List.replicate depth ' ') ++ mark ++ text

/-- The lines for the expressions from a depth on, and for the cause. -/
def traceFrom (depth : Nat) (cause : Cause) : List Expr → List String
  | [] => [traceLine depth "💥  " cause.message]
  | e :: rest => traceLine depth "↳ " e.render :: traceFrom (depth + 1) cause rest

def trace (failure : Failure) : String :=
  "Evaluation error" ++ String.join (traceFrom 1 failure.cause failure.within)

end Failure
end Song
