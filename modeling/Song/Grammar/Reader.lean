import Song.Expr.Printer
import Song.Token

/-!
# Reading from a list of tokens

A reader takes a value off the front of a list of tokens or stops with a fault.
Repetition is one combinator: it is bounded by the number of tokens, which is
enough because every round takes at least one.
-/
namespace Song

inductive Expectation where
  | token (t : Token)
  | expression
  | methodName
  | equalsAfterGuard
  | separator
  | endOfInput
deriving DecidableEq

def Expectation.describe : Expectation → String
  | token t => t.describe
  | expression => "an expression"
  | methodName => "a method name after `.`"
  | equalsAfterGuard => "`=` after the guard"
  | separator => "`,`, a new line or `End`"
  | endOfInput => "end of input"

inductive SyntaxFault where
  | lexical (fault : LexicalFault)
  /-- Something else was found, or nothing at the end of the input. -/
  | unexpected (wanted : Expectation) (found : Option Token)
  /-- The expression stands where a pattern has to stand. -/
  | invalidPattern (e : Expr)
  /-- A guard on what is no function declaration. -/
  | misplacedGuard
  /-- The expression on the left of an assignment is no target. -/
  | notAssignable (e : Expr)

structure SyntaxError where
  fault : SyntaxFault
  span : Span

namespace SyntaxError

def ofLexical (error : LexicalError) : SyntaxError :=
  ⟨.lexical error.fault, error.span⟩

def message (error : SyntaxError) : String :=
  match error.fault with
  | .lexical fault => LexicalError.message ⟨fault, error.span⟩
  | .unexpected wanted found =>
    "expected " ++ wanted.describe ++ ", found " ++ (found.map Token.describe).getD "end of input"
  | .invalidPattern e => "`" ++ e.render ++ "` is not a valid pattern"
  | .misplacedGuard => "only function declarations take a `When` guard"
  | .notAssignable e => "cannot assign to `" ++ e.render ++ "`"

/-- Whether more text could make a program of it. -/
def isIncomplete (error : SyntaxError) : Bool :=
  match error.fault with
  | .lexical .unterminatedText => true
  | .unexpected _ none => true
  | _ => false

end SyntaxError

namespace Grammar

/-- A fault before the length of the text is known: no span means the end of the input. -/
structure Stop where
  fault : SyntaxFault
  place : Option Span

def Stop.toError (size : Nat) (stop : Stop) : SyntaxError :=
  ⟨stop.fault, stop.place.getD (Span.point size)⟩

abbrev Tokens := List Located

/-- Takes a value off the front of the tokens. -/
abbrev Reader (α : Type) := Tokens → Except Stop (α × Tokens)

def place (tokens : Tokens) : Option Span :=
  tokens.head?.map Located.span

def unexpected (wanted : Expectation) (tokens : Tokens) : Stop :=
  ⟨.unexpected wanted (tokens.head?.map Located.token), place tokens⟩

/-- The tokens after `t`, if that comes next. -/
def eat? (t : Token) : Tokens → Option Tokens
  | [] => none
  | next :: rest => if next.token = t then some rest else none

/-- The tokens after `t`, which has to come next. -/
def expect (t : Token) (tokens : Tokens) : Except Stop Tokens :=
  match eat? t tokens with
  | some rest => .ok rest
  | none => .error (unexpected (.token t) tokens)

def skipNewlines (tokens : Tokens) : Tokens :=
  tokens.dropWhile fun next => next.token = .newline

inductive Round (σ β : Type) where
  | again (state : σ)
  | done (result : β)

def repeatAtMost {σ β : Type} (round : σ → Reader (Round σ β)) : Nat → σ → Reader β
  | 0, _, tokens => .error (unexpected .expression tokens)
  | bound + 1, state, tokens =>
    match round state tokens with
    | .error stop => .error stop
    | .ok (.done result, rest) => .ok (result, rest)
    | .ok (.again next, rest) => repeatAtMost round bound next rest

def iterate {σ β : Type} (round : σ → Reader (Round σ β)) (start : σ) : Reader β :=
  fun tokens => repeatAtMost round (tokens.length + 1) start tokens

end Grammar
end Song
