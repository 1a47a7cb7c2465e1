import Song.Evaluation
import Song.Grammar.Program
import Song.Library.Lists
import Song.Library.Math
import Song.Library.Strings

/-!
# The library

Functions written in the language itself. They are declared in dependency order:
a function captures the context it is declared in, so each source sees only the
ones before it.
-/
namespace Song.Library

/-- The sources in the order in which they are declared, each as its lines. -/
def sources : List (List String) :=
  [mathLines, listLines, stringLines]

/-- The statements of a source; the sources of the library are programs. -/
def statementsOf (lines : List String) : List Expr :=
  match Grammar.readAll Grammar.program (lines.flatMap fun line => line.toList ++ ['\n']) with
  | .ok statements => statements
  | .error _ => []

def statements : List Expr :=
  sources.flatMap statementsOf

/-- The steps that a declaration may take. Every statement of the library is a declaration whose
value is a literal or a clause, so this is plenty. -/
def declarationLimit : Nat := 8

def declareIn (context : Bindings) (statement : Expr) : Bindings :=
  match execute declarationLimit statement context (.ofText "") with
  | .value (_, context) _ => context
  | _ => context

def load (context : Bindings) : Bindings :=
  statements.foldl declareIn context

/-- The built-ins and the library. -/
def startup : Bindings :=
  load BuiltIn.startingContext

end Song.Library
