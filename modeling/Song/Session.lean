import Song.Library
import Song.Text.Blank

/-!
# Sessions

A session holds the current context, the context it started from, and the text
of a statement that is not complete yet. Lines that start with a question mark
are commands, unless a statement is waiting to be completed.
-/
namespace Song

/-- The steps that a session allows an evaluation. -/
def stepLimit : Nat := Nat.pow 2 62

inductive SessionError where
  | malformed (source : String) (error : SyntaxError)
  | failed (failure : Failure)
  | unfinished

def SessionError.message : SessionError → String
  | malformed source error => error.report source
  | failed failure => failure.trace
  | unfinished => "evaluation did not finish within the step limit"

inductive Reply where
  /-- The statement goes on in the next line. -/
  | incomplete
  | output (text : String)
  | error (text : String)
  | quit
deriving Repr, DecidableEq

structure Session where
  context : Bindings
  /-- The context to return to. -/
  startup : Bindings
  /-- Lines of a statement that is not complete yet. -/
  pending : String
  streams : Streams

namespace Session

def start (library : Bool) (streams : Streams) : Session :=
  let context := if library then Library.startup else BuiltIn.startingContext
  ⟨context, context, "", streams⟩

/-- Whether a statement waits for its other lines. -/
def isPending (session : Session) : Bool :=
  !session.pending.isEmpty

/-- Executes one statement. What it wrote stays written if it fails. -/
def execute (limit : Nat) (session : Session) (statement : Expr) :
    Except SessionError Expr × Session :=
  match evaluate limit statement session.context session.streams with
  | .value result streams =>
    match install result session.context with
    | .ok context => (.ok result, { session with context, streams })
    | .error cause => (.error (.failed (.ofCause cause)), { session with streams })
  | .failure f streams => (.error (.failed f), { session with streams })
  | .exhausted => (.error .unfinished, session)

/-- Executes statements in order, up to the first error. -/
def executeAll (limit : Nat) (session : Session) :
    List Expr → Except SessionError (List Expr) × Session
  | [] => (.ok [], session)
  | statement :: rest =>
    match session.execute limit statement with
    | (.error e, session) => (.error e, session)
    | (.ok result, session) =>
      match executeAll limit session rest with
      | (.error e, session) => (.error e, session)
      | (.ok results, session) => (.ok (result :: results), session)

/-- Runs a whole program, whatever is pending. -/
def run (limit : Nat) (session : Session) (source : String) :
    Except SessionError (List Expr) × Session :=
  match parseProgram source with
  | .error e => (.error (.malformed source e), session)
  | .ok statements => session.executeAll limit statements

/-- Obeys a command, given without its question mark. -/
def command (session : Session) (text : List Char) : Reply × Session :=
  match (Text.words text).map String.ofList with
  | [] => (.output (session.context.describe Expr.render), session)
  | ["forget", name] =>
    if session.context.contains name then
      (.output "", { session with context := session.context.erase name })
    else (.error (Cause.unknownSymbol name).message, session)
  | ["reset"] => (.output "", { session with context := session.startup })
  | ["quit"] => (.quit, session)
  | _ => (.error ("unknown command: ?" ++ String.ofList (Text.trim text)), session)

def command? (session : Session) (line : String) : Option (List Char) :=
  if session.isPending then none
  else
    match Text.trim line.toList with
    | '?' :: text => some text
    | _ => none

/-- The text that is waiting, with one more line. -/
def textWith (session : Session) (line : String) : String :=
  if session.isPending then session.pending ++ "\n" ++ line else line

/-- Takes a line of input: a command, or the next part of a statement. -/
def input (limit : Nat) (session : Session) (line : String) : Reply × Session :=
  match session.command? line with
  | some text => session.command text
  | none =>
    let source := session.textWith line
    match parseProgram source with
    | .error e =>
      if e.isIncomplete then (.incomplete, { session with pending := source })
      else (.error (e.report source), { session with pending := "" })
    | .ok statements =>
      match { session with pending := "" }.executeAll limit statements with
      | (.ok results, session) =>
        (.output ("\n".intercalate (results.map Expr.render)), session)
      | (.error e, session) => (.error e.message, session)

end Session
end Song
