import Song.Grammar.Expression
import Song.Token.Lexer

/-!
# Programs

A program is a sequence of statements, each on lines of its own.
-/
namespace Song

namespace Grammar

def programStatement (statements : List Expr) : Reader (Round (List Expr) (List Expr)) :=
  fun tokens =>
    if tokens.isEmpty then .ok (.done statements.reverse, [])
    else do
      let (s, tokens) ← statement expression tokens
      if tokens.isEmpty then return (.again (s :: statements), [])
      else return (.again (s :: statements), skipNewlines (← expect .newline tokens))

def program : Reader (List Expr) := fun tokens =>
  iterate programStatement [] (skipNewlines tokens)

/-- One statement and nothing else but empty lines. -/
def singleStatement : Reader Expr := fun tokens => do
  let (s, tokens) ← statement expression (skipNewlines tokens)
  let rest := skipNewlines tokens
  if rest.isEmpty then return (s, [])
  else .error (unexpected .endOfInput rest)

def readAll {α : Type} (reader : Reader α) (source : List Char) : Except SyntaxError α :=
  match tokenize source with
  | .error e => .error (SyntaxError.ofLexical e)
  | .ok tokens =>
    match reader tokens with
    | .error stop => .error (stop.toError (byteLength source))
    | .ok (value, _) => .ok value

end Grammar

def parseProgram (source : String) : Except SyntaxError (List Expr) :=
  Grammar.readAll Grammar.program source.toList

def parseStatement (source : String) : Except SyntaxError Expr :=
  Grammar.readAll Grammar.singleStatement source.toList

def SyntaxError.position (source : String) (error : SyntaxError) : Position :=
  Position.ofOffset source.toList error.span.start

def SyntaxError.report (source : String) (error : SyntaxError) : String :=
  let position := error.position source
  "Syntax error at line " ++ toString position.line ++ ", column " ++ toString position.column ++
    ": " ++ error.message

end Song
