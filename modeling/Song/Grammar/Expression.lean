import Song.Grammar.Pattern
import Song.Grammar.Precedence
import Song.Grammar.Reader

/-!
# The grammar

Each rule is a reader that is given the reader of the expressions inside it, so
that every rule but the last one is plain. The last one ties the knot: within
`n` tokens expressions are nested at most `n` deep.
-/
namespace Song.Grammar

/-- The fault of the first part that is no pattern, if there is one. -/
def requirePatterns (start : Option Span) (patterns : List Expr) : Except Stop Unit :=
  match Expr.nonPatternAmong? patterns with
  | some part => .error ⟨.invalidPattern part, start⟩
  | none => .ok ()

/-- One item of a list that `close` ends. -/
def item (expr : Reader Expr) (close : Token) (items : List Expr) :
    Reader (Round (List Expr) (List Expr)) := fun tokens => do
  let (e, tokens) ← expr tokens
  let tokens := skipNewlines tokens
  match eat? .comma tokens with
  | some rest => return (.again (e :: items), skipNewlines rest)
  | none => return (.done (e :: items).reverse, ← expect close tokens)

/-- Expressions with commas between them, up to `close`. -/
def items (expr : Reader Expr) (close : Token) : Reader (List Expr) := fun tokens =>
  let tokens := skipNewlines tokens
  match eat? close tokens with
  | some rest => .ok ([], rest)
  | none => iterate (item expr close) [] tokens

/-- The arguments of a call, after the parenthesis. -/
def arguments (expr : Reader Expr) : Reader (List Expr) :=
  items expr .rightParen

/-- One item of a list literal; a bar is followed by the list of the other items. -/
def listItem (expr : Reader Expr) (heads : List Expr) : Reader (Round (List Expr) Expr) :=
  fun tokens => do
    let (e, tokens) ← expr tokens
    let heads := e :: heads
    let tokens := skipNewlines tokens
    match eat? .bar tokens with
    | some rest =>
      let (tail, rest) ← expr (skipNewlines rest)
      return (.done (.cons heads.reverse tail), ← expect .rightBracket (skipNewlines rest))
    | none =>
      match eat? .comma tokens with
      | some rest => return (.again heads, skipNewlines rest)
      | none => return (.done (.list heads.reverse), ← expect .rightBracket tokens)

/-- A list literal, after the bracket. -/
def listLiteral (expr : Reader Expr) : Reader Expr := fun tokens =>
  let tokens := skipNewlines tokens
  match eat? .rightBracket tokens with
  | some rest => .ok (.list [], rest)
  | none => iterate (listItem expr) [] tokens

def parenthesized (expr : Reader Expr) : Reader Expr := fun tokens => do
  let (e, tokens) ← expr (skipNewlines tokens)
  return (e, ← expect .rightParen (skipNewlines tokens))

def guard? (expr : Reader Expr) : Reader (Option Expr) := fun tokens =>
  match eat? .whenWord tokens with
  | some rest => do
    let (e, rest) ← expr (skipNewlines rest)
    return (some e, rest)
  | none => .ok (none, tokens)

/-- A clause; one without a guard has the guard `true`. -/
def clause (name : Option String) (patterns : List Expr) (guard : Option Expr) (body : Expr) :
    Expr :=
  .function ⟨name, patterns, guard.getD (.bool true), body⟩

/-- A lambda, after its keyword. -/
def lambda (expr : Reader Expr) : Reader Expr := fun tokens => do
  let tokens ← expect .leftParen tokens
  let start := place tokens
  let (patterns, tokens) ← arguments expr tokens
  requirePatterns start patterns
  let (guard, tokens) ← guard? expr tokens
  let tokens ← expect .equals tokens
  let (body, tokens) ← expr (skipNewlines tokens)
  return (clause none patterns guard body, tokens)

/-- What `target = value` declares: a function clause if the target is a call, otherwise an
assignment to a name or a pattern. -/
def declaration (start : Option Span) (target : Expr) (guard : Option Expr) (value : Expr) :
    Except Stop Expr :=
  match target with
  | .call callee patterns => do
    requirePatterns start patterns
    return clause (some callee) patterns guard value
  | target =>
    if guard.isSome then .error ⟨.misplacedGuard, start⟩
    else
      match target with
      | .name _ => .ok (.assign target value)
      | .list _ | .cons .. | .wildcard => do
        requirePatterns start [target]
        return .assign target value
      | other => .error ⟨.notAssignable other, start⟩

def statement (expr : Reader Expr) : Reader Expr := fun tokens => do
  let start := place tokens
  let (target, tokens) ← expr tokens
  let (guard, tokens) ← guard? expr tokens
  match eat? .equals tokens with
  | some rest =>
    let (value, rest) ← expr (skipNewlines rest)
    return (← declaration start target guard value, rest)
  | none =>
    if guard.isSome then .error (unexpected .equalsAfterGuard tokens) else .ok (target, tokens)

def isSeparator (next : Located) : Bool :=
  next.token = .newline || next.token = .comma

def blockStatement (expr : Reader Expr) (statements : List Expr) :
    Reader (Round (List Expr) Expr) := fun tokens =>
  match eat? .endWord tokens with
  | some rest => .ok (.done (.block statements.reverse), rest)
  | none => do
    let (s, tokens) ← statement expr tokens
    let statements := s :: statements
    let rest := tokens.dropWhile isSeparator
    match eat? .endWord rest with
    | some rest => return (.done (.block statements.reverse), rest)
    | none =>
      if (tokens.head?.map isSeparator).getD false then return (.again statements, rest)
      else .error (unexpected .separator tokens)

def block (expr : Reader Expr) : Reader Expr := fun tokens =>
  iterate (blockStatement expr) [] (skipNewlines tokens)

/-- What a postfix can be attached to. An operator before a parenthesis is the name of what is
called. -/
def primary (expr : Reader Expr) : Reader Expr := fun tokens =>
  match tokens with
  | [] => .error (unexpected .expression tokens)
  | next :: rest =>
    match next.token with
    | .operator o =>
      match eat? .leftParen rest with
      | some rest => do
        let (args, rest) ← arguments expr rest
        return (.call o.symbol args, rest)
      | none => .error (unexpected .expression tokens)
    | .int i => .ok (.int i, rest)
    | .float x => .ok (.float x, rest)
    | .char c => .ok (.char c, rest)
    | .text chars => .ok (.text chars, rest)
    | .bool b => .ok (.bool b, rest)
    | .underscore => .ok (.wildcard, rest)
    | .identifier name =>
      match eat? .leftParen rest with
      | some rest => do
        let (args, rest) ← arguments expr rest
        return (.call name args, rest)
      | none => .ok (.name name, rest)
    | .leftBracket => listLiteral expr rest
    | .leftParen => parenthesized expr rest
    | .doWord => block expr rest
    | .fnWord => lambda expr rest
    | _ => .error (unexpected .expression tokens)

def methodName : Reader String := fun tokens =>
  match tokens with
  | [] => .error (unexpected .methodName tokens)
  | next :: rest =>
    match next.token with
    | .identifier name => .ok (name, rest)
    | _ => .error (unexpected .methodName tokens)

def methodArguments (expr : Reader Expr) : Reader (List Expr) := fun tokens =>
  match eat? .leftParen tokens with
  | some rest => arguments expr rest
  | none => .ok ([], tokens)

/-- One postfix: arguments, or a method of which the expression is the first argument. -/
def postfixRound (expr : Reader Expr) (e : Expr) : Reader (Round Expr Expr) := fun tokens =>
  match eat? .leftParen tokens with
  | some rest => do
    let (args, rest) ← arguments expr rest
    return (.again (.apply e args), rest)
  | none =>
    match eat? .dot tokens with
    | some rest => do
      let (method, rest) ← methodName rest
      let (args, rest) ← methodArguments expr rest
      return (.again (.call method (e :: args)), rest)
    | none => .ok (.done e, tokens)

def postfixes (expr : Reader Expr) (e : Expr) : Reader Expr :=
  iterate (postfixRound expr) e

def postfixed (expr : Reader Expr) : Reader Expr := fun tokens => do
  let (e, tokens) ← primary expr tokens
  postfixes expr e tokens

/-- An operand: `-` and `Not` stand before it, and `-` before a numeral belongs to the numeral.
Before a parenthesis they are names of what is called. -/
def unary (expr : Reader Expr) : Reader Expr
  | [] => postfixed expr []
  | next :: rest =>
    match next.token with
    | .operator .minus =>
      match rest with
      | ⟨.leftParen, _⟩ :: _ => postfixed expr (next :: rest)
      | ⟨.int i, _⟩ :: more => postfixes expr (.int (-i)) more
      | ⟨.float x, _⟩ :: more => postfixes expr (.float (-x)) more
      | _ => do
        let (e, rest) ← unary expr rest
        return (.call "-" [e], rest)
    | .operator .not =>
      match rest with
      | ⟨.leftParen, _⟩ :: _ => postfixed expr (next :: rest)
      | _ => do
        let (e, rest) ← unary expr rest
        return (.call "Not" [e], rest)
    | _ => postfixed expr (next :: rest)

def chainRound (operand : Reader Expr) (chain : List (Operator × Expr)) :
    Reader (Round (List (Operator × Expr)) (List (Operator × Expr))) := fun tokens =>
  match tokens with
  | ⟨.operator o, _⟩ :: rest =>
    if o.isInfix then do
      let (e, rest) ← operand (skipNewlines rest)
      return (.again ((o, e) :: chain), rest)
    else .ok (.done chain.reverse, tokens)
  | _ => .ok (.done chain.reverse, tokens)

def chain (operand : Reader Expr) : Reader Expr := fun tokens => do
  let (first, tokens) ← operand tokens
  let (rest, tokens) ← iterate (chainRound operand) [] tokens
  return (tree first rest, tokens)

/-- An expression whose parts are nested less than `depth` deep. -/
def expressionWithin : Nat → Reader Expr
  | 0 => fun tokens => .error (unexpected .expression tokens)
  | depth + 1 => chain (unary (expressionWithin depth))

def expression : Reader Expr := fun tokens =>
  expressionWithin (tokens.length + 1) tokens

end Song.Grammar
