import Song.Expr
import Song.Text.Quoted

/-!
# Expressions as text

Every expression has a text on one line. Operators are written between or before
their operands, and an operand that is itself written with an operator between
its operands stands in parentheses.
-/
namespace Song.Expr

def separated (texts : List String) : String :=
  ", ".intercalate texts

def asOperand (operand : Expr) (text : String) : String :=
  if operand.isInfixCall then "(" ++ text ++ ")" else text

def renderCall (callee : String) (args : List Expr) (texts : List String) : String :=
  match args, texts with
  | [lhs, rhs], [left, right] =>
    if isInfixName callee then
      asOperand lhs left ++ " " ++ callee ++ " " ++ asOperand rhs right
    else callee ++ "(" ++ separated texts ++ ")"
  | [operand], [text] =>
    if callee = "-" then "-" ++ asOperand operand text
    else if callee = "Not" then "Not " ++ asOperand operand text
    else callee ++ "(" ++ separated texts ++ ")"
  | _, _ => callee ++ "(" ++ separated texts ++ ")"

/-- A list, given the texts of its items; a list of characters is written as a string. -/
def renderList (items : List Expr) (texts : List String) : String :=
  match characters? items with
  | some (c :: cs) => Text.literal '"' (c :: cs)
  | _ => "[" ++ separated texts ++ "]"

mutual
def render (e : Expr) : String :=
  match e with
  | bool true => "true"
  | bool false => "false"
  | number n => n.render
  | char c => Text.literal '\'' [c]
  | list items => renderList items (renderItems items)
  | cons heads tail => "[" ++ separated (renderItems heads) ++ "|" ++ render tail ++ "]"
  | wildcard => "_"
  | name n => n
  | function clause => renderClause clause
  | assign target value => render target ++ " = " ++ render value
  | closure c =>
    match c.name with
    | some n => "<function " ++ n ++ ">"
    | none => "<lambda>"
  | block statements => "Do " ++ separated (renderItems statements) ++ " End"
  | call callee args => renderCall callee args (renderItems args)
  | apply target args | deferred target args =>
    "(" ++ render target ++ ")(" ++ separated (renderItems args) ++ ")"
  | builtIn b => b.token
termination_by structural e

def renderItems (items : List Expr) : List String :=
  match items with
  | [] => []
  | item :: rest => render item :: renderItems rest
termination_by structural items

def renderClause (clause : Clause Expr) : String :=
  match clause with
  | ⟨label, patterns, guard, body⟩ =>
    label.getD "Fn" ++ "(" ++ separated (renderItems patterns) ++ ")" ++
      (if guard.isGuard then " When " ++ render guard else "") ++ " = " ++ render body
termination_by structural clause
end

/-- What a value reads as where text is wanted: a string as it is, all else in source form. -/
def toText (value : Expr) : List Char :=
  match value.text? with
  | some chars => chars
  | none => (render value).toList

end Song.Expr
