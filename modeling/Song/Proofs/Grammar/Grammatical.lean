import Song.Grammar.Pattern
import Song.Proofs.Token.Lexical

/-!
# The expressions that the grammar gives

Declarations stand only where statements stand, parameters and targets are
patterns, and every name is one that a token can carry. Closures, built-in
functions and deferred calls are no syntax.
-/
namespace Song

inductive Role where
  | expression
  | statement
deriving DecidableEq

/-- What a call or a declared function can be named: an identifier or an operator. -/
def IsCallee (name : String) : Prop :=
  IsIdentifier name ∨ ∃ o : Operator, name = o.symbol

/-- Whether the statement declares something by its form. -/
def Expr.isDeclaration : Expr → Bool
  | .assign .. => true
  | .function clause => clause.name.isSome
  | _ => false

def Expr.isTarget : Expr → Bool
  | .name _ | .wildcard | .list _ | .cons .. => true
  | _ => false

/-- The expressions that can be written as an expression or as a statement. -/
inductive Grammatical : Role → Expr → Prop
  | bool (b : Bool) : Grammatical .expression (.bool b)
  | int {i : Int64} (h : i ≠ Int64.minValue) : Grammatical .expression (.number (.int i))
  | float (x : Float) : Grammatical .expression (.number (.float x))
  | char (c : Char) : Grammatical .expression (.char c)
  | list {items : List Expr} (h : ∀ e ∈ items, Grammatical .expression e) :
    Grammatical .expression (.list items)
  | cons {heads : List Expr} {tail : Expr} (hne : heads ≠ [])
    (hh : ∀ e ∈ heads, Grammatical .expression e) (ht : Grammatical .expression tail) :
    Grammatical .expression (.cons heads tail)
  | wildcard : Grammatical .expression .wildcard
  | name {n : String} (h : IsIdentifier n) : Grammatical .expression (.name n)
  | lambda {patterns : List Expr} {guard body : Expr}
    (hp : ∀ p ∈ patterns, Grammatical .expression p)
    (hpattern : Expr.nonPatternAmong? patterns = none) (hg : Grammatical .expression guard)
    (hb : Grammatical .expression body) :
    Grammatical .expression (.function ⟨none, patterns, guard, body⟩)
  | block {statements : List Expr} (h : ∀ s ∈ statements, Grammatical .statement s) :
    Grammatical .expression (.block statements)
  | call {callee : String} {args : List Expr} (hc : IsCallee callee)
    (h : ∀ e ∈ args, Grammatical .expression e) : Grammatical .expression (.call callee args)
  | apply {target : Expr} {args : List Expr} (ht : Grammatical .expression target)
    (h : ∀ e ∈ args, Grammatical .expression e) : Grammatical .expression (.apply target args)
  | expression {e : Expr} (h : Grammatical .expression e) : Grammatical .statement e
  | assign {target value : Expr} (hshape : target.isTarget = true)
    (ht : Grammatical .expression target) (hpattern : Expr.nonPattern? target = none)
    (hv : Grammatical .expression value) : Grammatical .statement (.assign target value)
  | function {name : String} {patterns : List Expr} {guard body : Expr} (hn : IsCallee name)
    (hp : ∀ p ∈ patterns, Grammatical .expression p)
    (hpattern : Expr.nonPatternAmong? patterns = none) (hg : Grammatical .expression guard)
    (hb : Grammatical .expression body) :
    Grammatical .statement (.function ⟨some name, patterns, guard, body⟩)

end Song
