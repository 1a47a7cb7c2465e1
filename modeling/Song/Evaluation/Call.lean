import Song.BuiltIn.Meaning
import Song.Declaration

/-!
# Calls and blocks

The rules of evaluation that need evaluation inside them take it as an argument,
as a function from an expression, a context and the streams to an outcome.
-/
namespace Song

/-- How an expression is reduced in a context. -/
abbrev Reduction := Expr → Bindings → Streams → Outcome Expr

namespace Reduction

def all (eval : Reduction) : List Expr → Bindings → Streams → Outcome (List Expr)
  | [], _, streams => .value [] streams
  | e :: rest, context, streams =>
    (eval e context streams).andThen fun value streams =>
      (all eval rest context streams).andThen fun values streams =>
        .value (value :: values) streams

def truth (eval : Reduction) (e : Expr) (context : Bindings) (streams : Streams) : Outcome Bool :=
  (eval e context streams).andThen fun value streams => .ofExcept (BuiltIn.asBool value) streams

/-- Calls a built-in. The number of arguments is checked before any of them is reduced, and a
connective whose first operand decides leaves the second one alone. -/
def callBuiltIn (eval : Reduction) (b : BuiltIn) (args : List Expr) (context : Bindings)
    (streams : Streams) : Outcome Expr :=
  if !b.accepts args.length then .fail (.signatureMismatch args) streams
  else
    match b, args with
    | .operator .and, [left, right] =>
      (truth eval left context streams).andThen fun holds streams =>
        if holds then
          (truth eval right context streams).andThen fun holds streams =>
            .value (.bool holds) streams
        else .value (.bool false) streams
    | .operator .or, [left, right] =>
      (truth eval left context streams).andThen fun holds streams =>
        if holds then .value (.bool true) streams
        else
          (truth eval right context streams).andThen fun holds streams =>
            .value (.bool holds) streams
    | b, args => (all eval args context streams).andThen fun values streams =>
        b.meaning values streams

/-- The arguments of a call, if some clause takes as many. -/
def arguments (eval : Reduction) (closure : Closure Expr) (args : List Expr) (context : Bindings)
    (streams : Streams) : Outcome (List Expr) :=
  if closure.accepts args.length then all eval args context streams
  else .fail (.signatureMismatch args) streams

end Reduction

/-- The context of a clause's body: what the closure captured, the closure under its own name,
and the parameters, of which the later ones hide the earlier. -/
def Closure.bodyContext (closure : Closure Expr) (parameters : Bindings) : Bindings :=
  let captured :=
    match closure.name with
    | some name => closure.captured.insert name (.closure closure)
    | none => closure.captured
  parameters.mergeFavouring captured

namespace Reduction

/-- Reduces the body of the first clause that matches the arguments and whose guard holds. -/
def firstMatch (eval body : Reduction) (closure : Closure Expr) (args : List Expr) :
    List (Clause Expr) → Streams → Outcome Expr
  | [], streams => .fail (.signatureMismatch args) streams
  | clause :: rest, streams =>
    match Expr.matchParameters clause.patterns args with
    | .error cause => .fail cause streams
    | .ok none => firstMatch eval body closure args rest streams
    | .ok (some parameters) =>
      let context := closure.bodyContext parameters
      if clause.guard.isGuard then
        (eval clause.guard context streams).andThen fun verdict streams =>
          match verdict with
          | .bool true => body clause.body context streams
          | .bool false => firstMatch eval body closure args rest streams
          | other => .fail (.notABoolean other) streams
      else body clause.body context streams

def dispatch (eval body : Reduction) (closure : Closure Expr) (args : List Expr)
    (streams : Streams) : Outcome Expr :=
  firstMatch eval body closure args closure.clauses streams

def callTarget (eval body : Reduction) (target : Expr) (args : List Expr) (context : Bindings)
    (streams : Streams) : Outcome Expr :=
  match target with
  | .builtIn b => callBuiltIn eval b args context streams
  | .closure closure =>
    (arguments eval closure args context streams).andThen fun values streams =>
      dispatch eval body closure values streams
  | other => .fail (.notAFunction other) streams

/-- A call in tail position: a built-in is called, the call of a closure is deferred once its
arguments are values. -/
def deferTarget (eval : Reduction) (target : Expr) (args : List Expr) (context : Bindings)
    (streams : Streams) : Outcome Expr :=
  match target with
  | .builtIn b => callBuiltIn eval b args context streams
  | .closure closure =>
    (arguments eval closure args context streams).andThen fun values streams =>
      .value (.deferred (.closure closure) values) streams
  | other => .fail (.notAFunction other) streams

/-- Reduces statements one after the other, each in the context that the ones before it leave,
and the last one by `final`. -/
def block (eval final : Reduction) (declared : List String) :
    List Expr → Bindings → Streams → Outcome Expr
  | [], _, streams => .fail .emptyBlock streams
  | [last], context, streams => final last (shadow declared last context).2 streams
  | statement :: rest, context, streams =>
    let entered := shadow declared statement context
    (eval statement entered.2 streams).andThen fun value streams =>
      match install value entered.2 with
      | .ok context => block eval final entered.1 rest context streams
      | .error cause => .fail cause streams

end Reduction
end Song
