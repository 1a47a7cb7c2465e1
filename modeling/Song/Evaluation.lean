import Song.Evaluation.Call

/-!
# Evaluation

Evaluation is a function of the number of steps that it may take. A call in tail
position is not made in place: it is handed back as a deferred call to the call
that is in progress, which resumes it, so that a chain of such calls is a loop.
-/
namespace Song

namespace Expr

/-- Values that are seen to be values without looking inside. -/
def isAtom : Expr → Bool
  | bool _ | number _ | char _ => true
  | _ => false

end Expr

namespace Reduction

/-- One step of evaluation; `body` reduces in tail position and `resume` makes deferred calls. -/
def step (eval body : Reduction) (resume : Expr → Streams → Outcome Expr) : Reduction :=
  fun e context streams =>
    match e with
    | .bool _ | .number _ | .char _ | .wildcard | .closure _ | .builtIn _ => .value e streams
    | .list items =>
      if items.all Expr.isAtom then .value e streams
      else (all eval items context streams).andThen fun values streams =>
        .value (.list values) streams
    | .cons heads tail =>
      (all eval heads context streams).andThen fun values streams =>
        (eval tail context streams).andThen fun tail streams =>
          match tail.items? with
          | some items => .value (.list (values ++ items)) streams
          | none => .fail (.notAList tail) streams
    | .name n =>
      match context.get? n with
      | some value => .value value streams
      | none => .fail (.unknownSymbol n) streams
    | .function clause => .ofExcept (declare clause context) streams
    | .assign target value =>
      (eval value context streams).andThen fun value streams =>
        .value (.assign target value) streams
    | .block statements => block eval eval [] statements context streams
    | .call callee args =>
      match context.get? callee with
      | some target =>
        (callTarget eval body target args context streams).andThen fun result streams =>
          resume result streams
      | none => .fail (.unknownSymbol callee) streams
    | .apply target args =>
      (eval target context streams).andThen fun target streams =>
        if target.isCallable then
          (callTarget eval body target args context streams).andThen fun result streams =>
            resume result streams
        else .fail (.notAClosure target) streams
    | .deferred .. => resume e streams

/-- Reduces in tail position: calls are deferred, everything else is evaluated. -/
def tail (eval body : Reduction) : Reduction := fun e context streams =>
  match e with
  | .call callee args =>
    (match context.get? callee with
    | some target => deferTarget eval target args context streams
    | none => .fail (.unknownSymbol callee) streams).inside e
  | .apply target args =>
    ((eval target context streams).andThen fun target streams =>
      deferTarget eval target args context streams).inside e
  | .block statements => (block eval body [] statements context streams).inside e
  | e => eval e context streams

/-- A failure is put inside the expression, unless that is a name: the failure to find it says
enough. -/
@[inline] def located (e : Expr) (outcome : Outcome Expr) : Outcome Expr :=
  match e with
  | .name _ => outcome
  | e => outcome.inside e

end Reduction

mutual
/-- Evaluates an expression within a number of steps. -/
def evaluate : Nat → Expr → Bindings → Streams → Outcome Expr
  | 0, _, _, _ => .exhausted
  | limit + 1, e, context, streams =>
    Reduction.located e
      (Reduction.step (evaluate limit) (evaluateTail limit) (resume limit) e context streams)

/-- Reduces an expression in tail position within a number of steps. -/
def evaluateTail : Nat → Expr → Bindings → Streams → Outcome Expr
  | 0, _, _, _ => .exhausted
  | limit + 1, e, context, streams =>
    Reduction.tail (evaluate limit) (evaluateTail limit) e context streams

/-- Makes deferred calls until a value is left. -/
def resume : Nat → Expr → Streams → Outcome Expr
  | 0, _, _ => .exhausted
  | limit + 1, result, streams =>
    match result with
    | .deferred target args =>
      match target with
      | .closure closure =>
        match Reduction.dispatch (evaluate limit) (evaluateTail limit) closure args streams with
        | .value next streams => resume limit next streams
        | .failure f streams => .failure f streams
        | .exhausted => .exhausted
      | other => .fail (.notAClosure other) streams
    | value => .value value streams
end

def execute (limit : Nat) (statement : Expr) (context : Bindings) (streams : Streams) :
    Outcome (Expr × Bindings) :=
  (evaluate limit statement context streams).andThen fun value streams =>
    .ofExcept ((install value context).map fun context => (value, context)) streams

end Song
