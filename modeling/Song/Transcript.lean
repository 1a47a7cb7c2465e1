import Song.Evaluation

/-!
# Transcripts

The record of executing statements one after the other, and what has to be said of the context
after them.
-/
namespace Song

inductive Step where
  | value (result : Expr)
  | failed (failure : Failure)
  /-- The statement has a value, but that cannot be installed. -/
  | rejected (result : Expr) (failure : Failure)
  | unfinished

def Step.isValue : Step → Bool
  | value _ => true
  | _ => false

structure Transcript where
  steps : List Step
  context : Bindings
  streams : Streams

namespace Transcript

/-- Executes one statement. If that fails the context stays as it was. -/
def step (limit : Nat) (statement : Expr) (context : Bindings) (streams : Streams) :
    Step × Bindings × Streams :=
  match execute limit statement context streams with
  | .value (result, next) after => (.value result, next, after)
  | .exhausted => (.unfinished, context, streams)
  | .failure f after =>
    match evaluate limit statement context streams with
    | .value result _ => (.rejected result f, context, after)
    | _ => (.failed f, context, after)

/-- Executes statements in order, up to the first failure or, with `keepGoing`, all of them. -/
def ofStatements (limit : Nat) (keepGoing : Bool) :
    List Expr → Bindings → Streams → Transcript
  | [], context, streams => ⟨[], context, streams⟩
  | statement :: rest, context, streams =>
    let (taken, context, streams) := step limit statement context streams
    if taken.isValue || keepGoing then
      let after := ofStatements limit keepGoing rest context streams
      { after with steps := taken :: after.steps }
    else ⟨[taken], context, streams⟩

end Transcript

/-- What has to be said of this context to someone who knows `before`: first each binding that
is new or reads differently, then each name that is gone. -/
def Context.changesSince {α : Type} (render : α → String) (before now : Context α) :
    List (String × Option String) :=
  let isNews (name text : String) : Bool := (before.get? name).map render != some text
  let shown := now.bindings.map fun binding => (binding.1, render binding.2)
  (shown.filter fun entry => isNews entry.1 entry.2).map (fun entry => (entry.1, some entry.2)) ++
    (before.keys.filter fun name => !now.contains name).map fun name => (name, none)

end Song
