import Song.Failure

/-!
# Outcomes

An evaluation gives a value or a failure, each with the streams as they are
then; or it uses up the steps that it was allowed.
-/
namespace Song

/-- How an evaluation ends. -/
inductive Outcome (α : Type) where
  | value (result : α) (streams : Streams)
  | failure (failure : Failure) (streams : Streams)
  | exhausted

namespace Outcome

variable {α β : Type}

@[inline] def andThen (outcome : Outcome α) (next : α → Streams → Outcome β) : Outcome β :=
  match outcome with
  | value result streams => next result streams
  | failure f streams => failure f streams
  | exhausted => exhausted

@[inline] def fail (cause : Cause) (streams : Streams) : Outcome α :=
  failure (.ofCause cause) streams

/-- A computation that does not touch the streams. -/
@[inline] def ofExcept (result : Except Cause α) (streams : Streams) : Outcome α :=
  match result with
  | .ok result => value result streams
  | .error cause => fail cause streams

@[inline] def inside (e : Expr) (outcome : Outcome α) : Outcome α :=
  match outcome with
  | failure f streams => failure (f.inside e) streams
  | other => other

end Outcome
end Song
