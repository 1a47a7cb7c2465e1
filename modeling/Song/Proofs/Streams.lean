import Mathlib.Data.List.Basic
import Song.Streams

/-!
# What happens on the streams

Streams are changed by writing, by complaining and by reading a line. A sequence of
such events says what became of them: the lines that were read and those that are
left are the lines that there were, and all texts stand after those before them.
-/
namespace Song

inductive Event where
  | wrote (text : String)
  | complained (text : String)
  /-- A line was asked for; there is none at the end of the input. -/
  | read (line : Option InputLine)
deriving Repr, DecidableEq

namespace Event

def line? : Event → Option InputLine
  | read line => line
  | _ => none

def tookLine (event : Event) : Bool :=
  event.line?.isSome

def output : Event → String
  | wrote text => text
  | _ => ""

def errors : Event → String
  | complained text => text
  | _ => ""

end Event

namespace Streams

/-- From the one state of the streams to the other these events happen, in order. -/
inductive Passes : Streams → List Event → Streams → Prop
  | done (streams : Streams) : Passes streams [] streams
  | wrote {streams after : Streams} {events : List Event} (text : String)
    (h : Passes (streams.write text) events after) : Passes streams (.wrote text :: events) after
  | complained {streams after : Streams} {events : List Event} (text : String)
    (h : Passes (streams.writeError text) events after) :
    Passes streams (.complained text :: events) after
  | read {streams after : Streams} {events : List Event}
    (h : Passes streams.readLine.2 events after) :
    Passes streams (.read streams.input.head? :: events) after

namespace Passes

variable {streams middle after : Streams} {events more : List Event}

theorem trans (h : Passes streams events middle) (hmore : Passes middle more after) :
    Passes streams (events ++ more) after := by
  induction h with
  | done => exact hmore
  | wrote text _ ih => exact .wrote text (ih hmore)
  | complained text _ ih => exact .complained text (ih hmore)
  | read _ ih => exact .read (ih hmore)

/-- The lines that were taken come before those that are left. -/
theorem input_eq (h : Passes streams events after) :
    streams.input = events.filterMap Event.line? ++ after.input := by
  induction h with
  | done => rfl
  | wrote _ _ ih | complained _ _ ih => exact ih
  | @read streams after events _ ih =>
    obtain ⟨input, output, errors⟩ := streams
    cases input with
    | nil => exact ih
    | cons line rest => exact congrArg (line :: ·) ih

theorem output_eq (h : Passes streams events after) :
    after.output = streams.output ++ String.join (events.map Event.output) := by
  induction h with
  | done => simp
  | wrote text _ ih => simp [ih, write, Event.output, String.append_assoc]
  | complained _ _ ih => simp [ih, writeError, Event.output]
  | @read streams after events _ ih =>
    have hkeep : streams.readLine.2.output = streams.output := by
      rw [readLine]
      split <;> rfl
    simp [ih, hkeep, Event.output]

theorem errors_eq (h : Passes streams events after) :
    after.errors = streams.errors ++ String.join (events.map Event.errors) := by
  induction h with
  | done => simp
  | wrote _ _ ih => simp [ih, write, Event.errors]
  | complained text _ ih => simp [ih, writeError, Event.errors, String.append_assoc]
  | @read streams after events _ ih =>
    have hkeep : streams.readLine.2.errors = streams.errors := by
      rw [readLine]
      split <;> rfl
    simp [ih, hkeep, Event.errors]

/-- The input has shrunk by the lines that were taken. -/
theorem length_input (h : Passes streams events after) :
    streams.input.length = events.countP Event.tookLine + after.input.length := by
  rw [h.input_eq, List.length_append, List.length_filterMap_eq_countP]
  rfl

end Passes
end Streams
end Song
