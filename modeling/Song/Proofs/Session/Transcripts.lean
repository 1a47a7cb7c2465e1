import Song.Proofs.Context.History
import Song.Proofs.Value.Reachable
import Song.Session
import Song.Transcript

/-!
# Transcripts and sessions

A transcript that ends at the first failure records what a session does with the same statements.
Saying what changed is saying how each name reads now, where it read differently before.
-/
namespace Song

def Step.result : Step → Except SessionError Expr
  | value v => .ok v
  | failed f | rejected _ f => .error (.failed f)
  | unfinished => .error .unfinished

namespace Transcript

variable {limit : Nat} {context : Bindings} {streams : Streams}

theorem step_eq (statement : Expr) (session : Session) :
    session.execute limit statement =
      let taken := step limit statement session.context session.streams
      (taken.1.result, { session with context := taken.2.1, streams := taken.2.2 }) := by
  rw [Session.execute, step, execute]
  cases evaluate limit statement session.context session.streams with
  | exhausted => rfl
  | failure f after => rfl
  | value v after =>
    dsimp only [Outcome.andThen]
    cases install v session.context <;> rfl

/-- A session that executes the statements ends with the context and the streams of the transcript,
and with the values of all its steps or with the error of the last one. -/
theorem executeAll_eq (statements : List Expr) (session : Session) :
    session.executeAll limit statements =
      let after := ofStatements limit false statements session.context session.streams
      (after.steps.mapM Step.result,
        { session with context := after.context, streams := after.streams }) := by
  induction statements generalizing session with
  | nil => rfl
  | cons statement rest ih =>
    rw [Session.executeAll, step_eq, ofStatements]
    dsimp only
    obtain ⟨taken, context, streams⟩ := step limit statement session.context session.streams
    cases taken with
    | value v =>
      simp only [Step.result, Step.isValue, Bool.true_or, if_true, ih, List.mapM_cons]
      cases (ofStatements limit false rest context streams).steps.mapM Step.result <;> rfl
    | _ => rfl

theorem step_reachable {statement : Expr} (hs : statement.IsParsed) (hc : Reachable context) :
    Reachable (step limit statement context streams).2.1 := by
  rw [step]
  cases he : execute limit statement context streams with
  | exhausted => exact hc
  | failure f after =>
    dsimp only
    split <;> exact hc
  | value result after => exact .execute hc hs he

/-- Transcripts of programs end in contexts that programs reach, also past failures. -/
theorem ofStatements_reachable {statements : List Expr} (hs : ∀ s ∈ statements, s.IsParsed)
    (hc : Reachable context) (keepGoing : Bool) :
    Reachable (ofStatements limit keepGoing statements context streams).context := by
  induction statements generalizing context streams with
  | nil => exact hc
  | cons statement rest ih =>
    obtain ⟨hfirst, hrest⟩ := List.forall_mem_cons.1 hs
    have hnext : Reachable (step limit statement context streams).2.1 := step_reachable hfirst hc
    rw [ofStatements]
    dsimp only
    split
    · exact ih hrest hnext
    · exact hnext

end Transcript

namespace Context

variable {α : Type}

theorem some_mem_changesSince_iff {render : α → String} {before now : Context α} (h : now.Ordered)
    {name text : String} :
    (name, some text) ∈ changesSince render before now ↔
      (now.get? name).map render = some text ∧ (before.get? name).map render ≠ some text := by
  simp only [changesSince, List.mem_append, List.mem_map, List.mem_filter, Prod.exists,
    Prod.mk.injEq, bne_iff_ne, Option.some.injEq, reduceCtorEq, and_false, exists_false, or_false,
    Option.map_eq_some_iff]
  constructor
  · rintro ⟨_, _, ⟨⟨_, value, hmem, rfl, rfl⟩, hnews⟩, rfl, rfl⟩
    exact ⟨⟨value, h.mem_bindings_iff.1 hmem, rfl⟩, hnews⟩
  · rintro ⟨⟨value, hget, rfl⟩, hnews⟩
    exact ⟨name, _, ⟨⟨name, value, h.mem_bindings_iff.2 hget, rfl, rfl⟩, hnews⟩, rfl, rfl⟩

theorem none_mem_changesSince_iff {render : α → String} {before now : Context α} {name : String} :
    (name, none) ∈ changesSince render before now ↔
      now.get? name = none ∧ before.get? name ≠ none := by
  simp [changesSince, mem_keys_iff, contains, and_comm, Option.isSome_iff_ne_none]

/-- The changes are the names that read differently, with how they read now. -/
theorem mem_changesSince_iff {render : α → String} {before now : Context α} (h : now.Ordered)
    {name : String} {shown : Option String} :
    (name, shown) ∈ changesSince render before now ↔
      (now.get? name).map render = shown ∧ (before.get? name).map render ≠ shown := by
  cases shown with
  | none => simp [none_mem_changesSince_iff]
  | some text => exact some_mem_changesSince_iff h

end Context
end Song
