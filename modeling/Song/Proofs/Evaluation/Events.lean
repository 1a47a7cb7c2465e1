import Song.Proofs.Evaluation.Limit
import Song.Proofs.Streams

/-!
# What an evaluation does to the streams

The events of an evaluation are those of the built-in functions that it calls, in
the order of the calls: `in` reads a line, `out` and `err` write one. Each rule of
evaluation has the events of the reductions that it makes, up to the one that gives
no value; they are found by a function of the same name as the rule. The streams that
an evaluation leaves are what its events make of them.
-/
namespace Song

namespace Outcome

variable {α β : Type}

def streams? : Outcome α → Option Streams
  | value _ streams | failure _ streams => some streams
  | exhausted => none

def follow (outcome : Outcome α) (next : α → Streams → List Event) : List Event :=
  match outcome with
  | value result streams => next result streams
  | _ => []

/-- The outcome leaves the streams that the events lead to, if it leaves any. -/
def Passes (streams : Streams) (events : List Event) (outcome : Outcome α) : Prop :=
  ∀ after, outcome.streams? = some after → streams.Passes events after

namespace Passes

variable {streams : Streams} {events : List Event} {outcome : Outcome α}

theorem of_streams {after : Streams} (h : outcome.streams? = some after) :
    outcome.Passes after [] := by
  intro final hfinal
  cases h.symm.trans hfinal
  exact .done after

theorem value (result : α) (streams : Streams) : (Outcome.value result streams).Passes streams [] :=
  of_streams rfl

theorem fail (cause : Cause) (streams : Streams) :
    (Outcome.fail cause streams : Outcome α).Passes streams [] :=
  of_streams rfl

theorem ofExcept (result : Except Cause α) (streams : Streams) :
    (Outcome.ofExcept result streams).Passes streams [] := by
  cases result <;> exact of_streams rfl

theorem andThen (h : outcome.Passes streams events) {next : α → Streams → Outcome β}
    {more : α → Streams → List Event}
    (hnext : ∀ result middle, (next result middle).Passes middle (more result middle)) :
    (outcome.andThen next).Passes streams (events ++ outcome.follow more) := by
  intro after hafter
  cases outcome with
  | value result middle => exact (h middle rfl).trans (hnext result middle after hafter)
  | failure f middle =>
    change streams.Passes (events ++ []) after
    rw [List.append_nil]
    exact h after hafter
  | exhausted => cases hafter

/-- What comes next does not touch the streams. -/
theorem andThen_quiet (h : outcome.Passes streams events) {next : α → Streams → Outcome β}
    (hnext : ∀ result middle, (next result middle).Passes middle []) :
    (outcome.andThen next).Passes streams events := by
  have hboth := h.andThen hnext
  cases outcome <;> simpa [follow] using hboth

theorem inside (e : Expr) (h : outcome.Passes streams events) :
    (outcome.inside e).Passes streams events := by
  cases outcome <;> exact h

theorem located (e : Expr) {outcome : Outcome Expr} (h : outcome.Passes streams events) :
    (Reduction.located e outcome).Passes streams events := by
  cases e <;> first | exact h | exact h.inside _

end Passes
end Outcome

/-! ### The rules -/

structure Watched where
  reduce : Reduction
  events : Expr → Bindings → Streams → List Event

def Watched.IsFaithful (w : Watched) : Prop :=
  ∀ e context streams, (w.reduce e context streams).Passes streams (w.events e context streams)

def BuiltIn.events (b : BuiltIn) (args : List Expr) (streams : Streams) : List Event :=
  match b, args with
  | readLine, [] => [.read streams.input.head?]
  | readLine, [prompt] => [.wrote (String.ofList prompt.toText), .read streams.input.head?]
  | writeOut, [x] => [.wrote (lineOf x)]
  | writeErr, [x] => [.complained (lineOf x)]
  | _, _ => []

namespace Watched

def all (w : Watched) : List Expr → Bindings → Streams → List Event
  | [], _, _ => []
  | e :: rest, context, streams =>
    w.events e context streams ++ (w.reduce e context streams).follow fun _ streams =>
      all w rest context streams

/-- A connective whose first operand decides does not cause the events of the second one. -/
def callBuiltIn (w : Watched) (b : BuiltIn) (args : List Expr) (context : Bindings)
    (streams : Streams) : List Event :=
  if !b.accepts args.length then []
  else
    match b, args with
    | .operator .and, [left, right] =>
      w.events left context streams ++
        (Reduction.truth w.reduce left context streams).follow fun holds streams =>
          if holds then w.events right context streams else []
    | .operator .or, [left, right] =>
      w.events left context streams ++
        (Reduction.truth w.reduce left context streams).follow fun holds streams =>
          if holds then [] else w.events right context streams
    | b, args =>
      w.all args context streams ++
        (Reduction.all w.reduce args context streams).follow fun values streams =>
          b.events values streams

def arguments (w : Watched) (closure : Closure Expr) (args : List Expr) (context : Bindings)
    (streams : Streams) : List Event :=
  if closure.accepts args.length then w.all args context streams else []

def firstMatch (w body : Watched) (closure : Closure Expr) (args : List Expr) :
    List (Clause Expr) → Streams → List Event
  | [], _ => []
  | clause :: rest, streams =>
    match Expr.matchParameters clause.patterns args with
    | .error _ => []
    | .ok none => firstMatch w body closure args rest streams
    | .ok (some parameters) =>
      let context := closure.bodyContext parameters
      if clause.guard.isGuard then
        w.events clause.guard context streams ++
          (w.reduce clause.guard context streams).follow fun verdict streams =>
            match verdict with
            | .bool true => body.events clause.body context streams
            | .bool false => firstMatch w body closure args rest streams
            | _ => []
      else body.events clause.body context streams

def dispatch (w body : Watched) (closure : Closure Expr) (args : List Expr) (streams : Streams) :
    List Event :=
  firstMatch w body closure args closure.clauses streams

def callTarget (w body : Watched) (target : Expr) (args : List Expr) (context : Bindings)
    (streams : Streams) : List Event :=
  match target with
  | .builtIn b => w.callBuiltIn b args context streams
  | .closure closure =>
    w.arguments closure args context streams ++
      (Reduction.arguments w.reduce closure args context streams).follow fun values streams =>
        dispatch w body closure values streams
  | _ => []

def deferTarget (w : Watched) (target : Expr) (args : List Expr) (context : Bindings)
    (streams : Streams) : List Event :=
  match target with
  | .builtIn b => w.callBuiltIn b args context streams
  | .closure closure => w.arguments closure args context streams
  | _ => []

def block (w final : Watched) (declared : List String) :
    List Expr → Bindings → Streams → List Event
  | [], _, _ => []
  | [last], context, streams => final.events last (shadow declared last context).2 streams
  | statement :: rest, context, streams =>
    let entered := shadow declared statement context
    w.events statement entered.2 streams ++
      (w.reduce statement entered.2 streams).follow fun value streams =>
        match install value entered.2 with
        | .ok context => block w final entered.1 rest context streams
        | .error _ => []

end Watched

/-- Making the deferred calls that are left over, and the events that it causes. -/
structure WatchedResumption where
  resume : Expr → Streams → Outcome Expr
  events : Expr → Streams → List Event

def WatchedResumption.IsFaithful (r : WatchedResumption) : Prop :=
  ∀ result streams, (r.resume result streams).Passes streams (r.events result streams)

namespace Watched

def resumed (w body : Watched) (r : WatchedResumption) (target : Expr) (args : List Expr)
    (context : Bindings) (streams : Streams) : List Event :=
  w.callTarget body target args context streams ++
    (Reduction.callTarget w.reduce body.reduce target args context streams).follow r.events

def step (w body : Watched) (r : WatchedResumption) (e : Expr) (context : Bindings)
    (streams : Streams) : List Event :=
  match e with
  | .bool _ | .number _ | .char _ | .wildcard | .name _ | .function _ | .closure _ | .builtIn _ =>
    []
  | .list items => if items.all Expr.isAtom then [] else w.all items context streams
  | .cons heads tail =>
    w.all heads context streams ++
      (Reduction.all w.reduce heads context streams).follow fun _ streams =>
        w.events tail context streams
  | .assign _ value => w.events value context streams
  | .block statements => w.block w [] statements context streams
  | .call callee args =>
    match context.get? callee with
    | some target => w.resumed body r target args context streams
    | none => []
  | .apply target args =>
    w.events target context streams ++
      (w.reduce target context streams).follow fun target streams =>
        if target.isCallable then w.resumed body r target args context streams else []
  | .deferred .. => r.events e streams

def tail (w body : Watched) (e : Expr) (context : Bindings) (streams : Streams) : List Event :=
  match e with
  | .call callee args =>
    match context.get? callee with
    | some target => w.deferTarget target args context streams
    | none => []
  | .apply target args =>
    w.events target context streams ++
      (w.reduce target context streams).follow fun target streams =>
        w.deferTarget target args context streams
  | .block statements => w.block body [] statements context streams
  | e => w.events e context streams

end Watched

mutual
def evaluateEvents : Nat → Expr → Bindings → Streams → List Event
  | 0, _, _, _ => []
  | limit + 1, e, context, streams =>
    Watched.step ⟨evaluate limit, evaluateEvents limit⟩ ⟨evaluateTail limit, tailEvents limit⟩
      ⟨resume limit, resumeEvents limit⟩ e context streams

def tailEvents : Nat → Expr → Bindings → Streams → List Event
  | 0, _, _, _ => []
  | limit + 1, e, context, streams =>
    Watched.tail ⟨evaluate limit, evaluateEvents limit⟩ ⟨evaluateTail limit, tailEvents limit⟩ e
      context streams

/-- The events of the calls that are left over. -/
def resumeEvents : Nat → Expr → Streams → List Event
  | 0, _, _ => []
  | limit + 1, result, streams =>
    match result with
    | .deferred (.closure closure) args =>
      Watched.dispatch ⟨evaluate limit, evaluateEvents limit⟩
          ⟨evaluateTail limit, tailEvents limit⟩ closure args streams ++
        (Reduction.dispatch (evaluate limit) (evaluateTail limit) closure args streams).follow
          (resumeEvents limit)
    | _ => []
end

namespace BuiltIn

theorem takeLine_passes (streams : Streams) :
    (takeLine streams).Passes streams [.read streams.input.head?] := by
  intro after hafter
  have hleft : after = streams.readLine.2 := by
    rw [takeLine] at hafter
    split at hafter <;> cases hafter <;> simp [*]
  rw [hleft]
  exact .read (.done _)

theorem meaning_passes (b : BuiltIn) (args : List Expr) (streams : Streams) :
    (b.meaning args streams).Passes streams (b.events args streams) := by
  rw [meaning.eq_def]
  split
  · exact takeLine_passes streams
  · intro after hafter
    exact .wrote _ (takeLine_passes _ after hafter)
  · rintro _ ⟨⟩
    exact .wrote _ (.done _)
  · rintro _ ⟨⟩
    exact .complained _ (.done _)
  · have hquiet : b.events args streams = [] := by
      rw [events.eq_def]
      split <;> simp_all
    rw [hquiet]
    exact .ofExcept _ streams

end BuiltIn

namespace Watched

variable {w body : Watched} (hw : w.IsFaithful)

include hw

theorem all_passes (es : List Expr) (context : Bindings) (streams : Streams) :
    (Reduction.all w.reduce es context streams).Passes streams (w.all es context streams) := by
  induction es generalizing streams with
  | nil => exact .value [] streams
  | cons e rest ih =>
    apply (hw e context streams).andThen
    intro _ streams
    exact (ih streams).andThen_quiet fun _ streams => .value _ streams

theorem truth_passes (e : Expr) (context : Bindings) (streams : Streams) :
    (Reduction.truth w.reduce e context streams).Passes streams (w.events e context streams) :=
  (hw e context streams).andThen_quiet fun _ streams => .ofExcept _ streams

theorem callBuiltIn_passes (b : BuiltIn) (args : List Expr) (context : Bindings)
    (streams : Streams) :
    (Reduction.callBuiltIn w.reduce b args context streams).Passes streams
      (w.callBuiltIn b args context streams) := by
  have hsecond (e : Expr) (streams : Streams) :
      ((Reduction.truth w.reduce e context streams).andThen fun holds streams =>
        Outcome.value (Expr.bool holds) streams).Passes streams (w.events e context streams) :=
    (truth_passes hw e context streams).andThen_quiet fun _ streams => .value _ streams
  rw [Reduction.callBuiltIn.eq_def]
  split
  case isTrue haccepts =>
    rw [callBuiltIn.eq_def, if_pos haccepts]
    exact .fail _ streams
  case isFalse haccepts =>
    split
    case h_1 left right =>
      rw [callBuiltIn, if_neg haccepts]
      apply (truth_passes hw left context streams).andThen
      intro holds streams
      cases holds with
      | true => exact hsecond right streams
      | false => exact .value _ streams
    case h_2 left right =>
      rw [callBuiltIn, if_neg haccepts]
      apply (truth_passes hw left context streams).andThen
      intro holds streams
      cases holds with
      | true => exact .value _ streams
      | false => exact hsecond right streams
    case h_3 hand hor =>
      rw [callBuiltIn, if_neg haccepts]
      · exact (all_passes hw args context streams).andThen b.meaning_passes
      · exact hand
      · exact hor

theorem arguments_passes (closure : Closure Expr) (args : List Expr) (context : Bindings)
    (streams : Streams) :
    (Reduction.arguments w.reduce closure args context streams).Passes streams
      (w.arguments closure args context streams) := by
  rw [Reduction.arguments, arguments]
  split
  · exact all_passes hw args context streams
  · exact .fail _ streams

theorem firstMatch_passes (hbody : body.IsFaithful) (closure : Closure Expr) (args : List Expr)
    (clauses : List (Clause Expr)) (streams : Streams) :
    (Reduction.firstMatch w.reduce body.reduce closure args clauses streams).Passes streams
      (w.firstMatch body closure args clauses streams) := by
  induction clauses generalizing streams with
  | nil => exact .fail _ streams
  | cons clause rest ih =>
    rw [Reduction.firstMatch, firstMatch]
    cases Expr.matchParameters clause.patterns args with
    | error cause => exact .fail cause streams
    | ok matched =>
      cases matched with
      | none => exact ih streams
      | some parameters =>
        dsimp only
        split
        · apply (hw clause.guard _ streams).andThen
          intro verdict streams
          cases verdict with
          | bool holds =>
            cases holds with
            | true => exact hbody clause.body _ streams
            | false => exact ih streams
          | _ => exact .fail _ streams
        · exact hbody clause.body _ streams

theorem callTarget_passes (hbody : body.IsFaithful) (target : Expr) (args : List Expr)
    (context : Bindings) (streams : Streams) :
    (Reduction.callTarget w.reduce body.reduce target args context streams).Passes streams
      (w.callTarget body target args context streams) := by
  cases target with
  | builtIn b => exact callBuiltIn_passes hw b args context streams
  | closure closure =>
    apply (arguments_passes hw closure args context streams).andThen
    intro values streams
    exact firstMatch_passes hw hbody closure values closure.clauses streams
  | _ => exact .fail _ streams

theorem deferTarget_passes (target : Expr) (args : List Expr) (context : Bindings)
    (streams : Streams) :
    (Reduction.deferTarget w.reduce target args context streams).Passes streams
      (w.deferTarget target args context streams) := by
  cases target with
  | builtIn b => exact callBuiltIn_passes hw b args context streams
  | closure closure =>
    apply (arguments_passes hw closure args context streams).andThen_quiet
    intro _ streams
    exact .value _ streams
  | _ => exact .fail _ streams

theorem block_passes {final : Watched} (hfinal : final.IsFaithful) (declared : List String)
    (statements : List Expr) (context : Bindings) (streams : Streams) :
    (Reduction.block w.reduce final.reduce declared statements context streams).Passes streams
      (w.block final declared statements context streams) := by
  induction statements generalizing declared context streams with
  | nil => exact .fail _ streams
  | cons statement rest ih =>
    cases rest with
    | nil => exact hfinal statement _ streams
    | cons second rest =>
      apply (hw statement _ streams).andThen
      intro v streams
      cases install v (shadow declared statement context).2 with
      | error cause => exact .fail cause streams
      | ok next => exact ih _ next streams

theorem resumed_passes (hbody : body.IsFaithful) {r : WatchedResumption} (hr : r.IsFaithful)
    (target : Expr) (args : List Expr) (context : Bindings) (streams : Streams) :
    ((Reduction.callTarget w.reduce body.reduce target args context streams).andThen
      r.resume).Passes streams (w.resumed body r target args context streams) :=
  (callTarget_passes hw hbody target args context streams).andThen hr

theorem step_passes (hbody : body.IsFaithful) {r : WatchedResumption} (hr : r.IsFaithful)
    (e : Expr) (context : Bindings) (streams : Streams) :
    (Reduction.step w.reduce body.reduce r.resume e context streams).Passes streams
      (w.step body r e context streams) := by
  cases e with
  | bool | number | char | wildcard | closure | builtIn => exact .value _ streams
  | name n =>
    rw [Reduction.step]
    cases context.get? n with
    | none => exact .fail _ streams
    | some v => exact .value v streams
  | function clause => exact .ofExcept _ streams
  | list items =>
    rw [Reduction.step, step]
    split
    · exact .value _ streams
    · apply (all_passes hw items context streams).andThen_quiet
      intro _ streams
      exact .value _ streams
  | cons heads tail =>
    apply (all_passes hw heads context streams).andThen
    intro values streams
    apply (hw tail context streams).andThen_quiet
    intro rest streams
    cases rest.items? with
    | none => exact .fail _ streams
    | some items => exact .value _ streams
  | assign target value =>
    apply (hw value context streams).andThen_quiet
    intro _ streams
    exact .value _ streams
  | block statements => exact block_passes hw hw [] statements context streams
  | call callee args =>
    rw [Reduction.step, step]
    cases context.get? callee with
    | none => exact .fail _ streams
    | some target => exact resumed_passes hw hbody hr target args context streams
  | apply target args =>
    apply (hw target context streams).andThen
    intro v streams
    cases v.isCallable with
    | false => exact .fail _ streams
    | true => exact resumed_passes hw hbody hr v args context streams
  | deferred target args => exact hr _ streams

theorem tail_passes (hbody : body.IsFaithful) (e : Expr) (context : Bindings)
    (streams : Streams) :
    (Reduction.tail w.reduce body.reduce e context streams).Passes streams
      (w.tail body e context streams) := by
  cases e with
  | call callee args =>
    rw [Reduction.tail, tail]
    apply Song.Outcome.Passes.inside _
    cases context.get? callee with
    | none => exact .fail _ streams
    | some target => exact deferTarget_passes hw target args context streams
  | apply target args =>
    apply Outcome.Passes.inside _
    apply (hw target context streams).andThen
    intro v streams
    exact deferTarget_passes hw v args context streams
  | block statements => exact .inside _ (block_passes hw hbody [] statements context streams)
  | _ => exact hw _ context streams

end Watched

private theorem events_faithful (limit : Nat) :
    Watched.IsFaithful ⟨evaluate limit, evaluateEvents limit⟩ ∧
      Watched.IsFaithful ⟨evaluateTail limit, tailEvents limit⟩ ∧
      WatchedResumption.IsFaithful ⟨resume limit, resumeEvents limit⟩ := by
  induction limit with
  | zero => exact ⟨nofun, nofun, nofun⟩
  | succ limit ih =>
    obtain ⟨heval, htail, hresume⟩ := ih
    refine ⟨?_, ?_, ?_⟩
    · intro e context streams
      exact .located e (Watched.step_passes heval htail hresume e context streams)
    · intro e context streams
      exact Watched.tail_passes heval htail e context streams
    · intro result streams
      cases result with
      | deferred target args =>
        cases target with
        | closure closure =>
          change (resume (limit + 1) (.deferred (.closure closure) args) streams).Passes streams _
          rw [resume_deferred]
          exact (Watched.firstMatch_passes heval htail closure args closure.clauses streams).andThen
            hresume
        | _ => exact .fail _ streams
      | _ => exact .value _ streams

/-- The streams that an evaluation leaves are what its events make of them. -/
theorem evaluate_passes {limit : Nat} {e : Expr} {context : Bindings} {streams after : Streams}
    (h : (evaluate limit e context streams).streams? = some after) :
    streams.Passes (evaluateEvents limit e context streams) after :=
  (events_faithful limit).1 e context streams after h

end Song
