import Song.Proofs.Evaluation.Deferred
import Song.Proofs.Evaluation.Limit

/-!
# Deferring tail calls does not change what a program means

The reference makes every call in place: a body is evaluated like any other
expression, and nothing is ever deferred. The evaluator ends in a value exactly
when the reference does, with the same value and the same streams, and it fails
exactly when the reference does. The causes are the same, except that for the call
of a value that cannot be called the two have different words.
-/
namespace Song

open Filter

/-- Evaluates within a number of steps and makes every call where it stands. -/
def evaluateInPlace : Nat → Expr → Bindings → Streams → Outcome Expr
  | 0, _, _, _ => .exhausted
  | limit + 1, e, context, streams =>
    Reduction.located e
      (Reduction.step (evaluateInPlace limit) (evaluateInPlace limit) .value e context streams)

/-- The failure of the evaluator stands for that of the reference: the cause is the same, or both
arose in the call of a value that cannot be called. -/
inductive Failure.StandsFor (f g : Failure) : Prop
  | same (h : f.cause = g.cause)
  | target {v target : Expr} {args : List Expr} (hv : v.isCallable = false)
    (hf : f.cause = .notAFunction v) (hg : g.cause = .notAClosure v)
    (hfe : f.within.getLast? = some (.apply target args))
    (hge : g.within.getLast? = some (.apply target args))

namespace Failure.StandsFor

theorem refl (f : Failure) : f.StandsFor f :=
  .same rfl

theorem inside_left {f g : Failure} (e : Expr) (h : f.StandsFor g) : (f.inside e).StandsFor g := by
  cases h with
  | same h => exact .same h
  | target hv hf hg hfe hge =>
    refine .target hv hf hg ?_ hge
    rw [Failure.inside, List.getLast?_cons, hfe]
    rfl

theorem inside_right {f g : Failure} (e : Expr) (h : f.StandsFor g) : f.StandsFor (g.inside e) := by
  cases h with
  | same h => exact .same h
  | target hv hf hg hfe hge =>
    refine .target hv hf hg hfe ?_
    rw [Failure.inside, List.getLast?_cons, hge]
    rfl

/-- The two words for the call of a value that cannot be called. -/
theorem notCallable {v : Expr} (hv : v.isCallable = false) (target : Expr) (args : List Expr) :
    ((Failure.ofCause (.notAFunction v)).inside (.apply target args)).StandsFor
      ((Failure.ofCause (.notAClosure v)).inside (.apply target args)) :=
  .target hv rfl rfl rfl rfl

end Failure.StandsFor

theorem deferTarget_of_not_callable {eval : Reduction} {v : Expr} {args : List Expr}
    {context : Bindings} {streams : Streams} (h : ¬v.isCallable = true) :
    Reduction.deferTarget eval v args context streams = .fail (.notAFunction v) streams := by
  cases v <;> first | rfl | exact absurd rfl h

private abbrev Forward : Outcome Expr → (Nat → Outcome Expr) → Prop :=
  Outcome.Approximates Expr.NoDeferred Failure.StandsFor

private theorem forward_inside (e : Expr) (f g : Failure) (h : f.StandsFor g) :
    (f.inside e).StandsFor (g.inside e) :=
  (h.inside_left e).inside_right e

/-- What a tail position gives stands for what the reference gives: it is already its outcome, or
a deferred call that, whatever it comes to, comes to that for the reference too. -/
private inductive TailForward : Outcome Expr → (Nat → Outcome Expr) → Prop
  | done {outcome : Outcome Expr} {family : Nat → Outcome Expr} (h : Forward outcome family) :
    TailForward outcome family
  | deferred {closure : Closure Expr} {args : List Expr} {streams : Streams}
    {family : Nat → Outcome Expr} (hc : Expr.NoDeferred (.closure closure))
    (hargs : ∀ v ∈ args, v.NoDeferred)
    (h : ∀ outcome, Forward outcome (fun n =>
      Reduction.dispatch (evaluateInPlace n) (evaluateInPlace n) closure args streams) →
        Forward outcome family) :
    TailForward (.value (.deferred (.closure closure) args) streams) family

namespace TailForward

theorem observation : Outcome.Observation Expr.NoDeferred Failure.StandsFor TailForward where
  exhausted family := .done (.exhausted family)
  value streams h := .done (Outcome.Approximates.observation.value streams h)
  failure h := .done (.failure h)
  congr h ht := by
    cases ht with
    | done ha => exact .done (ha.congr h)
    | deferred hc hargs hd => exact .deferred hc hargs fun outcome ho => (hd outcome ho).congr h

theorem shift {outcome : Outcome Expr} {family : Nat → Outcome Expr}
    (h : TailForward outcome fun n => family (n + 1)) : TailForward outcome family := by
  cases h with
  | done ha => exact .done ha.shift
  | deferred hc hargs hd => exact .deferred hc hargs fun outcome ho => (hd outcome ho).shift

theorem inside {outcome : Outcome Expr} {family : Nat → Outcome Expr} (e : Expr)
    (h : TailForward outcome family) :
    TailForward (outcome.inside e) fun n => (family n).inside e := by
  cases h with
  | done ha => exact .done (ha.inside e (forward_inside e))
  | deferred hc hargs hd =>
    apply deferred hc hargs
    intro outcome ho
    apply (hd outcome ho).inside_family e
    intro _ _ h
    exact h.inside_right e

/-- Resuming what a tail position gives stands for the reference, if resuming deferred calls
stands for making them. -/
theorem resume {outcome : Outcome Expr} {family : Nat → Outcome Expr} {limit : Nat}
    (hresume : ∀ closure args streams, Expr.NoDeferred (.closure closure) →
      (∀ v ∈ args, v.NoDeferred) →
      Forward (resume limit (.deferred (.closure closure) args) streams)
        fun n => Reduction.dispatch (evaluateInPlace n) (evaluateInPlace n) closure args streams)
    (h : TailForward outcome family) : Forward (outcome.andThen (Song.resume limit)) family := by
  cases h with
  | done ha =>
    have hlast : Forward (outcome.andThen (Song.resume limit))
        fun n => (family n).andThen .value := by
      apply ha.andThen Outcome.Approximates.observation
      intro v streams hv
      cases limit with
      | zero => exact .exhausted _
      | succ limit =>
        rw [resume_noDeferred hv]
        exact Outcome.Approximates.observation.value streams hv
    simpa only [Outcome.andThen_value] using hlast
  | deferred hc hargs hd => exact hd _ (hresume _ _ _ hc hargs)

end TailForward

private structure SimulatedInPlace (limit : Nat) : Prop where
  evaluate : Reduction.Observed Expr.NoDeferred Expr.NoDeferred Forward (evaluate limit)
    evaluateInPlace
  evaluateTail : Reduction.Observed Expr.NoDeferred Expr.NoDeferred TailForward
    (evaluateTail limit) evaluateInPlace
  resume (closure : Closure Expr) (args : List Expr) (streams : Streams)
    (hc : Expr.NoDeferred (.closure closure)) (hargs : ∀ v ∈ args, v.NoDeferred) :
    Forward (resume limit (.deferred (.closure closure) args) streams)
      fun n => Reduction.dispatch (evaluateInPlace n) (evaluateInPlace n) closure args streams

namespace SimulatedInPlace

variable {limit : Nat}

private theorem evaluate_succ (ih : SimulatedInPlace limit) :
    Reduction.Observed Expr.NoDeferred Expr.NoDeferred Forward (Song.evaluate (limit + 1))
      evaluateInPlace := by
  intro e context streams hs hc
  apply Outcome.Approximates.shift
  apply Outcome.Approximates.located forward_inside
  refine Expr.NoDeferred.invariant.step_approximates Failure.StandsFor.refl ih.evaluate ?_ ?_
    e context streams hs hc
  · intro target args context streams ht hargs hc
    simp only [Outcome.andThen_value]
    exact TailForward.resume ih.resume (Expr.NoDeferred.invariant.callTarget_observed
      Failure.StandsFor.refl ih.evaluate TailForward.observation ih.evaluateTail ht hargs hc
      streams)
  · intro target args streams h
    cases h

/-- A call in tail position is deferred where the reference makes it. -/
private theorem deferTarget_forward (ih : SimulatedInPlace limit) {target : Expr}
    {args : List Expr} {context : Bindings} (ht : target.NoDeferred)
    (hargs : ∀ e ∈ args, e.NoDeferred) (hc : context.All Expr.NoDeferred) (streams : Streams) :
    TailForward (Reduction.deferTarget (Song.evaluate limit) target args context streams)
      fun n => Reduction.callTarget (evaluateInPlace n) (evaluateInPlace n) target args context
        streams := by
  cases target
  case builtIn b =>
    exact .done (Expr.NoDeferred.invariant.callBuiltIn_approximates Failure.StandsFor.refl
      ih.evaluate hargs hc streams)
  case closure closure =>
    apply (Invariant.arguments_approximates Failure.StandsFor.refl ih.evaluate hargs hc
      streams).andThen TailForward.observation
    intro values streams hvalues
    apply TailForward.deferred ht hvalues
    intro _ ho
    exact ho
  all_goals exact TailForward.observation.fail Failure.StandsFor.refl _ _

private theorem evaluateTail_succ (ih : SimulatedInPlace limit) :
    Reduction.Observed Expr.NoDeferred Expr.NoDeferred TailForward
      (Song.evaluateTail (limit + 1)) evaluateInPlace := by
  intro e context streams hs hc
  cases e
  case call callee args =>
    apply TailForward.shift
    apply TailForward.inside _
    simp only [Reduction.step, Outcome.andThen_value]
    split
    case h_1 target htarget =>
      exact ih.deferTarget_forward (hc.get? htarget) (Expr.NoDeferred.invariant.callArgs hs) hc
        streams
    case h_2 => exact TailForward.observation.fail Failure.StandsFor.refl _ _
  case apply target args =>
    apply TailForward.shift
    -- The expression goes around each step, so that the two words for a target that cannot be
    -- called are compared within it.
    simp only [Song.evaluateTail, Reduction.tail, evaluateInPlace, Reduction.located,
      Reduction.step, Outcome.andThen_value, Outcome.inside_andThen]
    apply ((ih.evaluate target context streams (Expr.NoDeferred.invariant.target hs)
      hc).inside _ (forward_inside _)).andThen TailForward.observation
    intro v streams hv
    split
    case isTrue =>
      exact (ih.deferTarget_forward hv (Expr.NoDeferred.invariant.applyArgs hs) hc
        streams).inside _
    case isFalse hcallable =>
      rw [deferTarget_of_not_callable hcallable]
      have hwords := Failure.StandsFor.notCallable (Bool.eq_false_of_not_eq_true hcallable) target
        args
      exact .done (.failure (Eventually.of_forall fun _ => ⟨_, rfl, hwords⟩))
  case block statements =>
    apply TailForward.shift
    apply TailForward.inside _
    exact Expr.NoDeferred.invariant.block_observed Failure.StandsFor.refl ih.evaluate
      TailForward.observation ih.evaluateTail (Expr.NoDeferred.invariant.statements hs) hc []
      streams
  all_goals exact .done (ih.evaluate _ context streams hs hc)

end SimulatedInPlace

private theorem simulatedInPlace (limit : Nat) : SimulatedInPlace limit := by
  induction limit with
  | zero => exact ⟨fun _ _ _ _ _ => .exhausted _, fun _ _ _ _ _ => .done (.exhausted _),
      fun _ _ _ _ _ => .exhausted _⟩
  | succ limit ih =>
    refine ⟨ih.evaluate_succ, ih.evaluateTail_succ, ?_⟩
    intro closure args streams hc hargs
    rw [resume_deferred]
    exact TailForward.resume ih.resume (Expr.NoDeferred.invariant.dispatch_observed
      Failure.StandsFor.refl ih.evaluate TailForward.observation ih.evaluateTail hc hargs streams)

/-- The relation of failures as the reference sees it. -/
private def IsStoodFor (g f : Failure) : Prop :=
  f.StandsFor g

private abbrev Backward : Outcome Expr → (Nat → Outcome Expr) → Prop :=
  Outcome.Approximates Expr.NoDeferred IsStoodFor

private theorem backward_inside (e : Expr) (g f : Failure) (h : IsStoodFor g f) :
    IsStoodFor (g.inside e) (f.inside e) :=
  forward_inside e f g h

private theorem isStoodFor_refl (f : Failure) : IsStoodFor f f :=
  Failure.StandsFor.refl f

/-- The outcome of the reference is what a tail position comes to once it is resumed. -/
private def TailBackward (outcome : Outcome Expr) (family : Nat → Outcome Expr) : Prop :=
  Backward outcome fun n => (family n).andThen (resume n)

private theorem resume_eventually {v : Expr} (hv : v.NoDeferred) (streams : Streams) :
    ∀ᶠ n in atTop, resume n v streams = .value v streams := by
  filter_upwards [eventually_ge_atTop 1] with n hn
  obtain ⟨limit, rfl⟩ := Nat.exists_eq_add_of_le' hn
  exact resume_noDeferred hv limit streams

namespace TailBackward

theorem observation :
    Outcome.Observation Expr.NoDeferred IsStoodFor TailBackward where
  exhausted family := .exhausted _
  value streams h := .value h (resume_eventually h streams)
  failure h := .failure (h.mono fun n ⟨g, hg, hR⟩ => ⟨g, by rw [hg]; rfl, hR⟩)
  congr h ht := Outcome.Approximates.congr (h.mono fun n hn => by rw [hn]) ht

/-- One step more for resuming gives the same. -/
theorem resume_succ {outcome : Outcome Expr} {family : Nat → Outcome Expr}
    (h : TailBackward outcome family) :
    Backward outcome fun n => (family n).andThen (resume (n + 1)) :=
  Outcome.Approximates.resume_succ h

end TailBackward

/-- The evaluator may put an expression around the failure of a first step only. -/
private theorem backward_inside_first (e : Expr) {outcome : Outcome Expr}
    {family : Nat → Outcome Expr} {next : Nat → Expr → Streams → Outcome Expr}
    (h : Backward outcome fun n => (family n).andThen (next n)) :
    Backward (outcome.inside e) fun n => ((family n).inside e).andThen (next n) :=
  h.inside_first e (backward_inside e) fun _ _ hR => Failure.StandsFor.inside_right e hR

/-- What is no deferred call is left as it is by resuming. -/
private theorem backward_resumed {outcome : Outcome Expr} {family : Nat → Outcome Expr}
    (h : Backward outcome family) :
    Backward outcome fun n => (family n).andThen (resume (n + 1)) := by
  have hlast : Backward (outcome.andThen .value)
      fun n => (family n).andThen (resume (n + 1)) :=
    h.andThen Outcome.Approximates.observation fun v streams hv =>
      .value hv (Eventually.of_forall fun n => resume_noDeferred hv n streams)
  simpa only [Outcome.andThen_value] using hlast

private structure SimulatesInPlace (limit : Nat) : Prop where
  evaluate : Reduction.Observed Expr.NoDeferred Expr.NoDeferred Backward (evaluateInPlace limit)
    evaluate
  evaluateTail : Reduction.Observed Expr.NoDeferred Expr.NoDeferred TailBackward
    (evaluateInPlace limit) evaluateTail

namespace SimulatesInPlace

variable {limit : Nat}

private theorem evaluate_succ (ih : SimulatesInPlace limit) :
    Reduction.Observed Expr.NoDeferred Expr.NoDeferred Backward (evaluateInPlace (limit + 1))
      Song.evaluate := by
  intro e context streams hs hc
  apply Outcome.Approximates.shift
  apply Outcome.Approximates.located backward_inside
  refine Expr.NoDeferred.invariant.step_approximates isStoodFor_refl ih.evaluate ?_ ?_ e context
    streams hs hc
  · intro target args context streams ht hargs hc
    rw [Outcome.andThen_value]
    exact Expr.NoDeferred.invariant.callTarget_observed isStoodFor_refl ih.evaluate
      TailBackward.observation ih.evaluateTail ht hargs hc streams
  · intro target args streams h
    cases h

/-- The reference makes a call where the evaluator defers it and resumes it. -/
private theorem callTarget_backward (ih : SimulatesInPlace limit) {target : Expr}
    {args : List Expr} {context : Bindings} (ht : target.NoDeferred)
    (hargs : ∀ e ∈ args, e.NoDeferred) (hc : context.All Expr.NoDeferred) (streams : Streams) :
    Backward (Reduction.callTarget (evaluateInPlace limit) (evaluateInPlace limit) target args
        context streams)
      fun n => (Reduction.deferTarget (Song.evaluate n) target args context streams).andThen
        (resume (n + 1)) := by
  cases target
  case builtIn b =>
    exact backward_resumed (Expr.NoDeferred.invariant.callBuiltIn_approximates isStoodFor_refl
      ih.evaluate hargs hc streams)
  case closure closure =>
    simp only [Reduction.deferTarget, Outcome.andThen_assoc]
    apply (Invariant.arguments_approximates isStoodFor_refl ih.evaluate hargs hc streams).andThen
      Outcome.Approximates.observation
    intro values streams hvalues
    simp only [Outcome.andThen, resume_deferred]
    exact Expr.NoDeferred.invariant.dispatch_observed isStoodFor_refl ih.evaluate
      TailBackward.observation ih.evaluateTail ht hvalues streams
  all_goals exact Outcome.Approximates.observation.fail isStoodFor_refl _ _

private theorem evaluateTail_succ (ih : SimulatesInPlace limit) :
    Reduction.Observed Expr.NoDeferred Expr.NoDeferred TailBackward
      (evaluateInPlace (limit + 1)) Song.evaluateTail := by
  intro e context streams hs hc
  apply Outcome.Approximates.shift
  cases e
  case call callee args =>
    apply backward_inside_first _
    simp only [Reduction.step, Outcome.andThen_value]
    split
    case h_1 target htarget =>
      exact ih.callTarget_backward (hc.get? htarget) (Expr.NoDeferred.invariant.callArgs hs) hc
        streams
    case h_2 => exact Outcome.Approximates.observation.fail isStoodFor_refl _ _
  case apply target args =>
    simp only [Song.evaluateTail, Reduction.tail, evaluateInPlace, Reduction.located,
      Reduction.step, Outcome.andThen_value, Outcome.inside_andThen, Outcome.andThen_assoc]
    apply ((ih.evaluate target context streams (Expr.NoDeferred.invariant.target hs)
      hc).inside _ (backward_inside _)).andThen Outcome.Approximates.observation
    intro v streams hv
    split
    case isTrue =>
      exact backward_inside_first _ (ih.callTarget_backward hv
        (Expr.NoDeferred.invariant.applyArgs hs) hc streams)
    case isFalse hcallable =>
      simp only [deferTarget_of_not_callable hcallable]
      have hwords := Failure.StandsFor.notCallable (Bool.eq_false_of_not_eq_true hcallable) target
        args
      exact .failure (Eventually.of_forall fun _ => ⟨_, rfl, hwords⟩)
  case block statements =>
    apply backward_inside_first _
    apply TailBackward.resume_succ
    exact Expr.NoDeferred.invariant.block_observed isStoodFor_refl ih.evaluate
      TailBackward.observation ih.evaluateTail (Expr.NoDeferred.invariant.statements hs) hc []
      streams
  all_goals exact backward_resumed (ih.evaluate_succ _ context streams hs hc)

end SimulatesInPlace

private theorem simulatesInPlace (limit : Nat) : SimulatesInPlace limit := by
  induction limit with
  | zero => exact ⟨fun _ _ _ _ _ => .exhausted _, fun _ _ _ _ _ => .exhausted _⟩
  | succ limit ih => exact ⟨ih.evaluate_succ, ih.evaluateTail_succ⟩

/-- What the evaluator comes to, the reference comes to. -/
theorem evaluate_approximates (limit : Nat) :
    Reduction.Approximates Expr.NoDeferred Expr.NoDeferred Failure.StandsFor (evaluate limit)
      evaluateInPlace :=
  (simulatedInPlace limit).evaluate

/-- What the reference comes to, the evaluator comes to. -/
theorem evaluateInPlace_approximates (limit : Nat) :
    Reduction.Approximates Expr.NoDeferred Expr.NoDeferred (fun g f => f.StandsFor g)
      (evaluateInPlace limit) evaluate :=
  (simulatesInPlace limit).evaluate

/-- A program means the same whether its tail calls are deferred or made in place. -/
theorem evaluate_iff_evaluateInPlace (e : Expr) (context : Bindings) (streams : Streams)
    (he : e.NoDeferred) (hc : context.All Expr.NoDeferred) :
    (∀ v after, (∃ n, evaluate n e context streams = .value v after) ↔
      ∃ n, evaluateInPlace n e context streams = .value v after) ∧
    (∀ f after, (∃ n, evaluate n e context streams = .failure f after) →
      ∃ n g, evaluateInPlace n e context streams = .failure g after ∧ f.StandsFor g) ∧
    (∀ g after, (∃ n, evaluateInPlace n e context streams = .failure g after) →
      ∃ n f, evaluate n e context streams = .failure f after ∧ f.StandsFor g) := by
  have forward (n : Nat) := evaluate_approximates n e context streams he hc
  have backward (n : Nat) := evaluateInPlace_approximates n e context streams he hc
  refine ⟨fun v after => ⟨?_, ?_⟩, ?_, ?_⟩
  · rintro ⟨n, hn⟩
    exact (hn ▸ forward n).of_value.2.exists
  · rintro ⟨n, hn⟩
    exact (hn ▸ backward n).of_value.2.exists
  · rintro f after ⟨n, hn⟩
    exact (hn ▸ forward n).of_failure.exists
  · rintro g after ⟨n, hn⟩
    exact (hn ▸ backward n).of_failure.exists

/-- One function `f`, whose body calls its parameter. -/
def callsParameter : Bindings :=
  .ofList [("f", .closure (.ofClause (some "f")
    ⟨some "f", [.name "x"], .bool true, .apply (.name "x") []⟩ .empty))]

theorem callsParameter_noDeferred : callsParameter.All Expr.NoDeferred := by
  refine Context.all_empty.insert "f" (.closure ?_ ?_ ?_ Context.all_empty) <;>
    intro clause hclause <;> cases List.mem_singleton.1 hclause
  · intro p hp
    cases List.mem_singleton.1 hp
    exact .name "x"
  · exact .bool true
  · exact .apply (.name "x") (List.forall_mem_nil _)

-- The evaluator and the reference name the failure of `f(true)` differently.
example : evaluate 5 (.call "f" [.bool true]) callsParameter (.ofText "") =
    .failure ⟨[.call "f" [.bool true], .apply (.name "x") []], .notAFunction (.bool true)⟩
      (.ofText "") := rfl

example : evaluateInPlace 5 (.call "f" [.bool true]) callsParameter (.ofText "") =
    .failure ⟨[.call "f" [.bool true], .apply (.name "x") []], .notAClosure (.bool true)⟩
      (.ofText "") := rfl

theorem evaluate_iff_evaluateInPlace_callsParameter :
    (Expr.call "f" [.bool true]).NoDeferred ∧ callsParameter.All Expr.NoDeferred ∧
    (∀ v after,
      (∃ n, evaluate n (.call "f" [.bool true]) callsParameter (.ofText "") = .value v after) ↔
        ∃ n, evaluateInPlace n (.call "f" [.bool true]) callsParameter (.ofText "") =
          .value v after) ∧
    ∃ n g, evaluateInPlace n (.call "f" [.bool true]) callsParameter (.ofText "") =
      .failure g (.ofText "") ∧ Failure.StandsFor
        ⟨[.call "f" [.bool true], .apply (.name "x") []], .notAFunction (.bool true)⟩ g := by
  have he : (Expr.call "f" [.bool true]).NoDeferred := by
    apply Expr.NoDeferred.call
    intro e hmem
    cases List.mem_singleton.1 hmem
    exact .bool true
  have hall := evaluate_iff_evaluateInPlace (.call "f" [.bool true]) callsParameter (.ofText "")
    he callsParameter_noDeferred
  exact ⟨he, callsParameter_noDeferred, hall.1, hall.2.1 _ _ ⟨5, rfl⟩⟩

end Song
