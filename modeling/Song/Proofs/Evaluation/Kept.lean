import Song.Proofs.Evaluation.Limit

/-!
# Evaluation keeps to invariants

Source expressions evaluated in contexts of values give values, for every invariant
that has no deferred call among its source expressions and its values. In tail
position a call of values may be left over as well; resuming it gives a value.
-/
namespace Song.Invariant

variable {source value : Expr → Prop}

/-- What a tail position gives: a value, or the deferred call of a function with values. -/
private inductive Tail (value : Expr → Prop) : Expr → Prop
  | value {v : Expr} (h : value v) : Tail value v
  | deferred {closure : Closure Expr} {args : List Expr} (hc : value (.closure closure))
    (hargs : ∀ v ∈ args, value v) : Tail value (.deferred (.closure closure) args)

private abbrev Keeps (P : Expr → Prop) (outcome : Outcome Expr) : Prop :=
  Outcome.Approximates P Eq outcome fun _ => outcome

private theorem observation_tail :
    Outcome.Observation value Eq fun outcome _ => Keeps (Tail value) outcome where
  exhausted _ := .exhausted _
  value streams h := Outcome.Approximates.observation.value streams (.value h)
  failure _ := .failure (.of_forall fun _ => ⟨_, rfl, rfl⟩)
  congr _ h := h

/-- Within this number of steps evaluation keeps to the values. -/
private structure Kept (source value : Expr → Prop) (limit : Nat) : Prop where
  evaluate : Reduction.Observed source value (fun outcome _ => Keeps value outcome)
    (evaluate limit) fun _ => evaluate limit
  evaluateTail : Reduction.Observed source value (fun outcome _ => Keeps (Tail value) outcome)
    (evaluateTail limit) fun _ => evaluateTail limit
  resume (v : Expr) (streams : Streams) (hv : Tail value v) : Keeps value (resume limit v streams)

variable (I : Invariant source value) (hsource : ∀ target args, ¬source (.deferred target args))
  (hvalue : ∀ target args, ¬value (.deferred target args))

include I

private theorem deferTarget_keeps {limit : Nat} (h : Kept source value limit) {target : Expr}
    {args : List Expr} {context : Bindings} (ht : value target) (hargs : ∀ e ∈ args, source e)
    (hc : context.All value) (streams : Streams) :
    Keeps (Tail value)
      (Reduction.deferTarget (Song.evaluate limit) target args context streams) := by
  have hR : ∀ f : Failure, f = f := fun _ => rfl
  cases target
  case builtIn b =>
    exact (I.callBuiltIn_approximates hR h.evaluate hargs hc streams).observed observation_tail
  case closure closure =>
    apply (arguments_approximates hR h.evaluate hargs hc streams).andThen
      Outcome.Approximates.observation
    intro values streams hvalues
    exact Outcome.Approximates.observation.value streams (.deferred ht hvalues)
  all_goals exact Outcome.Approximates.observation.fail hR _ _

private theorem evaluateTail_keeps {limit : Nat} (h : Kept source value limit) :
    Reduction.Observed source value (fun outcome _ => Keeps (Tail value) outcome)
      (Song.evaluateTail (limit + 1)) fun _ => Song.evaluateTail (limit + 1) := by
  have hR : ∀ f : Failure, f = f := fun _ => rfl
  have hinside (e : Expr) (f g : Failure) (h : f = g) : f.inside e = g.inside e := by rw [h]
  intro e context streams hs hc
  cases e
  case call callee args =>
    apply Outcome.Approximates.inside _ (hinside _)
    split
    case h_1 target htarget =>
      exact I.deferTarget_keeps h (hc.get? htarget) (I.callArgs hs) hc streams
    case h_2 => exact Outcome.Approximates.observation.fail hR _ _
  case apply target args =>
    apply Outcome.Approximates.inside _ (hinside _)
    apply (h.evaluate target context streams (I.target hs) hc).andThen
      Outcome.Approximates.observation
    intro v streams hv
    exact I.deferTarget_keeps h hv (I.applyArgs hs) hc streams
  case block statements =>
    apply Outcome.Approximates.inside _ (hinside _)
    exact I.block_observed hR h.evaluate observation_tail h.evaluateTail (I.statements hs) hc []
      streams
  all_goals exact (h.evaluate _ context streams hs hc).observed observation_tail

include hvalue

private theorem resume_keeps {limit : Nat} (h : Kept source value limit) (v : Expr)
    (streams : Streams) (hv : Tail value v) :
    Keeps value (Song.resume (limit + 1) v streams) := by
  cases hv with
  | value hv =>
    cases v
    case deferred target args => exact absurd hv (hvalue target args)
    all_goals exact Outcome.Approximates.observation.value streams hv
  | @deferred closure args hc hargs =>
    rw [Keeps, resume_deferred]
    apply (I.dispatch_observed (fun _ => rfl) h.evaluate observation_tail h.evaluateTail hc hargs
      streams).andThen Outcome.Approximates.observation
    intro v streams hv
    exact h.resume v streams hv

include hsource

private theorem kept (limit : Nat) : Kept source value limit := by
  induction limit with
  | zero => exact ⟨fun _ _ _ _ _ => .exhausted _, fun _ _ _ _ _ => .exhausted _,
      fun _ _ _ => .exhausted _⟩
  | succ limit ih =>
    refine ⟨?_, I.evaluateTail_keeps ih, I.resume_keeps hvalue ih⟩
    intro e context streams hs hc
    apply Outcome.Approximates.located (fun _ _ _ h => congrArg _ h)
    refine I.step_approximates (fun _ => rfl) ih.evaluate ?_
      (fun target args _ h => absurd h (hsource target args)) e context streams hs hc
    intro target args context streams ht hargs hc
    apply (I.callTarget_observed (fun _ => rfl) ih.evaluate observation_tail ih.evaluateTail ht
      hargs hc streams).andThen Outcome.Approximates.observation
    intro v streams hv
    exact ih.resume v streams hv

/-- Evaluation agrees with itself on values. -/
theorem evaluate_keeps (limit : Nat) :
    Reduction.Approximates source value Eq (evaluate limit) fun _ => evaluate limit :=
  (I.kept hsource hvalue limit).evaluate

/-- Source expressions give values. -/
theorem evaluate_value {limit : Nat} {e v : Expr} {context : Bindings} {streams after : Streams}
    (he : source e) (hc : context.All value)
    (h : evaluate limit e context streams = .value v after) : value v := by
  have hkept := I.evaluate_keeps hsource hvalue limit e context streams he hc
  rw [h] at hkept
  exact hkept.of_value.1

end Song.Invariant
