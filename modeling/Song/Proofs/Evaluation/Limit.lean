import Song.Proofs.Evaluation.Parametric

/-!
# More steps change nothing

The outcome of an evaluation that ends within some number of steps is its outcome
within any greater number of them. Hence two evaluations that both end have one
outcome, however many steps each was allowed.
-/
namespace Song

open Filter

theorem Outcome.Approximates.eq_const {α : Type} {P : α → Prop} {outcome other : Outcome α}
    (h : Outcome.Approximates P Eq outcome fun _ => other) :
    outcome = .exhausted ∨ outcome = other := by
  apply h.imp_right
  intro h
  obtain ⟨_, hagree⟩ := h.exists
  cases hagree with
  | value _ => rfl
  | failure hf => rw [hf]

/-- A reduction that gives what another one gives, or uses up its steps. -/
private abbrev Reduction.Below (eval other : Reduction) : Prop :=
  Reduction.Approximates (fun _ => True) (fun _ => True) Eq eval fun _ => other

namespace Reduction

variable {eval body other otherBody : Reduction}

private theorem Below.deferTarget (he : eval.Below other) (target : Expr) (args : List Expr)
    (context : Bindings) (streams : Streams) :
    Outcome.Approximates (fun _ => True) Eq (deferTarget eval target args context streams)
      fun _ => deferTarget other target args context streams := by
  have hobs : Outcome.Observation (fun _ : Expr => True) Eq (Outcome.Approximates _ Eq) :=
    Outcome.Approximates.observation
  have hargs : ∀ e ∈ args, (fun _ : Expr => True) e := fun _ _ => True.intro
  have hc : context.All fun _ => True := fun _ _ => True.intro
  cases target
  case builtIn b =>
    exact Invariant.trivial.callBuiltIn_approximates (fun _ => rfl) he hargs hc streams
  case closure closure =>
    apply (Invariant.arguments_approximates (fun _ => rfl) he hargs hc streams).andThen hobs
    intro values streams _
    exact hobs.value streams True.intro
  all_goals exact hobs.fail (fun _ => rfl) _ _

private theorem Below.tail (he : eval.Below other) (hb : body.Below otherBody) :
    (tail eval body).Below (tail other otherBody) := by
  intro e context streams hs hc
  have hobs : Outcome.Observation (fun _ : Expr => True) Eq (Outcome.Approximates _ Eq) :=
    Outcome.Approximates.observation
  have hinside (e : Expr) (f g : Failure) (h : f = g) : f.inside e = g.inside e := by rw [h]
  cases e
  case call callee args =>
    simp only [Reduction.tail]
    apply Outcome.Approximates.inside _ (hinside _)
    split
    · exact he.deferTarget _ args context streams
    · exact hobs.fail (fun _ => rfl) _ _
  case apply target args =>
    apply Outcome.Approximates.inside _ (hinside _)
    apply (he target context streams True.intro hc).andThen hobs
    intro v streams _
    exact he.deferTarget v args context streams
  case block statements =>
    apply Outcome.Approximates.inside _ (hinside _)
    exact Invariant.trivial.block_observed (fun _ => rfl) he hobs hb
      (fun _ _ => True.intro) hc [] streams
  all_goals exact he _ context streams hs hc

end Reduction

/-- Resuming a deferred call makes it and resumes what it gives. -/
theorem resume_deferred (limit : Nat) (closure : Closure Expr) (args : List Expr)
    (streams : Streams) :
    resume (limit + 1) (.deferred (.closure closure) args) streams =
      (Reduction.dispatch (evaluate limit) (evaluateTail limit) closure args streams).andThen
        (resume limit) := by
  rw [resume]
  cases Reduction.dispatch (evaluate limit) (evaluateTail limit) closure args streams <;> rfl

/-- What one number of steps gives, one more step gives too. -/
private structure Stable (n : Nat) : Prop where
  evaluate : Reduction.Below (evaluate n) (evaluate (n + 1))
  evaluateTail : Reduction.Below (evaluateTail n) (evaluateTail (n + 1))
  resume (result : Expr) (streams : Streams) :
    Outcome.Approximates (fun _ => True) Eq (resume n result streams)
      fun _ => resume (n + 1) result streams

private theorem stable (n : Nat) : Stable n := by
  have hobs : Outcome.Observation (fun _ : Expr => True) Eq (Outcome.Approximates _ Eq) :=
    Outcome.Approximates.observation
  have hR : ∀ f : Failure, f = f := fun _ => rfl
  induction n with
  | zero => exact ⟨fun _ _ _ _ _ => .exhausted _, fun _ _ _ _ _ => .exhausted _,
      fun _ _ => .exhausted _⟩
  | succ n ih =>
    refine ⟨?_, ih.evaluate.tail ih.evaluateTail, ?_⟩
    · intro e context streams hs hc
      apply Outcome.Approximates.located (fun _ _ _ h => congrArg _ h)
      refine Invariant.trivial.step_approximates hR ih.evaluate ?_ ?_ e context streams hs hc
      · intro target args context streams ht hargs hc
        apply (Invariant.trivial.callTarget_observed hR ih.evaluate hobs ih.evaluateTail ht hargs hc
          streams).andThen hobs
        intro v streams _
        exact ih.resume v streams
      · intro target args streams _
        exact ih.resume _ streams
    · intro result streams
      cases result
      case deferred target args =>
        cases target
        case closure closure =>
          simp only [resume_deferred]
          apply (Invariant.trivial.dispatch_observed hR ih.evaluate hobs ih.evaluateTail True.intro
            (fun _ _ => True.intro) streams).andThen hobs
          intro v streams _
          exact ih.resume v streams
        all_goals exact hobs.fail hR _ _
      all_goals exact hobs.value streams True.intro

theorem resume_succ {n : Nat} {result : Expr} {streams : Streams}
    (h : resume n result streams ≠ .exhausted) :
    resume (n + 1) result streams = resume n result streams :=
  (((stable n).resume result streams).eq_const.resolve_left h).symm

/-- One step more for resuming gives the same. -/
theorem Outcome.Approximates.resume_succ {P : Expr → Prop} {R : Failure → Failure → Prop}
    {outcome : Outcome Expr} {family : Nat → Outcome Expr}
    (h : Outcome.Approximates P R outcome fun n => (family n).andThen (resume n)) :
    Outcome.Approximates P R outcome fun n => (family n).andThen (resume (n + 1)) := by
  apply Outcome.Approximates.transfer h id
  intro n hn
  generalize family n = member at hn ⊢
  cases member with
  | value v streams =>
    have hended : resume n v streams ≠ .exhausted := by
      intro hexhausted
      rw [Outcome.andThen, hexhausted] at hn
      cases hn
    rw [Outcome.andThen, Song.resume_succ hended]
    exact hn
  | failure g streams => exact hn
  | exhausted => exact hn

theorem evaluate_of_le {n m : Nat} (hnm : n ≤ m) {e : Expr} {context : Bindings}
    {streams : Streams} (h : evaluate n e context streams ≠ .exhausted) :
    evaluate m e context streams = evaluate n e context streams := by
  induction m, hnm using Nat.le_induction with
  | base => rfl
  | succ m _ ih =>
    rcases ((stable m).evaluate e context streams True.intro fun _ _ => True.intro).eq_const
      with hm | hm
    · exact absurd (ih ▸ hm) h
    · rw [← ih, hm]

theorem evaluateTail_of_le {n m : Nat} (hnm : n ≤ m) {e : Expr} {context : Bindings}
    {streams : Streams} (h : evaluateTail n e context streams ≠ .exhausted) :
    evaluateTail m e context streams = evaluateTail n e context streams := by
  induction m, hnm using Nat.le_induction with
  | base => rfl
  | succ m _ ih =>
    rcases ((stable m).evaluateTail e context streams True.intro fun _ _ => True.intro).eq_const
      with hm | hm
    · exact absurd (ih ▸ hm) h
    · rw [← ih, hm]

/-- An evaluation has at most one outcome. -/
theorem evaluate_unique {n m : Nat} {e : Expr} {context : Bindings} {streams : Streams}
    (hn : evaluate n e context streams ≠ .exhausted)
    (hm : evaluate m e context streams ≠ .exhausted) :
    evaluate n e context streams = evaluate m e context streams := by
  rw [← evaluate_of_le (Nat.le_max_left n m) hn, ← evaluate_of_le (Nat.le_max_right n m) hm]

/-- The evaluator approximates itself with more and more steps. -/
theorem evaluate_approximates_self {R : Failure → Failure → Prop} (hR : ∀ f, R f f) (n : Nat) :
    Reduction.Approximates (fun _ => True) (fun _ => True) R (evaluate n) evaluate := by
  intro e context streams _ _
  apply Outcome.Approximates.of_eventually_eq hR
  intro hended
  filter_upwards [eventually_ge_atTop n] with m hm
  exact evaluate_of_le hm hended

theorem resume_of_le {n m : Nat} (hnm : n ≤ m) {result : Expr} {streams : Streams}
    (h : resume n result streams ≠ .exhausted) :
    resume m result streams = resume n result streams := by
  induction m, hnm using Nat.le_induction with
  | base => rfl
  | succ m _ ih => rw [resume_succ (ih ▸ h), ih]

theorem resume_approximates_self {R : Failure → Failure → Prop} (hR : ∀ f, R f f) (n : Nat)
    (result : Expr) (streams : Streams) :
    Outcome.Approximates (fun _ => True) R (resume n result streams)
      fun m => resume m result streams := by
  apply Outcome.Approximates.of_eventually_eq hR
  intro hended
  filter_upwards [eventually_ge_atTop n] with m hm
  exact resume_of_le hm hended

end Song
