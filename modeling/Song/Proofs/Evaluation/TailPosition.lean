import Song.Proofs.Value.Clauses

/-!
# What an expression comes to in tail position

A call in tail position is deferred and then resumed by the call in progress. Apart
from the expressions that a failure is reported within, this comes to what
evaluating the expression comes to, with one exception: where the expression ends
in the application of a value that cannot be called, the cause of the failure has
another name.
-/
namespace Song

namespace Outcome

variable {α β : Type}

def untraced (outcome : Outcome α) : Outcome α :=
  outcome.mapFailure fun f => .ofCause f.cause

@[simp]
theorem untraced_exhausted : (exhausted : Outcome α).untraced = exhausted := rfl

@[simp]
theorem untraced_value (result : α) (streams : Streams) :
    (value result streams).untraced = value result streams := rfl

@[simp]
theorem untraced_failure (f : Failure) (streams : Streams) :
    (failure f streams : Outcome α).untraced = fail f.cause streams := rfl

@[simp]
theorem untraced_fail (cause : Cause) (streams : Streams) :
    (fail cause streams : Outcome α).untraced = fail cause streams := rfl

@[simp]
theorem untraced_inside (e : Expr) (outcome : Outcome α) :
    (outcome.inside e).untraced = outcome.untraced := by
  cases outcome <;> rfl

@[simp]
theorem untraced_located (e : Expr) (outcome : Outcome Expr) :
    (Reduction.located e outcome).untraced = outcome.untraced := by
  cases e <;> simp [Reduction.located]

theorem untraced_andThen (outcome : Outcome α) (next : α → Streams → Outcome β) :
    (outcome.andThen next).untraced =
      outcome.untraced.andThen fun result streams => (next result streams).untraced := by
  cases outcome <;> rfl

theorem andThen_eq_value_iff {outcome : Outcome α} {next : α → Streams → Outcome β} {result : β}
    {after : Streams} :
    outcome.andThen next = .value result after ↔
      ∃ v streams, outcome = .value v streams ∧ next v streams = .value result after := by
  cases outcome <;> simp [andThen]

theorem untraced_eq_value_iff {outcome : Outcome α} {result : α} {streams : Streams} :
    outcome.untraced = .value result streams ↔ outcome = .value result streams := by
  cases outcome <;> simp [fail]

theorem ne_exhausted_of_untraced {outcome other : Outcome α} (hended : other ≠ .exhausted)
    (h : outcome.untraced = other) : outcome ≠ .exhausted := by
  rintro rfl
  exact hended h.symm

end Outcome

namespace Outcome

variable {α β : Type}

/-- One outcome for each number of steps, where a greater number does not change what has ended. -/
def IsStable (family : Nat → Outcome α) : Prop :=
  ∀ ⦃n m⦄, n ≤ m → family n ≠ .exhausted → family m = family n

/-- The family ends in this outcome, whatever a failure is reported within. -/
def EndsAs (family : Nat → Outcome α) (outcome : Outcome α) : Prop :=
  outcome ≠ .exhausted ∧ ∃ n, (family n).untraced = outcome

namespace IsStable

theorem const (outcome : Outcome α) : IsStable fun _ => outcome :=
  fun _ _ _ _ => rfl

theorem succ {family : Nat → Outcome α} (h : IsStable family) : IsStable fun n => family (n + 1) :=
  fun _ _ hnm hended => h (Nat.succ_le_succ hnm) hended

theorem of_approximates {P : α → Prop} {family : Nat → Outcome α}
    (h : ∀ n m, n ≤ m → Approximates P Eq (family n) fun _ => family m) : IsStable family :=
  fun n m hnm hended => ((h n m hnm).eq_const.resolve_left hended).symm

theorem andThen {first : Nat → Outcome α} {next : Nat → α → Streams → Outcome β}
    (hf : IsStable first) (hn : ∀ v streams, IsStable fun n => next n v streams) :
    IsStable fun n => (first n).andThen (next n) := by
  intro n m hnm hended
  dsimp only at hended ⊢
  cases hfirst : first n with
  | exhausted => simp [hfirst, Outcome.andThen] at hended
  | failure f streams => rw [hf hnm (by simp [hfirst]), hfirst]; rfl
  | value v streams =>
    rw [hfirst] at hended
    rw [hf hnm (by simp [hfirst]), hfirst]
    exact hn v streams hnm hended

theorem endsAs_unique {family : Nat → Outcome α} (h : IsStable family) {outcome other : Outcome α}
    (ho : EndsAs family outcome) (hother : EndsAs family other) : outcome = other := by
  obtain ⟨hended, n, hn⟩ := ho
  obtain ⟨hended', m, hm⟩ := hother
  rw [← hn, ← hm, ← h (Nat.le_max_left n m) (ne_exhausted_of_untraced hended hn),
    ← h (Nat.le_max_right n m) (ne_exhausted_of_untraced hended' hm)]

/-- A family ends as it does without its first member. -/
theorem endsAs_succ_iff {family : Nat → Outcome α} (h : IsStable family) {outcome : Outcome α} :
    EndsAs (fun n => family (n + 1)) outcome ↔ EndsAs family outcome := by
  apply and_congr_right
  intro hended
  constructor
  · rintro ⟨n, hn⟩
    exact ⟨n + 1, hn⟩
  · rintro ⟨n, hn⟩
    use n
    dsimp only
    rw [h (Nat.le_succ n) (ne_exhausted_of_untraced hended hn), hn]

end IsStable

theorem EndsAs.congr {family other : Nat → Outcome α} {outcome : Outcome α}
    (h : ∀ n, (family n).untraced = (other n).untraced) :
    EndsAs family outcome ↔ EndsAs other outcome := by
  simp only [EndsAs, h]

theorem EndsAs.andThen {first : Nat → Outcome α} {next : Nat → α → Streams → Outcome β}
    {n : Nat} {v : α} {streams : Streams} {outcome : Outcome β} (hf : IsStable first)
    (hn : IsStable fun n => next n v streams) (hv : first n = .value v streams)
    (h : EndsAs (fun n => next n v streams) outcome) :
    EndsAs (fun n => (first n).andThen (next n)) outcome := by
  obtain ⟨hended, m, hm⟩ := h
  refine ⟨hended, max n m, ?_⟩
  have hnext := hn (Nat.le_max_right n m) (ne_exhausted_of_untraced hended hm)
  dsimp only
  rw [hf (Nat.le_max_left n m) (by simp [hv]), hv]
  exact (congrArg untraced hnext).trans hm

private theorem EndsAs.andThen_imp {first : Nat → Outcome α}
    {next later : Nat → α → Streams → Outcome β} {outcome : Outcome β} (hf : IsStable first)
    (hl : ∀ v streams, IsStable fun n => later n v streams)
    (h : ∀ v streams, (∃ n, first n = .value v streams) →
      EndsAs (fun n => next n v streams) outcome → EndsAs (fun n => later n v streams) outcome)
    (hends : EndsAs (fun n => (first n).andThen (next n)) outcome) :
    EndsAs (fun n => (first n).andThen (later n)) outcome := by
  obtain ⟨hended, n, hn⟩ := hends
  dsimp only at hn
  cases hfirst : first n with
  | exhausted =>
    rw [hfirst] at hn
    exact absurd hn.symm hended
  | failure f streams =>
    refine ⟨hended, n, ?_⟩
    dsimp only
    rw [hfirst] at hn ⊢
    exact hn
  | value v streams =>
    rw [hfirst] at hn
    exact andThen hf (hl v streams) hfirst (h v streams ⟨n, hfirst⟩ ⟨hended, n, hn⟩)

/-- Two steps end alike if the second ones do, after each value of the first. -/
theorem EndsAs.andThen_congr {first : Nat → Outcome α}
    {next later : Nat → α → Streams → Outcome β} {outcome : Outcome β} (hf : IsStable first)
    (hn : ∀ v streams, IsStable fun n => next n v streams)
    (hl : ∀ v streams, IsStable fun n => later n v streams)
    (h : ∀ v streams, (∃ n, first n = .value v streams) →
      (EndsAs (fun n => next n v streams) outcome ↔ EndsAs (fun n => later n v streams) outcome)) :
    EndsAs (fun n => (first n).andThen (next n)) outcome ↔
      EndsAs (fun n => (first n).andThen (later n)) outcome :=
  ⟨andThen_imp hf hl fun v streams hv => (h v streams hv).1,
    andThen_imp hf hn fun v streams hv => (h v streams hv).2⟩

end Outcome

open Outcome (IsStable EndsAs)

theorem evaluate_stable (e : Expr) (context : Bindings) (streams : Streams) :
    IsStable fun n => evaluate n e context streams :=
  fun _ _ hnm => evaluate_of_le hnm

theorem evaluateTail_stable (e : Expr) (context : Bindings) (streams : Streams) :
    IsStable fun n => evaluateTail n e context streams :=
  fun _ _ hnm => evaluateTail_of_le hnm

theorem resume_stable (result : Expr) (streams : Streams) :
    IsStable fun n => resume n result streams :=
  fun _ _ hnm => resume_of_le hnm

/-- The evaluation ends in this outcome, whatever a failure is reported within. -/
def Ends (e : Expr) (context : Bindings) (streams : Streams) : Outcome Expr → Prop :=
  EndsAs fun n => evaluate n e context streams

theorem ends_value_iff {e v : Expr} {context : Bindings} {streams after : Streams} :
    Ends e context streams (.value v after) ↔ Evaluates e context streams (.value v after) := by
  simp [Ends, EndsAs, Evaluates, Outcome.untraced_eq_value_iff]

/-- Reduces in tail position and makes the call that is left over. -/
def evaluateResumed (limit : Nat) : Reduction := fun e context streams =>
  (evaluateTail limit e context streams).andThen (resume limit)

def EndsInTail (e : Expr) (context : Bindings) (streams : Streams) : Outcome Expr → Prop :=
  EndsAs fun n => evaluateResumed n e context streams

theorem evaluateResumed_stable (e : Expr) (context : Bindings) (streams : Streams) :
    IsStable fun n => evaluateResumed n e context streams :=
  (evaluateTail_stable e context streams).andThen resume_stable

/-- What is left over may be resumed with one step more. -/
theorem endsAs_resume_succ_iff {first : Nat → Outcome Expr} (hf : IsStable first)
    {outcome : Outcome Expr} :
    EndsAs (fun n => (first n).andThen (resume (n + 1))) outcome ↔
      EndsAs (fun n => (first n).andThen (resume n)) outcome :=
  EndsAs.andThen_congr hf (fun v streams => (resume_stable v streams).succ) resume_stable
    fun v streams _ => (resume_stable v streams).endsAs_succ_iff

namespace Reduction

/-- Reduces all statements but the last, and gives the last one with the context that the others
leave for it. -/
def reach (eval : Reduction) (declared : List String) :
    List Expr → Bindings → Streams → Outcome (Expr × Bindings)
  | [], _, streams => .fail .emptyBlock streams
  | [last], context, streams => .value (last, (shadow declared last context).2) streams
  | statement :: rest, context, streams =>
    let entered := shadow declared statement context
    (eval statement entered.2 streams).andThen fun value streams =>
      match install value entered.2 with
      | .ok context => reach eval entered.1 rest context streams
      | .error cause => .fail cause streams

/-- A block is its last statement, reduced where the others lead. -/
theorem block_eq_reach (eval final : Reduction) (declared : List String) (statements : List Expr)
    (context : Bindings) (streams : Streams) :
    block eval final declared statements context streams =
      (reach eval declared statements context streams).andThen
        fun place streams => final place.1 place.2 streams := by
  induction statements generalizing declared context streams with
  | nil => rfl
  | cons statement rest ih =>
    cases rest with
    | nil => rfl
    | cons second rest =>
      simp only [block, reach, Outcome.andThen_assoc]
      congr 1
      funext v streams
      cases install v (shadow declared statement context).2 with
      | error cause => rfl
      | ok next => exact ih _ next streams

theorem reach_stable (declared : List String) (statements : List Expr) (context : Bindings)
    (streams : Streams) :
    IsStable fun n => reach (evaluate n) declared statements context streams := by
  induction statements generalizing declared context streams with
  | nil => exact .const _
  | cons statement rest ih =>
    cases rest with
    | nil => exact .const _
    | cons second rest =>
      apply (evaluate_stable _ _ streams).andThen
      intro v streams
      cases install v (shadow declared statement context).2 with
      | error cause => exact .const _
      | ok next => exact ih _ next streams

/-- The last statement is one of the block, and what the others leave for it are value forms. -/
theorem reach_isValue {n : Nat} {declared : List String} {statements : List Expr}
    {context inner : Bindings} {streams after : Streams} {last : Expr}
    (hs : ∀ s ∈ statements, Grammatical .statement s)
    (hc : context.All (Expr.IsValue Clause.IsGrammatical))
    (h : reach (evaluate n) declared statements context streams = .value (last, inner) after) :
    last ∈ statements ∧ inner.All (Expr.IsValue Clause.IsGrammatical) := by
  induction statements generalizing declared context streams with
  | nil => cases h
  | cons statement rest ih =>
    obtain ⟨hfirst, hrest⟩ := List.forall_mem_cons.1 hs
    have hentered := Invariant.shadow_all hc declared statement
    cases rest with
    | nil =>
      cases h
      exact ⟨List.mem_cons_self, hentered⟩
    | cons second rest =>
      obtain ⟨v, middle, hv, h⟩ := Outcome.andThen_eq_value_iff.1 h
      cases hi : install v (shadow declared statement context).2 with
      | error cause => simp [hi, Outcome.fail] at h
      | ok next =>
        simp only [hi] at h
        have hnext := Expr.IsValue.invariant.install_all (evaluate_isValue hfirst hentered hv)
          hentered hi
        obtain ⟨hmem, hinner⟩ := ih hrest hnext h
        exact ⟨List.mem_cons_of_mem _ hmem, hinner⟩

private theorem evaluate_below {n m : Nat} (hnm : n ≤ m) :
    Reduction.Approximates (fun _ => True) (fun _ => True) Eq (evaluate n) fun _ => evaluate m :=
  fun _ _ _ _ _ => .of_eventually_eq (fun _ => rfl) fun hended =>
    .of_forall fun _ => evaluate_of_le hnm hended

private theorem callBuiltIn_stable (b : BuiltIn) (args : List Expr) (context : Bindings)
    (streams : Streams) : IsStable fun n => callBuiltIn (evaluate n) b args context streams :=
  .of_approximates fun _ _ hnm => Invariant.trivial.callBuiltIn_approximates (fun _ => rfl)
    (evaluate_below hnm) (fun _ _ => trivial) (fun _ _ => trivial) streams

private theorem arguments_stable (closure : Closure Expr) (args : List Expr) (context : Bindings)
    (streams : Streams) : IsStable fun n => arguments (evaluate n) closure args context streams :=
  .of_approximates fun _ _ hnm => Invariant.arguments_approximates (fun _ => rfl)
    (evaluate_below hnm) (fun _ _ => trivial) (fun _ _ => trivial) streams

/-- Making the call of a closure is resuming it when it has been deferred. -/
theorem callTarget_closure (n : Nat) (closure : Closure Expr) (args : List Expr)
    (context : Bindings) (streams : Streams) :
    (callTarget (evaluate n) (evaluateTail n) (.closure closure) args context streams).andThen
        (resume n) =
      (deferTarget (evaluate n) (.closure closure) args context streams).andThen
        (resume (n + 1)) := by
  simp only [callTarget, deferTarget, Outcome.andThen_assoc]
  congr 1
  funext values streams
  exact (resume_deferred n closure values streams).symm

private theorem deferTarget_stable (target : Expr) (args : List Expr) (context : Bindings)
    (streams : Streams) :
    IsStable fun n => (deferTarget (evaluate n) target args context streams).andThen
      (resume (n + 1)) := by
  have hresume (v : Expr) (streams : Streams) := (resume_stable v streams).succ
  cases target with
  | builtIn b => exact (callBuiltIn_stable b args context streams).andThen hresume
  | closure closure =>
    refine IsStable.andThen ?_ hresume
    apply (arguments_stable closure args context streams).andThen
    intro _ _
    exact .const _
  | _ => exact .const _

theorem callTarget_stable (target : Expr) (args : List Expr) (context : Bindings)
    (streams : Streams) :
    IsStable fun n => (callTarget (evaluate n) (evaluateTail n) target args context streams).andThen
      (resume n) := by
  cases target with
  | builtIn b => exact (callBuiltIn_stable b args context streams).andThen resume_stable
  | closure closure =>
    simp only [callTarget_closure]
    exact deferTarget_stable (.closure closure) args context streams
  | _ => exact .const _

/-- A call that is made and one that is deferred and resumed come to the same. -/
private theorem callTarget_endsAs_iff (target : Expr) (args : List Expr) (context : Bindings)
    (streams : Streams) (outcome : Outcome Expr) :
    EndsAs (fun n => (callTarget (evaluate n) (evaluateTail n) target args context
        streams).andThen (resume n)) outcome ↔
      EndsAs (fun n => (deferTarget (evaluate n) target args context streams).andThen
        (resume (n + 1))) outcome := by
  cases target with
  | builtIn b => exact (endsAs_resume_succ_iff (callBuiltIn_stable b args context streams)).symm
  | closure closure => simp only [callTarget_closure]
  | _ => exact Iff.rfl

end Reduction

/-! ### Applications of what cannot be called -/

/-- The expression ends, in itself or in the last statement of a block, in the application of a
value that cannot be called: that value, and the streams when it is met. -/
inductive EndsUncallable : Expr → Bindings → Streams → Expr → Streams → Prop
  | apply {target v : Expr} {args : List Expr} {context : Bindings} {streams after : Streams}
    (h : Evaluates target context streams (.value v after)) (hv : v.isCallable = false) :
    EndsUncallable (.apply target args) context streams v after
  | block {limit : Nat} {statements : List Expr} {context inner : Bindings}
    {streams middle after : Streams} {last v : Expr}
    (hreach : Reduction.reach (evaluate limit) [] statements context streams =
      .value (last, inner) middle)
    (h : EndsUncallable last inner middle v after) :
    EndsUncallable (.block statements) context streams v after

section Rules

variable {context : Bindings} {streams : Streams} {outcome : Outcome Expr}

private theorem ends_succ_iff (e : Expr) :
    Ends e context streams outcome ↔
      EndsAs (fun n => Reduction.step (evaluate n) (evaluateTail n) (resume n) e context streams)
        outcome :=
  (evaluate_stable e context streams).endsAs_succ_iff.symm.trans
    (EndsAs.congr fun n => by simp [evaluate])

private theorem endsInTail_succ_iff (e : Expr) :
    EndsInTail e context streams outcome ↔
      EndsAs (fun n => (Reduction.tail (evaluate n) (evaluateTail n) e context streams).andThen
        (resume (n + 1))) outcome :=
  (evaluateResumed_stable e context streams).endsAs_succ_iff.symm.trans
    (EndsAs.congr fun n => by simp [evaluateResumed, evaluateTail])

private theorem ends_block_iff (statements : List Expr) :
    Ends (.block statements) context streams outcome ↔
      EndsAs (fun n => (Reduction.reach (evaluate n) [] statements context streams).andThen
        fun place streams => evaluate n place.1 place.2 streams) outcome := by
  simp only [ends_succ_iff, Reduction.step, Reduction.block_eq_reach]

private theorem endsInTail_block_iff (statements : List Expr) :
    EndsInTail (.block statements) context streams outcome ↔
      EndsAs (fun n => (Reduction.reach (evaluate n) [] statements context streams).andThen
        fun place streams => evaluateResumed n place.1 place.2 streams) outcome := by
  rw [endsInTail_succ_iff]
  have htail (n : Nat) :
      ((Reduction.tail (evaluate n) (evaluateTail n) (.block statements) context streams).andThen
          (resume (n + 1))).untraced =
        ((Reduction.reach (evaluate n) [] statements context streams).andThen
          fun place streams => (evaluateTail n place.1 place.2 streams).andThen
            (resume (n + 1))).untraced := by
    simp only [Reduction.tail, Outcome.untraced_andThen, Outcome.untraced_inside,
      Reduction.block_eq_reach, Outcome.andThen_assoc]
  rw [EndsAs.congr htail]
  apply EndsAs.andThen_congr (Reduction.reach_stable [] statements context streams)
  · intro place streams
    apply (evaluateTail_stable _ _ streams).andThen
    intro v streams
    exact (resume_stable v streams).succ
  · intro place streams
    exact evaluateResumed_stable _ _ streams
  · intro place streams _
    exact endsAs_resume_succ_iff (evaluateTail_stable _ _ streams)

end Rules

namespace EndsUncallable

variable {e v : Expr} {context : Bindings} {streams after : Streams}

/-- Evaluation says of the value that it is no closure. -/
theorem ends (h : EndsUncallable e context streams v after) :
    Ends e context streams (.fail (.notAClosure v) after) := by
  induction h with
  | apply h hv =>
    obtain ⟨-, n, hn⟩ := h
    refine ⟨nofun, n + 1, ?_⟩
    simp [evaluate, Reduction.step, hn, Outcome.andThen, hv]
  | block hreach _ ih =>
    exact (ends_block_iff _).2 (.andThen (Reduction.reach_stable _ _ _ _)
      (evaluate_stable _ _ _) hreach ih)

/-- In tail position it is said to be no function. -/
theorem endsInTail (h : EndsUncallable e context streams v after) :
    EndsInTail e context streams (.fail (.notAFunction v) after) := by
  induction h with
  | apply h hv =>
    obtain ⟨-, n, hn⟩ := h
    refine ⟨nofun, n + 1, ?_⟩
    simp only [evaluateResumed, evaluateTail, Reduction.tail, hn, Outcome.andThen,
      deferTarget_of_not_callable (Bool.not_eq_true _ ▸ hv)]
    rfl
  | block hreach _ ih =>
    exact (endsInTail_block_iff _).2 (.andThen (Reduction.reach_stable _ _ _ _)
      (evaluateResumed_stable _ _ _) hreach ih)

end EndsUncallable

section Grammatical

variable {context : Bindings} {streams : Streams} {outcome : Outcome Expr}

/-- What is no call and no block is evaluated in tail position too. -/
private theorem ends_iff_endsInTail_of_evaluated {e : Expr} (he : Grammatical .statement e)
    (hc : context.All (Expr.IsValue Clause.IsGrammatical))
    (htail : ∀ n, evaluateTail (n + 1) e context streams = evaluate n e context streams) :
    Ends e context streams outcome ↔ EndsInTail e context streams outcome := by
  refine Iff.trans ?_ (evaluateResumed_stable e context streams).endsAs_succ_iff
  apply EndsAs.congr
  intro n
  rw [evaluateResumed, htail]
  cases hn : evaluate n e context streams with
  | value v after =>
    have hv : v.isDeferred = false := by cases evaluate_isValue he hc hn <;> rfl
    rw [Outcome.andThen, resume_eq_value hv]
  | failure f after => rfl
  | exhausted => rfl

theorem call_ends_iff_endsInTail (callee : String) (args : List Expr) :
    Ends (.call callee args) context streams outcome ↔
      EndsInTail (.call callee args) context streams outcome := by
  rw [ends_succ_iff, endsInTail_succ_iff]
  cases hget : context.get? callee with
  | none => exact EndsAs.congr fun n => by simp [Reduction.step, Reduction.tail, hget]; rfl
  | some target =>
    simp only [Reduction.step, Reduction.tail, hget]
    apply (Reduction.callTarget_endsAs_iff target args context streams outcome).trans
    exact EndsAs.congr fun n => by simp [Outcome.untraced_andThen]

private theorem apply_ends_iff_endsInTail (target : Expr) (args : List Expr)
    (hcallable : ¬∃ v after, EndsUncallable (.apply target args) context streams v after) :
    Ends (.apply target args) context streams outcome ↔
      EndsInTail (.apply target args) context streams outcome := by
  rw [ends_succ_iff, endsInTail_succ_iff]
  have htail (n : Nat) :
      ((Reduction.tail (evaluate n) (evaluateTail n) (.apply target args) context streams).andThen
          (resume (n + 1))).untraced =
        ((evaluate n target context streams).andThen fun target streams =>
          (Reduction.deferTarget (evaluate n) target args context streams).andThen
            (resume (n + 1))).untraced := by
    simp only [Reduction.tail, Outcome.untraced_andThen, Outcome.untraced_inside,
      Outcome.andThen_assoc]
  rw [EndsAs.congr htail]
  refine EndsAs.andThen_congr (evaluate_stable target context streams) (fun v streams => ?_)
    (fun v streams => Reduction.deferTarget_stable v args context streams) fun v after hv => ?_
  · cases v.isCallable
    · exact .const _
    · exact Reduction.callTarget_stable v args context streams
  · obtain ⟨n, hn⟩ := hv
    cases hv : v.isCallable with
    | false => exact absurd ⟨v, after, .apply ⟨by simp, n, hn⟩ hv⟩ hcallable
    | true => exact Reduction.callTarget_endsAs_iff v args context after outcome

private theorem block_ends_iff_endsInTail {statements : List Expr}
    (hs : ∀ s ∈ statements, Grammatical .statement s)
    (hc : context.All (Expr.IsValue Clause.IsGrammatical))
    (hcallable : ¬∃ v after, EndsUncallable (.block statements) context streams v after)
    (hlast : ∀ s ∈ statements, ∀ {inner : Bindings} {middle : Streams} {o : Outcome Expr},
      inner.All (Expr.IsValue Clause.IsGrammatical) →
      (¬∃ v after, EndsUncallable s inner middle v after) →
      (Ends s inner middle o ↔ EndsInTail s inner middle o)) :
    Ends (.block statements) context streams outcome ↔
      EndsInTail (.block statements) context streams outcome := by
  rw [ends_block_iff, endsInTail_block_iff]
  apply EndsAs.andThen_congr (Reduction.reach_stable [] statements context streams)
    (fun place streams => evaluate_stable _ _ streams)
    (fun place streams => evaluateResumed_stable _ _ streams)
  intro place middle hplace
  obtain ⟨n, hn⟩ := hplace
  obtain ⟨hmem, hinner⟩ := Reduction.reach_isValue hs hc hn
  apply hlast place.1 hmem hinner
  rintro ⟨v, after, h⟩
  exact hcallable ⟨v, after, .block hn h⟩

/-- In tail position an expression comes to what it evaluates to, unless it ends in the
application of a value that cannot be called. -/
theorem Grammatical.ends_iff_endsInTail {role : Role} {e : Expr} (h : Grammatical role e)
    (hc : context.All (Expr.IsValue Clause.IsGrammatical))
    (hcallable : ¬∃ v after, EndsUncallable e context streams v after) :
    Ends e context streams outcome ↔ EndsInTail e context streams outcome := by
  have hstatement : Grammatical .statement e := by
    cases role with
    | expression => exact .expression h
    | statement => exact h
  -- Only a block passes its tail position on, to its last statement.
  induction h generalizing context streams outcome with
  | call _ _ => exact call_ends_iff_endsInTail _ _
  | apply _ _ => exact apply_ends_iff_endsInTail _ _ hcallable
  | block hs ih =>
    apply block_ends_iff_endsInTail hs hc hcallable
    intro s hmem inner middle o hinner hcallable
    exact ih s hmem hinner hcallable (hs s hmem)
  | expression _ ih => exact ih hc hcallable hstatement
  | _ => exact ends_iff_endsInTail_of_evaluated hstatement hc fun _ => rfl

/-- In tail position an expression gives the values that it gives elsewhere. -/
theorem Grammatical.ends_value_iff_endsInTail {role : Role} {e v : Expr} {after : Streams}
    (h : Grammatical role e) (hc : context.All (Expr.IsValue Clause.IsGrammatical)) :
    Ends e context streams (.value v after) ↔ EndsInTail e context streams (.value v after) := by
  by_cases hcallable : ∃ w middle, EndsUncallable e context streams w middle
  · -- Both fail then, if for causes of different names, and there is no value.
    obtain ⟨w, middle, hw⟩ := hcallable
    constructor
    · intro hv
      cases (evaluate_stable e context streams).endsAs_unique hw.ends hv
    · intro hv
      cases (evaluateResumed_stable e context streams).endsAs_unique hw.endsInTail hv
  · exact h.ends_iff_endsInTail hc hcallable

end Grammatical
end Song
