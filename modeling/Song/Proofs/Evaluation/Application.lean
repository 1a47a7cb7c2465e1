import Song.Proofs.Evaluation.TailPosition
import Song.Proofs.Value.Destructuring

/-!
# Calling a function on values

What a function comes to on values depends on neither the expressions that gave the values nor the
place of the call. The rules below derive the outcome of a call from what its parts come to: the
arguments, the choice of a clause, and the body of that clause, which stands in tail position.
-/
namespace Song

open Filter
open Outcome (IsStable EndsAs)

namespace Expr

def takes : Expr → Nat → Bool
  | closure c, count => c.accepts count
  | builtIn b, count => b.accepts count
  | _, _ => false

/-- Whether a call evaluates all arguments; only the two connectives may leave one out. -/
def isStrict : Expr → Bool
  | builtIn (.operator .and) | builtIn (.operator .or) => false
  | _ => true

end Expr

/-- Takes an expression as the value that it is. -/
def Reduction.asIs : Reduction := fun e _ streams => .value e streams

/-- Calls a function on values, and makes the call that its body may leave over. -/
def callOn (limit : Nat) (f : Expr) (values : List Expr) (streams : Streams) : Outcome Expr :=
  match f with
  | .builtIn b =>
    (Reduction.callBuiltIn Reduction.asIs b values .empty streams).andThen (resume limit)
  | .closure closure =>
    (Reduction.dispatch (evaluate limit) (evaluateTail limit) closure values streams).andThen
      (resume limit)
  | other => .fail (.notAFunction other) streams

/-- Calling the function on the values ends in this outcome, whatever a failure is reported
within. -/
def Returns (f : Expr) (values : List Expr) (streams : Streams) : Outcome Expr → Prop :=
  EndsAs fun n => callOn n f values streams

theorem callOn_stable (f : Expr) (values : List Expr) (streams : Streams) :
    IsStable fun n => callOn n f values streams := by
  cases f with
  | builtIn b => exact (IsStable.const _).andThen resume_stable
  | closure closure =>
    simp only [callOn, ← resume_deferred]
    exact (resume_stable (.deferred (.closure closure) values) streams).succ
  | _ => exact .const _

namespace Outcome

variable {α : Type} {family other : Nat → Outcome α} {outcome : Outcome α}

/-- Families with the same late members end alike. -/
theorem IsStable.endsAs_iff_of_eventually (hfamily : IsStable family) (hother : IsStable other)
    (heq : ∀ᶠ n in atTop, (other n).untraced = (family n).untraced) :
    EndsAs other outcome ↔ EndsAs family outcome := by
  apply and_congr_right
  intro hended
  constructor
  · rintro ⟨n, hn⟩
    obtain ⟨m, hm, hle⟩ := (heq.and (eventually_ge_atTop n)).exists
    use m
    rw [← hm, hother hle (ne_exhausted_of_untraced hended hn), hn]
  · rintro ⟨n, hn⟩
    obtain ⟨m, hm, hle⟩ := (heq.and (eventually_ge_atTop n)).exists
    use m
    rw [hm, hfamily hle (ne_exhausted_of_untraced hended hn), hn]

theorem EndsAs.eventually (h : EndsAs family outcome) (hstable : IsStable family) :
    ∀ᶠ n in atTop, (family n).untraced = outcome := by
  obtain ⟨hended, n, hn⟩ := h
  filter_upwards [eventually_ge_atTop n] with m hle
  rw [hstable hle (ne_exhausted_of_untraced hended hn), hn]

end Outcome

/-- A value that is left after resuming is not the mark of a call. -/
theorem isDeferred_of_resume {limit : Nat} {result v : Expr} {streams after : Streams}
    (h : resume limit result streams = .value v after) : v.isDeferred = false := by
  induction limit generalizing result streams with
  | zero => cases h
  | succ limit ih =>
    cases result with
    | deferred target args =>
      cases target with
      | closure closure =>
        rw [resume_deferred] at h
        obtain ⟨next, middle, -, hnext⟩ := Outcome.andThen_eq_value_iff.1 h
        exact ih hnext
      | _ => cases h
    | _ => cases h; rfl

theorem Returns.isDeferred {f v : Expr} {values : List Expr} {streams after : Streams}
    (h : Returns f values streams (.value v after)) : v.isDeferred = false := by
  obtain ⟨-, n, hn⟩ := h
  rw [Outcome.untraced_eq_value_iff] at hn
  cases f with
  | builtIn b =>
    obtain ⟨w, middle, -, hw⟩ := Outcome.andThen_eq_value_iff.1 hn
    exact isDeferred_of_resume hw
  | closure closure =>
    obtain ⟨w, middle, -, hw⟩ := Outcome.andThen_eq_value_iff.1 hn
    exact isDeferred_of_resume hw
  | _ => cases hn

section Expressions

variable {e tail : Expr} {args heads before rest values : List Expr} {context : Bindings}
  {streams middle after : Streams} {cause : Cause} {outcome : Outcome Expr}

/-- An evaluation that ends for a cause has failed for it. -/
theorem Ends.exists_failure (h : Ends e context streams (.fail cause after)) :
    ∃ f : Failure, f.cause = cause ∧ Evaluates e context streams (.failure f after) := by
  obtain ⟨-, n, hn⟩ := h
  cases hevaluate : evaluate n e context streams with
  | exhausted => simp [hevaluate, Outcome.fail] at hn
  | value v last => simp [hevaluate, Outcome.fail] at hn
  | failure f last =>
    simp only [hevaluate, Outcome.untraced_failure, Outcome.fail, Outcome.failure.injEq] at hn
    obtain ⟨hcause, rfl⟩ := hn
    exact ⟨f, congrArg Failure.cause hcause, by simp, n, hevaluate⟩

/-- The first expression that fails ends the evaluation of them all. -/
theorem all_of_fails (hbefore : EvaluatesAll context before streams values middle)
    (he : Ends e context middle (.fail cause after)) (rest : List Expr) :
    ∀ᶠ n in atTop, (Reduction.all (evaluate n) (before ++ e :: rest) context streams).untraced =
      .fail cause after := by
  induction hbefore with
  | nil streams =>
    filter_upwards [he.eventually (evaluate_stable e context streams)] with n hn
    rw [List.nil_append, Reduction.all, Outcome.untraced_andThen, hn]
    rfl
  | cons hfirst _ ih =>
    filter_upwards [hfirst.eventually, ih he] with n hfirst hrest
    rw [List.cons_append, Reduction.all, hfirst, Outcome.andThen, Outcome.untraced_andThen, hrest]
    rfl

theorem ends_cons_of_fails (hbefore : EvaluatesAll context before streams values middle)
    (he : Ends e context middle (.fail cause after)) :
    Ends (.cons (before ++ e :: rest) tail) context streams (.fail cause after) := by
  obtain ⟨n, hn⟩ := (all_of_fails hbefore he rest).exists
  refine ⟨nofun, n + 1, ?_⟩
  simp only [evaluate, Outcome.untraced_located, Reduction.step, Outcome.untraced_andThen, hn]
  rfl

theorem Expr.IsValue.evaluates {C : Clause Expr → Prop} (h : e.IsValue C) :
    Evaluates e context streams (.value e streams) :=
  .of_eventually nofun (h.evaluate_eventually context streams)

theorem Expr.isValue_text (chars : List Char) : (text chars).IsValue fun _ => True := by
  apply Expr.IsValue.list
  intro v hv
  obtain ⟨c, -, rfl⟩ := List.mem_map.1 hv
  exact .char c

/-- An expression whose value is not the mark of a call has that value in tail position too. -/
theorem Evaluates.endsInTail {v : Expr} (h : Evaluates e context streams (.value v after))
    (hv : v.isDeferred = false) : EndsInTail e context streams (.value v after) := by
  obtain ⟨n, hn⟩ := (h.tail_value hv).exists
  exact ⟨nofun, n, congrArg Outcome.untraced hn⟩

end Expressions

namespace Reduction

theorem all_asIs (values : List Expr) (context : Bindings) (streams : Streams) :
    all asIs values context streams = .value values streams := by
  induction values with
  | nil => rfl
  | cons v rest ih => simp only [all, asIs, Outcome.andThen, ih]

/-- A strict built-in evaluates its arguments and takes the values. -/
theorem callBuiltIn_of_isStrict {b : BuiltIn} (hb : (Expr.builtIn b).isStrict = true)
    {args : List Expr} (haccepts : b.accepts args.length = true) (eval : Reduction)
    (context : Bindings) (streams : Streams) :
    callBuiltIn eval b args context streams =
      (all eval args context streams).andThen fun values streams => b.meaning values streams := by
  simp only [callBuiltIn, haccepts, Bool.not_true, Bool.false_eq_true, if_false]
  split
  · cases hb
  · cases hb
  · rfl

end Reduction

theorem EvaluatesAll.length_eq {context : Bindings} {es values : List Expr}
    {streams after : Streams} (h : EvaluatesAll context es streams values after) :
    es.length = values.length := by
  induction h with
  | nil => rfl
  | cons _ _ ih => rw [List.length_cons, List.length_cons, ih]

section Values

variable {context : Bindings} {e v tail : Expr} {n : String} {rest values items : List Expr}
  {streams after : Streams}

theorem evaluatesAll_of_all {limit : Nat} {es : List Expr}
    (h : Reduction.all (evaluate limit) es context streams = .value values after) :
    EvaluatesAll context es streams values after := by
  induction es generalizing streams values with
  | nil =>
    cases h
    exact .nil _
  | cons e rest ih =>
    rw [Reduction.all] at h
    obtain ⟨v, middle, hv, h⟩ := Outcome.andThen_eq_value_iff.1 h
    obtain ⟨vs, last, hvs, h⟩ := Outcome.andThen_eq_value_iff.1 h
    cases h
    exact .cons (.of_eq_value limit hv) (ih hvs)

@[simp] theorem evaluates_name_iff :
    Evaluates (.name n) context streams (.value v after) ↔
      context.get? n = some v ∧ streams = after := by
  constructor
  · rintro ⟨-, limit, h⟩
    cases limit with
    | zero => cases h
    | succ limit =>
      simp only [evaluate, Reduction.located, Reduction.step] at h
      split at h <;> cases h
      exact ⟨‹_›, rfl⟩
  · rintro ⟨h, rfl⟩
    exact .name h

theorem evaluates_atom_iff (he : e.isAtom = true) :
    Evaluates e context streams (.value v after) ↔ e = v ∧ streams = after := by
  constructor
  · rintro ⟨-, limit, h⟩
    cases limit with
    | zero => cases h
    | succ limit => cases e <;> cases he <;> cases h <;> exact ⟨rfl, rfl⟩
  · rintro ⟨rfl, rfl⟩
    exact .atom he

@[simp] theorem evaluates_nil_iff :
    Evaluates (.list []) context streams (.value v after) ↔ .list [] = v ∧ streams = after := by
  constructor
  · rintro ⟨-, limit, h⟩
    cases limit with
    | zero => cases h
    | succ limit =>
      cases h
      exact ⟨rfl, rfl⟩
  · rintro ⟨rfl, rfl⟩
    exact EvaluatesAll.list (.nil streams)

@[simp] theorem evaluatesAll_nil_iff :
    EvaluatesAll context [] streams values after ↔ values = [] ∧ streams = after := by
  constructor
  · rintro ⟨⟩
    exact ⟨rfl, rfl⟩
  · rintro ⟨rfl, rfl⟩
    exact .nil streams

@[simp] theorem evaluatesAll_cons_iff :
    EvaluatesAll context (e :: rest) streams (v :: values) after ↔
      ∃ middle, Evaluates e context streams (.value v middle) ∧
        EvaluatesAll context rest middle values after := by
  constructor
  · rintro (_ | ⟨h, hrest⟩)
    exact ⟨_, h, hrest⟩
  · rintro ⟨middle, h, hrest⟩
    exact .cons h hrest

/-- The list with one more item in front, whatever becomes of the streams. -/
@[simp] theorem evaluates_cons_iff :
    Evaluates (.cons [e] tail) context streams (.value (.list (v :: items)) after) ↔
      ∃ middle, Evaluates e context streams (.value v middle) ∧
        Evaluates tail context middle (.value (.list items) after) := by
  constructor
  · rintro ⟨-, limit, h⟩
    cases limit with
    | zero => cases h
    | succ limit =>
      rw [← Outcome.untraced_eq_value_iff, evaluate, Outcome.untraced_located,
        Outcome.untraced_eq_value_iff, Reduction.step] at h
      obtain ⟨heads, middle, hheads, h⟩ := Outcome.andThen_eq_value_iff.1 h
      obtain ⟨w, last, hw, h⟩ := Outcome.andThen_eq_value_iff.1 h
      rcases evaluatesAll_of_all hheads with _ | ⟨hfirst, ⟨⟩⟩
      cases w <;> cases h
      exact ⟨middle, hfirst, .of_eq_value limit hw⟩
  · rintro ⟨middle, h, ht⟩
    exact EvaluatesAll.cons_list (.cons h (.nil middle)) ht

end Values

section Call

variable {g : String} {f : Expr} {args before rest values : List Expr} {e : Expr}
  {context : Bindings} {streams middle after : Streams} {cause : Cause} {outcome : Outcome Expr}

/-- A call by name is one of what the name is bound to. -/
theorem evaluate_call (hget : context.get? g = some f) (n : Nat) :
    (evaluate (n + 1) (.call g args) context streams).untraced =
      ((Reduction.callTarget (evaluate n) (evaluateTail n) f args context streams).andThen
        (resume n)).untraced := by
  rw [evaluate, Outcome.untraced_located]
  simp only [Reduction.step, hget]

/-- A call whose arguments evaluate to values comes to what the function returns on these. -/
theorem ends_call_iff (hget : context.get? g = some f) (htakes : f.takes values.length = true)
    (hstrict : f.isStrict = true) (hargs : EvaluatesAll context args streams values after) :
    Ends (.call g args) context streams outcome ↔ Returns f values after outcome := by
  have hlength := hargs.length_eq
  apply (evaluate_stable _ _ _).endsAs_succ_iff.symm.trans
  apply (callOn_stable _ _ _).endsAs_iff_of_eventually (evaluate_stable _ _ _).succ
  filter_upwards [hargs.eventually] with n hall
  rw [evaluate_call hget]
  cases f with
  | builtIn b =>
    have haccepts : b.accepts args.length = true := hlength ▸ htakes
    simp only [Reduction.callTarget, callOn, Reduction.callBuiltIn_of_isStrict hstrict haccepts,
      Reduction.callBuiltIn_of_isStrict hstrict htakes, hall, Reduction.all_asIs, Outcome.andThen]
  | closure closure =>
    have haccepts : closure.accepts args.length = true := hlength ▸ htakes
    simp only [Reduction.callTarget, Reduction.arguments, haccepts, if_true, hall, callOn,
      Outcome.andThen]
  | _ => cases htakes

theorem Returns.call (hget : context.get? g = some f) (htakes : f.takes values.length = true)
    (hstrict : f.isStrict = true) (hargs : EvaluatesAll context args streams values after)
    (h : Returns f values after outcome) : Ends (.call g args) context streams outcome :=
  (ends_call_iff hget htakes hstrict hargs).2 h

/-- A call fails where one of its arguments does. -/
theorem ends_call_of_fails (hget : context.get? g = some f)
    (htakes : f.takes (before ++ e :: rest).length = true) (hstrict : f.isStrict = true)
    (hbefore : EvaluatesAll context before streams values middle)
    (he : Ends e context middle (.fail cause after)) :
    Ends (.call g (before ++ e :: rest)) context streams (.fail cause after) := by
  obtain ⟨n, hn⟩ := (all_of_fails hbefore he rest).exists
  refine ⟨nofun, n + 1, ?_⟩
  rw [evaluate_call hget]
  cases f with
  | builtIn b =>
    simp only [Reduction.callTarget, Reduction.callBuiltIn_of_isStrict hstrict htakes,
      Outcome.untraced_andThen, hn]
    rfl
  | closure closure =>
    have haccepts : closure.accepts (before ++ e :: rest).length = true := htakes
    simp only [Reduction.callTarget, Reduction.arguments, haccepts, if_true,
      Outcome.untraced_andThen, hn]
    rfl
  | _ => cases htakes

end Call

/-- The expression has this value, whatever the streams are, and leaves them alone. -/
def HasValue (context : Bindings) (e v : Expr) : Prop :=
  ∀ streams, Evaluates e context streams (.value v streams)

theorem evaluatesAll_of_hasValue {context : Bindings} {es values : List Expr}
    (h : List.Forall₂ (HasValue context) es values) (streams : Streams) :
    EvaluatesAll context es streams values streams := by
  induction h with
  | nil => exact .nil streams
  | cons hfirst _ ih => exact .cons (hfirst streams) ih

/-- A connective of such operands comes to what it does on their values, since leaving the second
one out makes no difference. -/
theorem callBuiltIn_of_hasValue {b : BuiltIn} (hb : (Expr.builtIn b).isStrict = false)
    {left right v w : Expr} {context : Bindings} (hleft : HasValue context left v)
    (hright : HasValue context right w) (streams : Streams) :
    ∀ᶠ n in atTop, Reduction.callBuiltIn (evaluate n) b [left, right] context streams =
      Reduction.callBuiltIn Reduction.asIs b [v, w] .empty streams := by
  have hconnective : b = .operator .and ∨ b = .operator .or := by
    unfold Expr.isStrict at hb
    split at hb <;> simp_all
  filter_upwards [(hleft streams).eventually, (hright streams).eventually] with n hl hr
  have htruth (e u : Expr) (he : evaluate n e context streams = .value u streams) :
      Reduction.truth (evaluate n) e context streams =
        Reduction.truth Reduction.asIs u .empty streams := by
    simp only [Reduction.truth, he, Reduction.asIs, Outcome.andThen]
  rcases hconnective with rfl | rfl
  all_goals
    change (Reduction.truth (evaluate n) left context streams).andThen _ =
      (Reduction.truth Reduction.asIs v .empty streams).andThen _
    rw [htruth left v hl]
    cases hv : BuiltIn.asBool v with
    | error cause =>
      simp only [Reduction.truth, Reduction.asIs, Outcome.andThen, hv]
      rfl
    | ok holds =>
      have hfirst : Reduction.truth Reduction.asIs v .empty streams = .value holds streams := by
        simp only [Reduction.truth, Reduction.asIs, Outcome.andThen, hv, Outcome.ofExcept]
      simp only [hfirst, Outcome.andThen, htruth right w hr]

/-- A call with such arguments comes to what the function returns on their values, also if the
function is a connective. -/
theorem Returns.call_of_hasValue {g : String} {f : Expr} {args values : List Expr}
    {context : Bindings} {streams : Streams} {outcome : Outcome Expr}
    (hget : context.get? g = some f) (htakes : f.takes values.length = true)
    (hargs : List.Forall₂ (HasValue context) args values) (h : Returns f values streams outcome) :
    Ends (.call g args) context streams outcome := by
  cases hstrict : f.isStrict with
  | true => exact h.call hget htakes hstrict (evaluatesAll_of_hasValue hargs streams)
  | false =>
    cases f with
    | builtIn b =>
      obtain ⟨v, w, rfl⟩ : ∃ v w, values = [v, w] := by
        have harity : b.arity = (2, 2) := by
          unfold Expr.isStrict at hstrict
          split at hstrict <;> simp_all [BuiltIn.arity]
        have hlength : 2 ≤ values.length ∧ values.length ≤ 2 := by
          simpa [Expr.takes, BuiltIn.accepts, harity] using htakes
        exact List.length_eq_two.1 (by omega)
      rcases hargs with _ | ⟨hleft, _ | ⟨hright, _ | _⟩⟩
      apply (evaluate_stable _ _ _).endsAs_succ_iff.1
      refine ((callOn_stable _ _ _).endsAs_iff_of_eventually (evaluate_stable _ _ _).succ ?_).2 h
      filter_upwards [callBuiltIn_of_hasValue hstrict hleft hright streams] with n hn
      rw [evaluate_call hget]
      simp only [Reduction.callTarget, callOn, hn]
    | _ => cases hstrict

section BuiltIn

variable {b : BuiltIn} {values : List Expr} {streams after : Streams}

/-- A strict built-in returns what it means on the values. -/
theorem Returns.of_meaning {v : Expr} (hb : (Expr.builtIn b).isStrict = true)
    (haccepts : b.accepts values.length = true)
    (h : b.meaning values streams = .value v after) (hv : v.isDeferred = false) :
    Returns (.builtIn b) values streams (.value v after) := by
  refine ⟨nofun, 1, ?_⟩
  simp only [callOn, Reduction.callBuiltIn_of_isStrict hb haccepts, Reduction.all_asIs, h,
    Outcome.andThen, resume_eq_value hv, Outcome.untraced_value]

theorem Returns.of_meaning_failure {cause : Cause} (hb : (Expr.builtIn b).isStrict = true)
    (haccepts : b.accepts values.length = true)
    (h : b.meaning values streams = .fail cause after) :
    Returns (.builtIn b) values streams (.fail cause after) := by
  refine ⟨nofun, 1, ?_⟩
  simp only [callOn, Reduction.callBuiltIn_of_isStrict hb haccepts, Reduction.all_asIs, h,
    Outcome.andThen]
  rfl

end BuiltIn

section Closure

/-- Trying these clauses of the closure on the values, one after the other, ends in this outcome. -/
def Dispatches (closure : Closure Expr) (values : List Expr) (clauses : List (Clause Expr))
    (streams : Streams) (outcome : Outcome Expr) : Prop :=
  outcome ≠ .exhausted ∧ ∀ᶠ n in atTop,
    ((Reduction.firstMatch (evaluate n) (evaluateTail n) closure values clauses streams).andThen
      (resume n)).untraced = outcome

theorem Returns.of_dispatches {closure : Closure Expr} {values : List Expr} {streams : Streams}
    {outcome : Outcome Expr} (h : Dispatches closure values closure.clauses streams outcome) :
    Returns (.closure closure) values streams outcome :=
  ⟨h.1, h.2.exists⟩

namespace Dispatches

variable {name : String} {captured parameters : Bindings} {label : Option String}
  {patterns values : List Expr} {guard body : Expr} {clauses rest : List (Clause Expr)}
  {streams middle after : Streams} {cause : Cause} {outcome : Outcome Expr}

/-- A clause that does not match is passed over. -/
theorem skip {closure : Closure Expr} (hm : Expr.matchParameters patterns values = .ok none)
    (h : Dispatches closure values rest streams outcome) :
    Dispatches closure values (⟨label, patterns, guard, body⟩ :: rest) streams outcome := by
  obtain ⟨hended, hrest⟩ := h
  refine ⟨hended, ?_⟩
  filter_upwards [hrest] with n hn
  rw [Reduction.firstMatch, hm]
  exact hn

section Match

variable (hm : Expr.matchParameters patterns values = .ok (some parameters))

include hm

/-- A clause that matches and whose guard holds gives what its body comes to in tail position. -/
theorem take_if (hg : Evaluates guard (Closure.scope ⟨some name, clauses, captured⟩ name parameters)
      streams (.value (.bool true) middle))
    (h : EndsInTail body (Closure.scope ⟨some name, clauses, captured⟩ name parameters) middle
      outcome) :
    Dispatches ⟨some name, clauses, captured⟩ values (⟨label, patterns, guard, body⟩ :: rest)
      streams outcome := by
  refine ⟨h.1, ?_⟩
  filter_upwards [hg.eventually, h.eventually (evaluateResumed_stable _ _ _),
    eventually_ge_atTop 1] with n hguard hbody hn
  rw [firstMatch_of_match hn hm, Closure.bodyContext_eq_scope rfl, hguard]
  exact hbody

theorem take (h : EndsInTail body (Closure.scope ⟨some name, clauses, captured⟩ name parameters)
      streams outcome) :
    Dispatches ⟨some name, clauses, captured⟩ values (⟨label, patterns, .bool true, body⟩ :: rest)
      streams outcome :=
  take_if hm (.atom rfl) h

/-- A clause whose guard does not hold is passed over. -/
theorem reject (hg : Evaluates guard (Closure.scope ⟨some name, clauses, captured⟩ name parameters)
      streams (.value (.bool false) middle))
    (h : Dispatches ⟨some name, clauses, captured⟩ values rest middle outcome) :
    Dispatches ⟨some name, clauses, captured⟩ values (⟨label, patterns, guard, body⟩ :: rest)
      streams outcome := by
  obtain ⟨hended, hrest⟩ := h
  refine ⟨hended, ?_⟩
  filter_upwards [hg.eventually, hrest, eventually_ge_atTop 1] with n hguard hnext hn
  rw [firstMatch_of_match hn hm, Closure.bodyContext_eq_scope rfl, hguard]
  exact hnext

theorem fail (hg : Ends guard (Closure.scope ⟨some name, clauses, captured⟩ name parameters)
      streams (.fail cause after)) :
    Dispatches ⟨some name, clauses, captured⟩ values (⟨label, patterns, guard, body⟩ :: rest)
      streams (.fail cause after) := by
  obtain ⟨f, rfl, hfails⟩ := hg.exists_failure
  refine ⟨nofun, ?_⟩
  filter_upwards [hfails.eventually, eventually_ge_atTop 1] with n hguard hn
  rw [firstMatch_of_match hn hm, Closure.bodyContext_eq_scope rfl, hguard]
  rfl

end Match

end Dispatches

/-- The parameters come before the function itself, and that before what it captured. -/
theorem Closure.get?_scope (closure : Closure Expr) (name : String) (parameters : Bindings)
    (other : String) :
    (closure.scope name parameters).get? other =
      (parameters.get? other).or
        (if name = other then some (.closure closure) else closure.captured.get? other) := by
  rw [Closure.scope, Context.get?_mergeFavouring, Context.get?_insert]

end Closure
end Song
