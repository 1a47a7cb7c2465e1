import Song.Proofs.Evaluation.Application
import Song.Proofs.Value.LocalFunctions

/-!
# Where values that declare come from

A statement that is not a declaration can still give a value that binds names when it is installed.
It then passes on the value of another place: a block that of its last statement, a call that of
the body of the chosen clause, and the two output functions that of their argument. The first place
of the value is a declaration, or a name that is bound to the value.
-/
namespace Song

open Filter

namespace Expr

def isDeclaring : Expr → Bool
  | closure c => c.name.isSome
  | assign .. => true
  | _ => false

theorem IsPlain.isDeclaring {v : Expr} (h : v.IsPlain) : v.isDeclaring = false := by
  cases v with
  | closure c =>
    have hname : c.name = none := h
    simp [Expr.isDeclaring, hname]
  | assign => cases h
  | _ => rfl

theorem isDeferred_of_isDeclaring {v : Expr} (h : v.isDeclaring = true) :
    v.isDeferred = false := by
  cases v with
  | deferred => cases h
  | _ => rfl

end Expr

namespace BuiltIn

variable {b : BuiltIn} (hb : b.handsOn = true)

include hb

theorem isStrict_of_handsOn : (Expr.builtIn b).isStrict = true := by
  cases b <;> first | rfl | cases hb

theorem arity_of_handsOn : b.arity = (1, 1) := by
  cases b <;> first | rfl | cases hb

end BuiltIn

/-- The function that an expression calls, by its name or as the value of another expression, with
the arguments and the streams before these are evaluated. -/
inductive Calls : Expr → Bindings → Streams → Expr → List Expr → Streams → Prop
  | named {callee : String} {target : Expr} {args : List Expr} {context : Bindings}
    {streams : Streams} (h : context.get? callee = some target) :
    Calls (.call callee args) context streams target args streams
  | applied {e target : Expr} {args : List Expr} {context : Bindings} {streams after : Streams}
    (h : Evaluates e context streams (.value target after)) (hcallable : target.isCallable = true) :
    Calls (.apply e args) context streams target args after

/-- The values choose a clause of the function: its body, the context for that, and the streams
after the guards. -/
inductive Selects (closure : Closure Expr) (values : List Expr) :
    List (Clause Expr) → Streams → Expr → Bindings → Streams → Prop
  | mismatch {clause : Clause Expr} {rest : List (Clause Expr)} {streams after : Streams}
    {body : Expr} {inner : Bindings}
    (hm : Expr.matchParameters clause.patterns values = .ok none)
    (hrest : Selects closure values rest streams body inner after) :
    Selects closure values (clause :: rest) streams body inner after
  | guardFalse {clause : Clause Expr} {rest : List (Clause Expr)} {streams middle after : Streams}
    {parameters : Bindings} {body : Expr} {inner : Bindings}
    (hm : Expr.matchParameters clause.patterns values = .ok (some parameters))
    (hg : Evaluates clause.guard (closure.bodyContext parameters) streams
      (.value (.bool false) middle))
    (hrest : Selects closure values rest middle body inner after) :
    Selects closure values (clause :: rest) streams body inner after
  | guardTrue {clause : Clause Expr} {rest : List (Clause Expr)} {streams after : Streams}
    {parameters : Bindings}
    (hm : Expr.matchParameters clause.patterns values = .ok (some parameters))
    (hg : Evaluates clause.guard (closure.bodyContext parameters) streams
      (.value (.bool true) after)) :
    Selects closure values (clause :: rest) streams clause.body (closure.bodyContext parameters)
      after

/-- How a statement comes by a value that declares: it is a declaration, or a name that is bound to
such a value, or it passes on the value of the last statement of a block, of the body of the
function that it calls, or of the argument that it writes. -/
inductive Declares : Expr → Bindings → Streams → Expr → Streams → Prop
  | assign {target e v : Expr} {context : Bindings} {streams after : Streams}
    (h : Evaluates e context streams (.value v after)) :
    Declares (.assign target e) context streams (.assign target v) after
  | function {clause : Clause Expr} {v : Expr} {context : Bindings} {streams : Streams}
    (hname : clause.name.isSome = true) (h : declare clause context = .ok v) :
    Declares (.function clause) context streams v streams
  | name {n : String} {v : Expr} {context : Bindings} {streams : Streams}
    (h : context.get? n = some v) (hv : v.isDeclaring = true) :
    Declares (.name n) context streams v streams
  | block {steps : List (Expr × Expr)} {last v : Expr} {context : Bindings} {scope : LocalScope}
    {streams after : Streams} (hruns : RunsLocally (.start context streams) steps scope)
    (hlast : Declares last (scope.entered last) scope.streams v after) :
    Declares (.block (steps.map Prod.fst ++ [last])) context streams v after
  | body {e body v : Expr} {closure : Closure Expr} {args values : List Expr}
    {context inner : Bindings} {streams first middle last after : Streams}
    (hcalls : Calls e context streams (.closure closure) args first)
    (hargs : EvaluatesAll context args first values middle)
    (hselects : Selects closure values closure.clauses middle body inner last)
    (hbody : Declares body inner last v after) : Declares e context streams v after
  | written {e arg v : Expr} {b : BuiltIn} {context : Bindings}
    {streams first middle after : Streams}
    (hcalls : Calls e context streams (.builtIn b) [arg] first) (hb : b.handsOn = true)
    (harg : Declares arg context first v middle)
    (hwritten : b.meaning [v] middle = .value v after) : Declares e context streams v after

section Calls

variable {e target : Expr} {args : List Expr} {context : Bindings} {streams first : Streams}

theorem Calls.eventually (h : Calls e context streams target args first) :
    ∀ᶠ n in atTop, evaluate (n + 1) e context streams =
      ((Reduction.callTarget (evaluate n) (evaluateTail n) target args context first).andThen
        (resume n)).inside e := by
  cases h with
  | named h =>
    apply Eventually.of_forall
    intro n
    simp only [evaluate, Reduction.located, Reduction.step, h]
  | applied h hcallable =>
    filter_upwards [h.eventually] with n hn
    simp only [evaluate, Reduction.located, Reduction.step, hn, Outcome.andThen, hcallable, if_true]

theorem EvaluatesAll.isValue {es values : List Expr} {after : Streams}
    (h : EvaluatesAll context es streams values after)
    (hes : ∀ e ∈ es, Grammatical .statement e)
    (hc : context.All (Expr.IsValue Clause.IsGrammatical)) :
    ∀ v ∈ values, v.IsValue Clause.IsGrammatical := by
  induction h with
  | nil => simp
  | cons h _ ih =>
    obtain ⟨hfirst, hrest⟩ := List.forall_mem_cons.1 hes
    obtain ⟨-, n, hn⟩ := h
    rw [List.forall_mem_cons]
    exact ⟨evaluate_isValue hfirst hc hn, ih hrest⟩

end Calls

section Selects

variable {closure : Closure Expr} {values : List Expr} {clauses : List (Clause Expr)}
  {streams after : Streams} {body : Expr} {inner : Bindings}

/-- Dispatching goes on with the chosen body. -/
theorem Selects.firstMatch (h : Selects closure values clauses streams body inner after) :
    ∀ᶠ n in atTop,
      Reduction.firstMatch (evaluate n) (evaluateTail n) closure values clauses streams =
        evaluateTail n body inner after := by
  induction h with
  | mismatch hm _ ih =>
    filter_upwards [ih] with n hn
    simp only [Reduction.firstMatch, hm, hn]
  | guardFalse hm hg _ ih =>
    filter_upwards [hg.eventually, ih, eventually_ge_atTop 1] with n hguard hrest hn
    rw [firstMatch_of_match hn hm, hguard]
    exact hrest
  | guardTrue hm hg =>
    filter_upwards [hg.eventually, eventually_ge_atTop 1] with n hguard hn
    rw [firstMatch_of_match hn hm, hguard]
    rfl

/-- The chosen clause has as many parameters as there are values. -/
theorem Selects.exists_arity (h : Selects closure values clauses streams body inner after) :
    ∃ clause ∈ clauses, clause.arity = values.length := by
  have harity {clause : Clause Expr} {parameters : Bindings}
      (hm : Expr.matchParameters clause.patterns values = .ok (some parameters)) :
      clause.arity = values.length := by
    rw [Expr.matchParameters] at hm
    split at hm
    case isTrue hlength => exact sameLength_iff.1 hlength
    case isFalse => cases hm
  induction h with
  | mismatch _ _ ih =>
    obtain ⟨clause, hmem, hclause⟩ := ih
    exact ⟨clause, List.mem_cons_of_mem _ hmem, hclause⟩
  | guardFalse hm => exact ⟨_, List.mem_cons_self, harity hm⟩
  | guardTrue hm => exact ⟨_, List.mem_cons_self, harity hm⟩

end Selects

section PassedOn

variable {e v : Expr} {args : List Expr} {context : Bindings} {streams first after : Streams}

/-- A call of a function has the value of the chosen body. -/
theorem Calls.body_value {closure : Closure Expr} {values : List Expr} {body : Expr}
    {inner : Bindings} {middle last : Streams}
    (hcalls : Calls e context streams (.closure closure) args first)
    (hargs : EvaluatesAll context args first values middle)
    (hselects : Selects closure values closure.clauses middle body inner last)
    (hbody : Evaluates body inner last (.value v after)) (hv : v.isDeferred = false) :
    Evaluates e context streams (.value v after) := by
  have haccepts : closure.accepts args.length = true := by
    rw [hargs.length_eq]
    simpa [Closure.accepts] using hselects.exists_arity
  apply Evaluates.of_eventually (by simp)
  apply eventually_of_succ
  filter_upwards [hcalls.eventually, hargs.eventually, hselects.firstMatch,
    hbody.tail_value hv] with n hcall hall hfirst htail
  have htarget : Reduction.callTarget (evaluate n) (evaluateTail n) (.closure closure) args context
      first = evaluateTail n body inner last := by
    simp only [Reduction.callTarget, Reduction.arguments, haccepts, if_true, hall, Outcome.andThen,
      Reduction.dispatch, hfirst]
  rw [hcall, htarget, htail]
  rfl

/-- The output functions have the value that they write. -/
theorem Calls.written_value {b : BuiltIn} {arg : Expr} {middle : Streams}
    (hcalls : Calls e context streams (.builtIn b) [arg] first) (hb : b.handsOn = true)
    (harg : Evaluates arg context first (.value v middle))
    (hwritten : b.meaning [v] middle = .value v after) (hv : v.isDeferred = false) :
    Evaluates e context streams (.value v after) := by
  have hstrict := BuiltIn.isStrict_of_handsOn hb
  have haccepts : b.accepts [arg].length = true := by
    simp [BuiltIn.accepts, BuiltIn.arity_of_handsOn hb]
  have hargs : EvaluatesAll context [arg] first [v] middle := .cons harg (.nil middle)
  apply Evaluates.of_eventually (by simp)
  apply eventually_of_succ
  filter_upwards [hcalls.eventually, hargs.eventually, eventually_ge_atTop 1] with n hcall hall hn
  obtain ⟨limit, rfl⟩ := Nat.exists_eq_add_of_le' hn
  rw [hcall, Reduction.callTarget, Reduction.callBuiltIn_of_isStrict hstrict haccepts, hall]
  simp only [Outcome.andThen, hwritten, resume_eq_value hv, Outcome.inside]

end PassedOn

/-! ### Values that declare -/

theorem Declares.isDeclaring {e v : Expr} {context : Bindings} {streams after : Streams}
    (h : Declares e context streams v after) : v.isDeclaring = true := by
  induction h with
  | assign => rfl
  | function hname h =>
    rw [declare] at h
    split at h
    · cases h
    · split at h
      case h_1 hnone => simp [hnone] at hname
      case h_2 =>
        split at h
        · split at h <;> cases h <;>
            simp_all [Expr.isDeclaring, Closure.withClause, Closure.ofClause]
        · cases h
          rfl
  | name _ hv => exact hv
  | block _ _ ih | body _ _ _ _ ih | written _ _ _ _ ih => exact ih

/-- Statements that declare give the value. -/
theorem Declares.evaluates {e v : Expr} {context : Bindings} {streams after : Streams}
    (h : Declares e context streams v after) : Evaluates e context streams (.value v after) := by
  induction h with
  | assign h =>
    obtain ⟨-, n, hn⟩ := h
    apply Evaluates.of_eq_value (n + 1)
    simp only [evaluate, Reduction.step, hn, Outcome.andThen]
    rfl
  | function _ h =>
    apply Evaluates.of_eq_value 1
    simp only [evaluate, Reduction.step, h]
    rfl
  | name h =>
    apply Evaluates.of_eq_value 1
    simp only [evaluate, Reduction.step, h]
    rfl
  | block hruns hlast ih =>
    apply Evaluates.of_eventually (by simp)
    apply eventually_of_succ
    filter_upwards [hruns.block_eq (List.cons_ne_nil _ []), ih.eventually] with n hblock hn
    rw [evaluate_block, hblock, LocalScope.block_singleton, hn]
    rfl
  | body hcalls hargs hselects hbody ih =>
    have hv := Expr.isDeferred_of_isDeclaring hbody.isDeclaring
    exact hcalls.body_value hargs hselects ih hv
  | written hcalls hb harg hwritten ih =>
    have hv := Expr.isDeferred_of_isDeclaring harg.isDeclaring
    exact hcalls.written_value hb ih hwritten hv

section Found

variable {n m : Nat} {e v target : Expr} {args : List Expr} {context : Bindings}
  {streams first after : Streams}

end Found

end Song
