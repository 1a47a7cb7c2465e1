import Song.Proofs.Value.Installed

/-!
# Functions of several clauses

A function is declared clause by clause, with other statements in between. Its
closure has the clauses in the order of their declaration and captured the context
before the first of them, without its own name. A call chooses the first clause
whose patterns match the arguments and whose guard holds, where the guard and the
body see what was captured, the whole function and the parameters.
-/
namespace Song

open Filter

/-- The evaluation ends, within some number of steps, in this outcome. -/
def Evaluates (e : Expr) (context : Bindings) (streams : Streams) (outcome : Outcome Expr) : Prop :=
  outcome ≠ .exhausted ∧ ∃ limit, evaluate limit e context streams = outcome

theorem Evaluates.eventually {e : Expr} {context : Bindings} {streams : Streams}
    {outcome : Outcome Expr} (h : Evaluates e context streams outcome) :
    ∀ᶠ n in atTop, evaluate n e context streams = outcome := by
  obtain ⟨hended, limit, rfl⟩ := h
  filter_upwards [eventually_ge_atTop limit] with n hn
  exact evaluate_of_le hn hended

theorem Evaluates.of_eventually {e : Expr} {context : Bindings} {streams : Streams}
    {outcome : Outcome Expr} (hended : outcome ≠ .exhausted)
    (h : ∀ᶠ n in atTop, evaluate n e context streams = outcome) :
    Evaluates e context streams outcome :=
  ⟨hended, h.exists⟩

theorem Evaluates.of_eq_value {e v : Expr} {context : Bindings} {streams after : Streams}
    (limit : Nat) (h : evaluate limit e context streams = .value v after) :
    Evaluates e context streams (.value v after) := by
  constructor
  · simp
  · exact ⟨limit, h⟩

def Expr.isDeferred : Expr → Bool
  | deferred .. => true
  | _ => false

theorem resume_eq_value {v : Expr} (h : v.isDeferred = false) (limit : Nat) (streams : Streams) :
    resume (limit + 1) v streams = .value v streams := by
  cases v <;> first | rfl | cases h

/-- The failure in tail position stands for the one elsewhere. -/
private def StoodForBy (f g : Failure) : Prop :=
  g.StandsFor f

private theorem stoodForBy_refl (f : Failure) : StoodForBy f f :=
  .refl f

private theorem StoodForBy.inside (e : Expr) (f g : Failure) (h : StoodForBy f g) :
    StoodForBy (f.inside e) (g.inside e) :=
  (Failure.StandsFor.inside_left e h).inside_right e

private theorem StoodForBy.inside_left (e : Expr) (f g : Failure) (h : StoodForBy f g) :
    StoodForBy (f.inside e) g :=
  Failure.StandsFor.inside_right e h

/-- The outcome is what the members of a family come to once they are resumed, unless it is
itself the mark of a call. -/
private def Resumes (outcome : Outcome Expr) (family : Nat → Outcome Expr) : Prop :=
  (∃ v streams, outcome = .value v streams ∧ v.isDeferred = true) ∨
    Outcome.Approximates (fun _ => True) StoodForBy outcome fun n => (family n).andThen (resume n)

namespace Resumes

variable {outcome : Outcome Expr} {family : Nat → Outcome Expr}

private theorem observation : Outcome.Observation (fun _ : Expr => True) StoodForBy Resumes where
  exhausted _ := Or.inr (.exhausted _)
  value {v} streams _ := by
    cases hv : v.isDeferred with
    | true => exact Or.inl ⟨v, streams, rfl, hv⟩
    | false =>
      right
      apply Outcome.Approximates.value True.intro
      apply eventually_of_succ
      apply Eventually.of_forall
      intro n
      exact resume_eq_value hv n streams
  failure h := Or.inr (.failure (h.mono fun n ⟨g, hg, hR⟩ => ⟨g, by rw [hg]; rfl, hR⟩))
  congr h ht := ht.imp_right (Outcome.Approximates.congr (h.mono fun n hn => by rw [hn]))

private theorem shift (h : Resumes outcome fun n => family (n + 1)) : Resumes outcome family :=
  h.imp_right fun h => h.resume_succ.shift

private theorem inside (e : Expr) (h : Resumes outcome family) :
    Resumes (outcome.inside e) fun n => (family n).inside e := by
  refine h.imp ?_ fun h => h.inside_first e (StoodForBy.inside e) (StoodForBy.inside_left e)
  rintro ⟨v, streams, rfl, hv⟩
  exact ⟨v, streams, rfl, hv⟩

end Resumes

/-- A call that is made and one that is deferred and resumed come to the same. -/
private theorem callTarget_resumes (target : Expr) (args : List Expr) (context : Bindings)
    (streams : Streams) (n : Nat) :
    Outcome.Approximates (fun _ => True) StoodForBy
      ((Reduction.callTarget (evaluate n) (evaluateTail n) target args context streams).andThen
        (resume n))
      fun m => (Reduction.deferTarget (evaluate m) target args context streams).andThen
        (resume (m + 1)) := by
  have he := evaluate_approximates_self stoodForBy_refl n
  have hargs : ∀ e ∈ args, (fun _ : Expr => True) e := fun _ _ => True.intro
  have hc : context.All fun _ => True := fun _ _ => True.intro
  have hresume (n : Nat) (v : Expr) (streams : Streams) :
      Outcome.Approximates (fun _ => True) StoodForBy (resume n v streams)
        fun m => resume (m + 1) v streams :=
    (resume_approximates_self stoodForBy_refl n v streams).succ
  cases target
  case builtIn b =>
    apply (Invariant.trivial.callBuiltIn_approximates stoodForBy_refl he hargs hc streams).andThen
      Outcome.Approximates.observation
    intro v streams _
    exact hresume n v streams
  case closure closure =>
    simp only [Reduction.callTarget, Reduction.deferTarget, Outcome.andThen_assoc]
    apply (Invariant.arguments_approximates stoodForBy_refl he hargs hc streams).andThen
      Outcome.Approximates.observation
    intro values streams _
    rw [← resume_deferred]
    exact hresume (n + 1) (.deferred (.closure closure) values) streams
  all_goals exact Outcome.Approximates.observation.fail stoodForBy_refl _ _

/-- What an expression evaluates to, it comes to in tail position too. -/
private theorem evaluate_resumes (n : Nat) :
    Reduction.Observed (fun _ => True) (fun _ => True) Resumes (evaluate n) evaluateTail := by
  induction n with
  | zero => exact fun _ _ _ _ _ => Resumes.observation.exhausted _
  | succ n ih =>
    intro e context streams hs hc
    cases e
    case call callee args =>
      right
      apply Outcome.Approximates.shift
      apply Outcome.Approximates.inside_first _ (StoodForBy.inside _) (StoodForBy.inside_left _)
      simp only [Reduction.step]
      split
      · exact callTarget_resumes _ args context streams n
      · exact Outcome.Approximates.observation.fail stoodForBy_refl _ _
    case apply target args =>
      right
      apply Outcome.Approximates.shift
      -- The expression goes around each step, since the two words for a target that cannot be
      -- called are compared within it.
      simp only [evaluate, evaluateTail, Reduction.tail, Reduction.located, Reduction.step,
        Outcome.inside_andThen, Outcome.andThen_assoc]
      have htarget := (evaluate_approximates_self stoodForBy_refl n target context streams
        True.intro hc).inside _ (StoodForBy.inside (.apply target args))
      apply htarget.andThen Outcome.Approximates.observation
      intro v streams _
      split
      case isTrue =>
        have hcall := (callTarget_resumes v args context streams n).inside_first _
          (StoodForBy.inside (.apply target args)) (StoodForBy.inside_left _)
        simpa only [Outcome.inside_andThen] using hcall
      case isFalse hcallable =>
        simp only [deferTarget_of_not_callable hcallable]
        have hwords := Failure.StandsFor.notCallable (Bool.eq_false_of_not_eq_true hcallable) target
          args
        exact .failure (Eventually.of_forall fun _ => ⟨_, rfl, hwords⟩)
    case block statements =>
      refine .shift (.inside _ ?_)
      exact Invariant.trivial.block_observed stoodForBy_refl
        (evaluate_approximates_self stoodForBy_refl n) Resumes.observation ih
        (fun _ _ => True.intro) hc [] streams
    all_goals
      exact .shift ((evaluate_approximates_self stoodForBy_refl _ _ context streams hs hc).observed
        Resumes.observation)

section Tail

variable {e : Expr} {context : Bindings} {streams after : Streams}

theorem Evaluates.tail_value {v : Expr} (h : Evaluates e context streams (.value v after))
    (hv : v.isDeferred = false) :
    ∀ᶠ n in atTop, (evaluateTail n e context streams).andThen (resume n) = .value v after := by
  obtain ⟨-, n, hn⟩ := h
  have hresumes := evaluate_resumes n e context streams True.intro fun _ _ => True.intro
  rw [hn] at hresumes
  rcases hresumes with ⟨w, _, ⟨⟩, hw⟩ | happroximates
  · rw [hv] at hw
    cases hw
  · exact happroximates.of_value.2

theorem Evaluates.tail_failure {f : Failure} (h : Evaluates e context streams (.failure f after)) :
    ∀ᶠ n in atTop, ∃ g, (evaluateTail n e context streams).andThen (resume n) = .failure g after ∧
      g.StandsFor f := by
  obtain ⟨-, n, hn⟩ := h
  have hresumes := evaluate_resumes n e context streams True.intro fun _ _ => True.intro
  rw [hn] at hresumes
  rcases hresumes with ⟨_, _, ⟨⟩, _⟩ | happroximates
  exact happroximates.of_failure

end Tail

/-- What a clause of the function sees: what the function captured, the function itself under its
name, and the parameters, of which the later ones hide the earlier. -/
def Closure.scope (closure : Closure Expr) (name : String) (parameters : Bindings) : Bindings :=
  parameters.mergeFavouring (closure.captured.insert name (.closure closure))

/-- How the arguments choose among clauses, tried in order, with the context for the body of the
chosen one. A clause that does not match or whose guard is false is passed over. It is a failure
if no clause is left, if a pattern cannot be matched, or if a guard fails or gives no truth
value. -/
inductive Chooses (name : String) (closure : Closure Expr) (args : List Expr) :
    List (Clause Expr) → Streams → Outcome (Clause Expr × Bindings) → Prop
  | noneLeft (streams : Streams) :
    Chooses name closure args [] streams (.fail (.signatureMismatch args) streams)
  | unmatchable {clause : Clause Expr} {rest : List (Clause Expr)} {cause : Cause}
    (streams : Streams) (hm : Expr.matchParameters clause.patterns args = .error cause) :
    Chooses name closure args (clause :: rest) streams (.fail cause streams)
  | mismatch {clause : Clause Expr} {rest : List (Clause Expr)} {streams : Streams}
    {chosen : Outcome (Clause Expr × Bindings)}
    (hm : Expr.matchParameters clause.patterns args = .ok none)
    (hrest : Chooses name closure args rest streams chosen) :
    Chooses name closure args (clause :: rest) streams chosen
  | guardFails {clause : Clause Expr} {rest : List (Clause Expr)} {streams after : Streams}
    {parameters : Bindings} {f : Failure}
    (hm : Expr.matchParameters clause.patterns args = .ok (some parameters))
    (hg : Evaluates clause.guard (closure.scope name parameters) streams (.failure f after)) :
    Chooses name closure args (clause :: rest) streams (.failure f after)
  | guardOther {clause : Clause Expr} {rest : List (Clause Expr)} {streams after : Streams}
    {parameters : Bindings} {v : Expr}
    (hm : Expr.matchParameters clause.patterns args = .ok (some parameters))
    (hg : Evaluates clause.guard (closure.scope name parameters) streams (.value v after))
    (hv : ∀ b, v ≠ .bool b) :
    Chooses name closure args (clause :: rest) streams (.fail (.notABoolean v) after)
  | guardFalse {clause : Clause Expr} {rest : List (Clause Expr)} {streams after : Streams}
    {parameters : Bindings} {chosen : Outcome (Clause Expr × Bindings)}
    (hm : Expr.matchParameters clause.patterns args = .ok (some parameters))
    (hg : Evaluates clause.guard (closure.scope name parameters) streams
      (.value (.bool false) after))
    (hrest : Chooses name closure args rest after chosen) :
    Chooses name closure args (clause :: rest) streams chosen
  | guardTrue {clause : Clause Expr} {rest : List (Clause Expr)} {streams after : Streams}
    {parameters : Bindings}
    (hm : Expr.matchParameters clause.patterns args = .ok (some parameters))
    (hg : Evaluates clause.guard (closure.scope name parameters) streams
      (.value (.bool true) after)) :
    Chooses name closure args (clause :: rest) streams
      (.value (clause, closure.scope name parameters) after)

theorem Closure.bodyContext_eq_scope {closure : Closure Expr} {name : String}
    (h : closure.name = some name) (parameters : Bindings) :
    closure.bodyContext parameters = closure.scope name parameters := by
  rw [Closure.bodyContext, h]
  rfl

theorem Expr.eq_true_of_not_isGuard {guard : Expr} (h : ¬guard.isGuard = true) :
    guard = .bool true := by
  cases guard with
  | bool b =>
    cases b with
    | true => rfl
    | false => exact absurd rfl h
  | _ => exact absurd rfl h

/-- A clause that matches is decided by its guard; the guard that stands for none holds. -/
theorem firstMatch_of_match {closure : Closure Expr} {args : List Expr} {clause : Clause Expr}
    {rest : List (Clause Expr)} {streams : Streams} {parameters : Bindings} {n : Nat} (hn : 1 ≤ n)
    (hm : Expr.matchParameters clause.patterns args = .ok (some parameters)) :
    Reduction.firstMatch (evaluate n) (evaluateTail n) closure args (clause :: rest) streams =
      (evaluate n clause.guard (closure.bodyContext parameters) streams).andThen
        fun verdict streams =>
          match verdict with
          | .bool true => evaluateTail n clause.body (closure.bodyContext parameters) streams
          | .bool false =>
            Reduction.firstMatch (evaluate n) (evaluateTail n) closure args rest streams
          | other => .fail (.notABoolean other) streams := by
  simp only [Reduction.firstMatch, hm]
  split
  case isTrue => rfl
  case isFalse hguard =>
    obtain ⟨limit, rfl⟩ := Nat.exists_eq_add_of_le' hn
    rw [Expr.eq_true_of_not_isGuard hguard]
    rfl

/-- Dispatching goes on with the body of the chosen clause, or fails as the choice does. -/
theorem Chooses.firstMatch {name : String} {closure : Closure Expr} {args : List Expr}
    {clauses : List (Clause Expr)} {streams : Streams} {chosen : Outcome (Clause Expr × Bindings)}
    (hname : closure.name = some name) (h : Chooses name closure args clauses streams chosen) :
    ∀ᶠ n in atTop,
      Reduction.firstMatch (evaluate n) (evaluateTail n) closure args clauses streams =
        chosen.andThen fun choice streams => evaluateTail n choice.1.body choice.2 streams := by
  induction h with
  | noneLeft streams => exact Eventually.of_forall fun _ => rfl
  | unmatchable streams hm =>
    apply Eventually.of_forall
    intro n
    simp only [Reduction.firstMatch, hm]
    rfl
  | mismatch hm _ ih =>
    filter_upwards [ih] with n hrest
    simp only [Reduction.firstMatch, hm]
    exact hrest
  | guardFails hm hg =>
    filter_upwards [hg.eventually, eventually_ge_atTop 1] with n hguard hn
    rw [firstMatch_of_match hn hm, Closure.bodyContext_eq_scope hname, hguard]
    rfl
  | guardOther hm hg hv =>
    filter_upwards [hg.eventually, eventually_ge_atTop 1] with n hguard hn
    rw [firstMatch_of_match hn hm, Closure.bodyContext_eq_scope hname, hguard]
    simp only [Outcome.andThen]
    split
    · exact absurd rfl (hv true)
    · exact absurd rfl (hv false)
    · rfl
  | guardFalse hm hg _ ih =>
    filter_upwards [hg.eventually, ih, eventually_ge_atTop 1] with n hguard hrest hn
    rw [firstMatch_of_match hn hm, Closure.bodyContext_eq_scope hname, hguard]
    exact hrest
  | guardTrue hm hg =>
    filter_upwards [hg.eventually, eventually_ge_atTop 1] with n hguard hn
    rw [firstMatch_of_match hn hm, Closure.bodyContext_eq_scope hname, hguard]
    rfl

/-! ### Calls -/

inductive EvaluatesAll (context : Bindings) : List Expr → Streams → List Expr → Streams → Prop
  | nil (streams : Streams) : EvaluatesAll context [] streams [] streams
  | cons {e v : Expr} {rest values : List Expr} {streams middle after : Streams}
    (h : Evaluates e context streams (.value v middle))
    (hrest : EvaluatesAll context rest middle values after) :
    EvaluatesAll context (e :: rest) streams (v :: values) after

theorem EvaluatesAll.eventually {context : Bindings} {es values : List Expr}
    {streams after : Streams} (h : EvaluatesAll context es streams values after) :
    ∀ᶠ n in atTop, Reduction.all (evaluate n) es context streams = .value values after := by
  induction h with
  | nil streams => exact Eventually.of_forall fun _ => rfl
  | cons h _ ih =>
    filter_upwards [h.eventually, ih] with n hfirst hrest
    simp only [Reduction.all, hfirst, hrest, Outcome.andThen]

section Call

variable {name : String} {closure : Closure Expr} {args values : List Expr} {context : Bindings}
  {streams after : Streams}

/-- A call whose arguments have been evaluated comes to what dispatching comes to. -/
theorem call_eventually (hget : context.get? name = some (.closure closure))
    (haccepts : closure.accepts args.length = true)
    (hargs : EvaluatesAll context args streams values after) :
    ∀ᶠ n in atTop, evaluate (n + 1) (.call name args) context streams =
      ((Reduction.firstMatch (evaluate n) (evaluateTail n) closure values closure.clauses
        after).andThen (resume n)).inside (.call name args) := by
  filter_upwards [hargs.eventually] with n hall
  simp only [evaluate, Reduction.located, Reduction.step, hget, Reduction.callTarget,
    Reduction.arguments, haccepts, if_true, hall, Outcome.andThen, Reduction.dispatch]

variable (hname : closure.name = some name) (hget : context.get? name = some (.closure closure))
  (haccepts : closure.accepts args.length = true)
  (hargs : EvaluatesAll context args streams values after)

include hname hget haccepts hargs

/-- A choice that fails makes the call fail. -/
theorem call_of_chooses_failure {f : Failure} {last : Streams}
    (h : Chooses name closure values closure.clauses after (.failure f last)) :
    Evaluates (.call name args) context streams (.failure (f.inside (.call name args)) last) := by
  refine .of_eventually nofun (eventually_of_succ ?_)
  filter_upwards [call_eventually hget haccepts hargs, h.firstMatch hname] with n hcall hfirst
  rw [hcall, hfirst]
  rfl

/-- The call has the value of the body of the chosen clause. -/
theorem call_of_body_value {clause : Clause Expr} {inner : Bindings} {middle last : Streams}
    {v : Expr}
    (h : Chooses name closure values closure.clauses after (.value (clause, inner) middle))
    (hbody : Evaluates clause.body inner middle (.value v last)) (hv : v.isDeferred = false) :
    Evaluates (.call name args) context streams (.value v last) := by
  refine .of_eventually nofun (eventually_of_succ ?_)
  filter_upwards [call_eventually hget haccepts hargs, h.firstMatch hname,
    hbody.tail_value hv] with n hcall hfirst htail
  rw [hcall, hfirst]
  simp only [Outcome.andThen] at htail ⊢
  rw [htail]
  rfl

/-- The call fails as the body of the chosen clause does. -/
theorem call_of_body_failure {clause : Clause Expr} {inner : Bindings} {middle last : Streams}
    {f : Failure}
    (h : Chooses name closure values closure.clauses after (.value (clause, inner) middle))
    (hbody : Evaluates clause.body inner middle (.failure f last)) :
    ∃ g : Failure, g.StandsFor f ∧ Evaluates (.call name args) context streams
      (.failure (g.inside (.call name args)) last) := by
  obtain ⟨n, hcall, hfirst, g, htail, hg⟩ := ((call_eventually hget haccepts hargs).and
    ((h.firstMatch hname).and hbody.tail_failure)).exists
  refine ⟨g, hg, nofun, n + 1, ?_⟩
  rw [hcall, hfirst]
  simp only [Outcome.andThen] at htail ⊢
  rw [htail]
  rfl

end Call

/-- Statements with their values, executed one after the other. -/
inductive Runs : Bindings → Streams → List (Expr × Expr) → Bindings → Streams → Prop
  | nil (context : Bindings) (streams : Streams) : Runs context streams [] context streams
  | cons {context next final : Bindings} {streams after last : Streams} {statement v : Expr}
    {limit : Nat} {steps : List (Expr × Expr)}
    (h : execute limit statement context streams = .value (v, next) after)
    (hrest : Runs next after steps final last) :
    Runs context streams ((statement, v) :: steps) final last

def Expr.Binds (value : Expr) (name : String) : Prop :=
  ∃ bound, value.declarations = .ok bound ∧ bound.contains name = true

def clauseOf? (name : String) : Expr → Option (Clause Expr)
  | .function clause => if clause.name = some name then some clause else none
  | _ => none

theorem clauseOf?_eq_some {name : String} {statement : Expr} {clause : Clause Expr}
    (h : clauseOf? name statement = some clause) :
    statement = .function clause ∧ clause.name = some name := by
  cases statement with
  | function other =>
    rw [clauseOf?] at h
    split at h <;> cases h
    exact ⟨rfl, ‹_›⟩
  | _ => cases h

/-- A clause whose name is bound to no function of that name starts a function. -/
theorem declare_of_new {name : String} {clause : Clause Expr} {context : Bindings}
    (hname : clause.name = some name) (hfloat : Expr.floatAmong? clause.patterns = none)
    (hnew : ∀ closure, context.get? name = some (.closure closure) → closure.name ≠ some name) :
    declare clause context =
      .ok (.closure (.ofClause (some name) clause (context.erase name))) := by
  simp only [declare, hfloat, hname]
  split
  case h_1 existing hexisting => rw [if_neg (hnew existing hexisting)]
  case h_2 => rfl

/-- Any other clause joins the function of its name. -/
theorem declare_of_bound {name : String} {clause : Clause Expr} {context : Bindings}
    {closure : Closure Expr} (hname : clause.name = some name)
    (hfloat : Expr.floatAmong? clause.patterns = none)
    (hget : context.get? name = some (.closure closure)) (hclosure : closure.name = some name) :
    declare clause context = .ok (.closure (closure.withClause clause)) := by
  simp only [declare, hfloat, hname, hget, hclosure, if_true]

theorem floatAmong?_of_declare {clause : Clause Expr} {context : Bindings} {v : Expr}
    (h : declare clause context = .ok v) : Expr.floatAmong? clause.patterns = none := by
  rw [declare] at h
  split at h
  · cases h
  · assumption

/-- What the declaration of a named clause gives. -/
theorem declare_cases {name : String} {clause : Clause Expr} {context : Bindings} {v : Expr}
    (hname : clause.name = some name) (h : declare clause context = .ok v) :
    (∃ closure, context.get? name = some (.closure closure) ∧ closure.name = some name ∧
      v = .closure (closure.withClause clause)) ∨
    (∀ closure, context.get? name = some (.closure closure) → closure.name ≠ some name) ∧
      v = .closure (.ofClause (some name) clause (context.erase name)) := by
  have hfloat := floatAmong?_of_declare h
  by_cases hbound : ∃ closure, context.get? name = some (.closure closure) ∧
      closure.name = some name
  · obtain ⟨closure, hget, hclosure⟩ := hbound
    rw [declare_of_bound hname hfloat hget hclosure] at h
    exact Or.inl ⟨closure, hget, hclosure, (Except.ok.inj h).symm⟩
  · have hnew (closure : Closure Expr) (hget : context.get? name = some (.closure closure)) :
        closure.name ≠ some name := fun hclosure => hbound ⟨closure, hget, hclosure⟩
    rw [declare_of_new hname hfloat hnew] at h
    exact Or.inr ⟨hnew, (Except.ok.inj h).symm⟩

section Step

variable {limit : Nat} {name : String} {context next : Bindings} {streams after : Streams}
  {v : Expr}

theorem evaluate_function {clause : Clause Expr}
    (h : evaluate limit (.function clause) context streams = .value v after) :
    declare clause context = .ok v := by
  cases limit with
  | zero => cases h
  | succ limit =>
    simp only [evaluate, Reduction.located, Reduction.step] at h
    cases hdeclare : declare clause context with
    | error cause => simp [hdeclare, Outcome.ofExcept, Outcome.fail, Outcome.inside] at h
    | ok w =>
      simp only [hdeclare, Outcome.ofExcept, Outcome.inside, Outcome.value.injEq] at h
      rw [h.1]

theorem install_closure (closure : Closure Expr) (hname : closure.name = some name)
    (h : install (.closure closure) context = .ok next) :
    next = context.insert name (.closure closure) := by
  simp only [install, hname, Except.ok.injEq] at h
  exact h.symm

/-- A clause is bound to its name, and to no other. -/
theorem install_declared {clause : Clause Expr} (hname : clause.name = some name)
    (hv : declare clause context = .ok v) (hi : install v context = .ok next) :
    next = context.insert name v := by
  rcases declare_cases hname hv with ⟨closure, -, hclosure, rfl⟩ | ⟨-, rfl⟩
  · exact install_closure (closure.withClause clause) hclosure hi
  · exact install_closure _ rfl hi

/-- The first clause of a function is bound with the context without its name. -/
theorem execute_first_clause {clause : Clause Expr} (hname : clause.name = some name)
    (hnew : ∀ closure, context.get? name = some (.closure closure) → closure.name ≠ some name)
    (h : execute limit (.function clause) context streams = .value (v, next) after) :
    next.get? name = some (.closure ⟨some name, [clause], context.erase name⟩) := by
  obtain ⟨hvalue, hinstall⟩ := execute_eq_value h
  have hdeclare := evaluate_function hvalue
  rw [install_declared hname hdeclare hinstall, Context.get?_insert, if_pos rfl]
  rcases declare_cases hname hdeclare with ⟨closure, hget, hclosure, -⟩ | ⟨-, rfl⟩
  · exact absurd hclosure (hnew closure hget)
  · rfl

/-- A further clause is bound with the others before it. -/
theorem execute_next_clause {clause : Clause Expr} {closure : Closure Expr}
    (hname : clause.name = some name) (hget : context.get? name = some (.closure closure))
    (hclosure : closure.name = some name)
    (h : execute limit (.function clause) context streams = .value (v, next) after) :
    next.get? name = some (.closure (closure.withClause clause)) := by
  obtain ⟨hvalue, hinstall⟩ := execute_eq_value h
  have hdeclare := evaluate_function hvalue
  rw [install_declared hname hdeclare hinstall, Context.get?_insert, if_pos rfl]
  rcases declare_cases hname hdeclare with ⟨other, hother, -, rfl⟩ | ⟨hnew, -⟩
  · rw [hget] at hother
    cases hother
    rfl
  · exact absurd hclosure (hnew closure hget)

/-- A statement whose value does not bind the name leaves it as it is. -/
theorem execute_get? {statement : Expr} (hbinds : ¬v.Binds name)
    (h : execute limit statement context streams = .value (v, next) after) :
    next.get? name = context.get? name := by
  obtain ⟨-, hinstall⟩ := execute_eq_value h
  rw [install_eq_map] at hinstall
  cases hdeclarations : v.declarations with
  | error cause => simp [hdeclarations, Except.map] at hinstall
  | ok bound =>
    rw [hdeclarations] at hinstall
    cases hinstall
    have hnone : bound.get? name = none := by
      cases hbound : bound.get? name with
      | none => rfl
      | some w => exact absurd ⟨bound, hdeclarations, by rw [Context.contains, hbound]; rfl⟩ hbinds
    rw [Context.get?_mergeFavouring, hnone, Option.none_or]

end Step

namespace Runs

variable {name : String} {context final : Bindings} {streams last : Streams}
  {steps : List (Expr × Expr)}

theorem get? (h : Runs context streams steps final last)
    (hsteps : ∀ step ∈ steps, ¬step.2.Binds name) : final.get? name = context.get? name := by
  induction h with
  | nil => rfl
  | cons h _ ih =>
    obtain ⟨hfirst, hrest⟩ := List.forall_mem_cons.1 hsteps
    rw [ih hrest, execute_get? hfirst h]

/-- A function has the clauses that are declared for it, after those it had. -/
theorem get?_closure {closure : Closure Expr} (h : Runs context streams steps final last)
    (hget : context.get? name = some (.closure closure)) (hname : closure.name = some name)
    (hsteps : ∀ step ∈ steps, (clauseOf? name step.1).isSome ∨ ¬step.2.Binds name) :
    final.get? name = some (.closure { closure with
      clauses := closure.clauses ++ steps.filterMap fun step => clauseOf? name step.1 }) := by
  induction h generalizing closure with
  | nil => simpa using hget
  | @cons _ _ _ _ _ _ statement v _ steps h _ ih =>
    obtain ⟨hfirst, hrest⟩ := List.forall_mem_cons.1 hsteps
    cases hclause : clauseOf? name statement with
    | some clause =>
      obtain ⟨rfl, hclauseName⟩ := clauseOf?_eq_some hclause
      rw [ih (execute_next_clause hclauseName hget hname h) hname hrest]
      simp [Closure.withClause, hclause]
    | none =>
      have hbinds : ¬v.Binds name := by simpa [hclause] using hfirst
      rw [ih ((execute_get? hbinds h).trans hget) hname hrest]
      simp [hclause]

end Runs

/-- A clause without doubles in its patterns can be declared everywhere. -/
theorem execute_clause {clause : Clause Expr} {name : String} (hname : clause.name = some name)
    (hfloat : Expr.floatAmong? clause.patterns = none) (context : Bindings) (streams : Streams) :
    ∃ v next, execute 1 (.function clause) context streams = .value (v, next) streams := by
  have hdeclare : ∃ closure : Closure Expr, closure.name = some name ∧
      declare clause context = .ok (.closure closure) := by
    by_cases hbound : ∃ closure, context.get? name = some (.closure closure) ∧
        closure.name = some name
    · obtain ⟨closure, hget, hclosure⟩ := hbound
      exact ⟨closure.withClause clause, hclosure, declare_of_bound hname hfloat hget hclosure⟩
    · exact ⟨_, rfl, declare_of_new hname hfloat fun closure hget hclosure =>
        hbound ⟨closure, hget, hclosure⟩⟩
  obtain ⟨closure, hclosure, hdeclare⟩ := hdeclare
  refine ⟨.closure closure, context.insert name (.closure closure), ?_⟩
  simp only [execute, evaluate, Reduction.located, Reduction.step, hdeclare, Outcome.ofExcept,
    Outcome.inside, Outcome.andThen, install, hclosure, Except.map]

/-- A function whose clauses are declared among other statements is bound to those clauses, in
their order and with the context before the first of them; and a call of it has the value of the
body of the clause that the arguments choose, and fails if they choose none or if the body
fails. -/
theorem call_of_declared_clauses {name : String} {context first final : Bindings}
    {streams middle last : Streams} {before later : List (Expr × Expr)} {clause : Clause Expr}
    {v : Expr}
    (hnew : ∀ closure, context.get? name = some (.closure closure) → closure.name ≠ some name)
    (hbefore : Runs context streams before first middle)
    (hnone : ∀ step ∈ before, ¬step.2.Binds name) (hname : clause.name = some name)
    (hrun : Runs first middle ((.function clause, v) :: later) final last)
    (hlater : ∀ step ∈ later, (clauseOf? name step.1).isSome ∨ ¬step.2.Binds name) :
    let closure : Closure Expr :=
      ⟨some name, clause :: later.filterMap fun step => clauseOf? name step.1, first.erase name⟩
    final.get? name = some (.closure closure) ∧
    (∀ other streams, other.name = some name → Expr.floatAmong? other.patterns = none →
      ∃ v next, execute 1 (.function other) final streams = .value (v, next) streams) ∧
    ∀ args values start after, (∃ taken ∈ closure.clauses, taken.arity = args.length) →
      EvaluatesAll final args start values after →
      (∀ f ended, Chooses name closure values closure.clauses after (.failure f ended) →
        Evaluates (.call name args) final start (.failure (f.inside (.call name args)) ended)) ∧
      ∀ chosen inner entered,
        Chooses name closure values closure.clauses after (.value (chosen, inner) entered) →
        (∀ result ended, result.isDeferred = false →
          Evaluates chosen.body inner entered (.value result ended) →
          Evaluates (.call name args) final start (.value result ended)) ∧
        ∀ f ended, Evaluates chosen.body inner entered (.failure f ended) →
          ∃ g : Failure, g.StandsFor f ∧ Evaluates (.call name args) final start
            (.failure (g.inside (.call name args)) ended) := by
  intro closure
  have hget : final.get? name = some (.closure closure) := by
    cases hrun with
    | cons h hrest =>
      have hfirst := execute_first_clause hname (fun c hc => hnew c (hbefore.get? hnone ▸ hc)) h
      exact hrest.get?_closure hfirst rfl hlater
  refine ⟨hget, fun other streams hother hfloat => execute_clause hother hfloat final streams, ?_⟩
  intro args values start after hcount hargs
  have haccepts : closure.accepts args.length = true := by
    simpa [Closure.accepts] using hcount
  refine ⟨fun f ended h => call_of_chooses_failure rfl hget haccepts hargs h, ?_⟩
  intro chosen inner entered h
  constructor
  · intro result ended hresult hbody
    exact call_of_body_value rfl hget haccepts hargs h hbody hresult
  · intro f ended hbody
    exact call_of_body_failure rfl hget haccepts hargs h hbody

def onlyGreater : Bindings :=
  .ofList [(">", .builtIn (.operator .greater))]

def zeroClause : Clause Expr :=
  ⟨some "f", [.int 0], .bool true, .bool true⟩

def aboveOneClause : Clause Expr :=
  ⟨some "f", [.name "n"], .call ">" [.name "n", .int 1], .name "n"⟩

def otherClause : Clause Expr :=
  ⟨some "f", [.wildcard], .bool true, .call "f" [.int 0]⟩

def declaredWith (clauses : List (Clause Expr)) : Closure Expr :=
  ⟨some "f", clauses, onlyGreater.erase "f"⟩

def laterClauses : List (Expr × Expr) :=
  [(.assign (.name "n") (.int 7), .assign (.name "n") (.int 7)),
    (.function aboveOneClause, .closure (declaredWith [zeroClause, aboveOneClause])),
    (.function otherClause, .closure (declaredWith [zeroClause, aboveOneClause, otherClause]))]

/-- The call `f(1)` passes over the first clause, which does not match, and over the second one,
whose guard is false; the third one calls the first. -/
theorem call_of_declared_clauses_laterClauses :
    ∃ final, Runs onlyGreater (.ofText "")
        ((.function zeroClause, .closure (declaredWith [zeroClause])) :: laterClauses) final
        (.ofText "") ∧
      (∀ step ∈ laterClauses, (clauseOf? "f" step.1).isSome ∨ ¬step.2.Binds "f") ∧
      final.get? "f" =
        some (.closure (declaredWith [zeroClause, aboveOneClause, otherClause])) ∧
      Evaluates (.call "f" [.int 1]) final (.ofText "") (.value (.bool true) (.ofText "")) := by
  let one := onlyGreater.insert "f" (.closure (declaredWith [zeroClause]))
  let two := (Context.empty.insert "n" (.int 7)).mergeFavouring one
  let three := two.insert "f" (.closure (declaredWith [zeroClause, aboveOneClause]))
  let final := three.insert "f"
    (.closure (declaredWith [zeroClause, aboveOneClause, otherClause]))
  have hone : execute 1 (.function zeroClause) onlyGreater (.ofText "") =
      .value (.closure (declaredWith [zeroClause]), one) (.ofText "") := rfl
  have htwo : execute 2 (.assign (.name "n") (.int 7)) one (.ofText "") =
      .value (.assign (.name "n") (.int 7), two) (.ofText "") := rfl
  have hthree : execute 1 (.function aboveOneClause) two (.ofText "") =
      .value (.closure (declaredWith [zeroClause, aboveOneClause]), three) (.ofText "") := rfl
  have hfinal : execute 1 (.function otherClause) three (.ofText "") =
      .value (.closure (declaredWith [zeroClause, aboveOneClause, otherClause]), final)
        (.ofText "") := rfl
  have hrun : Runs onlyGreater (.ofText "")
      ((.function zeroClause, .closure (declaredWith [zeroClause])) :: laterClauses) final
      (.ofText "") :=
    .cons hone (.cons htwo (.cons hthree (.cons hfinal (.nil _ _))))
  have hlater : ∀ step ∈ laterClauses, (clauseOf? "f" step.1).isSome ∨ ¬step.2.Binds "f" := by
    have hassign : ¬(Expr.assign (.name "n") (.int 7)).Binds "f" := by
      rintro ⟨_, ⟨⟩, hbound⟩
      exact absurd hbound (by decide)
    rw [laterClauses, List.forall_mem_cons, List.forall_mem_cons, List.forall_mem_singleton]
    exact ⟨Or.inr hassign, Or.inl rfl, Or.inl rfl⟩
  obtain ⟨hget, -, hcall⟩ := call_of_declared_clauses
    (fun _ h => by cases h) (.nil onlyGreater (.ofText "")) nofun rfl hrun hlater
  refine ⟨final, hrun, hlater, hget, ?_⟩
  have harg : EvaluatesAll final [.int 1] (.ofText "") [.int 1] (.ofText "") :=
    .cons ⟨nofun, 1, rfl⟩ (.nil _)
  have hchooses : Chooses "f" (declaredWith [zeroClause, aboveOneClause, otherClause]) [.int 1]
      [zeroClause, aboveOneClause, otherClause] (.ofText "") (.value (otherClause, _)
        (.ofText "")) :=
    .mismatch rfl (.guardFalse rfl ⟨nofun, 3, rfl⟩ (.guardTrue rfl ⟨nofun, 1, rfl⟩))
  have hcount : ∃ clause ∈ [zeroClause, aboveOneClause, otherClause],
      clause.patterns.length = [Expr.int 1].length :=
    ⟨zeroClause, List.mem_cons_self, rfl⟩
  obtain ⟨-, hchosen⟩ := hcall [.int 1] [.int 1] _ _ hcount harg
  obtain ⟨hvalue, -⟩ := hchosen _ _ _ hchooses
  exact hvalue _ _ rfl ⟨nofun, 5, rfl⟩

end Song
