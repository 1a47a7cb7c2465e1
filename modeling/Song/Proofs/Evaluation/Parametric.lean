import Song.Proofs.Evaluation.Approximation
import Song.Proofs.Evaluation.Invariant

/-!
# Evaluation depends on the evaluation inside it only through its outcomes

The rules of evaluation take the evaluation of parts as an argument. If on source
expressions that argument approximates a family of evaluations, then each rule
applied to it approximates the family of the rule applied to each of them. What a
tail position does is left open: there any observation will do.
-/
namespace Song

open Filter

namespace Reduction

/-- The reduction is observed to stand for the family on source expressions. -/
def Observed (source value : Expr → Prop) (T : Outcome Expr → (Nat → Outcome Expr) → Prop)
    (eval : Reduction) (family : Nat → Reduction) : Prop :=
  ∀ e context streams, source e → context.All value →
    T (eval e context streams) fun n => family n e context streams

/-- The reduction approximates the family on source expressions and gives values. -/
abbrev Approximates (source value : Expr → Prop) (R : Failure → Failure → Prop) :=
  Observed source value (Outcome.Approximates value R)

end Reduction

theorem Outcome.Approximates.located {P : Expr → Prop} {R : Failure → Failure → Prop}
    (hR : ∀ e f g, R f g → R (f.inside e) (g.inside e)) {e : Expr} {outcome : Outcome Expr}
    {family : Nat → Outcome Expr} (h : Outcome.Approximates P R outcome family) :
    Outcome.Approximates P R (Reduction.located e outcome)
      fun n => Reduction.located e (family n) := by
  cases e
  case name => exact h
  all_goals exact h.inside _ (hR _)

namespace Invariant

open Reduction (Observed)

variable {source value : Expr → Prop} {R : Failure → Failure → Prop}
  {T : Outcome Expr → (Nat → Outcome Expr) → Prop}
  {eval body : Reduction} {evals bodies : Nat → Reduction}

section Built

variable (I : Invariant source value) (hR : ∀ f, R f f)

include I hR

theorem takeLine_observed (hT : Outcome.Observation value R T) (streams : Streams) :
    T (BuiltIn.takeLine streams) fun _ => BuiltIn.takeLine streams := by
  rw [BuiltIn.takeLine]
  split
  · exact hT.value _ (I.text [])
  · exact hT.value _ (I.text _)
  · exact hT.fail hR _ _

theorem meaning_observed (hT : Outcome.Observation value R T) {b : BuiltIn} {args : List Expr}
    (hargs : ∀ a ∈ args, value a) (streams : Streams) :
    T (b.meaning args streams) fun _ => b.meaning args streams := by
  rw [BuiltIn.meaning.eq_def]
  split
  · exact I.takeLine_observed hR hT _
  · exact I.takeLine_observed hR hT _
  · exact hT.value _ (hargs _ List.mem_cons_self)
  · exact hT.value _ (hargs _ List.mem_cons_self)
  · exact hT.ofExcept hR (fun v hv => I.result_value hargs hv) _

end Built

variable (I : Invariant source value) (hR : ∀ f, R f f)
  (he : Reduction.Approximates source value R eval evals)

section Parts

include he

theorem all_approximates {es : List Expr} {context : Bindings} (hes : ∀ e ∈ es, source e)
    (hc : context.All value) (streams : Streams) :
    Outcome.Approximates (fun vs => ∀ v ∈ vs, value v) R (Reduction.all eval es context streams)
      fun n => Reduction.all (evals n) es context streams := by
  induction es generalizing streams with
  | nil =>
    refine .value ?_ (Eventually.of_forall fun _ => rfl)
    intro v hv
    cases hv
  | cons e rest ih =>
    have hrest : ∀ e ∈ rest, source e := fun e hmem => hes e (List.mem_cons_of_mem _ hmem)
    apply (he e context streams (hes e List.mem_cons_self) hc).andThen
      Outcome.Approximates.observation
    intro v streams hv
    apply (ih hrest streams).andThen Outcome.Approximates.observation
    intro vs streams hvs
    exact .value (by simpa using ⟨hv, hvs⟩) (Eventually.of_forall fun _ => rfl)

include hR

theorem truth_approximates {e : Expr} {context : Bindings} (hs : source e)
    (hc : context.All value) (streams : Streams) :
    Outcome.Approximates (fun _ => True) R (Reduction.truth eval e context streams)
      fun n => Reduction.truth (evals n) e context streams :=
  (he e context streams hs hc).andThen Outcome.Approximates.observation fun _ streams _ =>
    Outcome.Approximates.observation.ofExcept hR (fun _ _ => True.intro) streams

include I

theorem callBuiltIn_approximates {b : BuiltIn} {args : List Expr} {context : Bindings}
    (hargs : ∀ e ∈ args, source e) (hc : context.All value) (streams : Streams) :
    Outcome.Approximates value R (Reduction.callBuiltIn eval b args context streams)
      fun n => Reduction.callBuiltIn (evals n) b args context streams := by
  have hobs : Outcome.Observation value R (Outcome.Approximates value R) :=
    Outcome.Approximates.observation
  have hbool (b : Bool) (streams : Streams) : Outcome.Approximates value R
      (.value (.bool b) streams) fun _ => .value (.bool b) streams :=
    hobs.value streams (I.bool b)
  simp only [Reduction.callBuiltIn]
  split
  · exact hobs.fail hR _ _
  · split
    case h_1 left right _ =>
      apply (truth_approximates hR he (hargs left (by simp)) hc streams).andThen hobs
      intro holds streams _
      split
      · apply (truth_approximates hR he (hargs right (by simp)) hc streams).andThen hobs
        intro holds streams _
        exact hbool holds streams
      · exact hbool false streams
    case h_2 left right _ =>
      apply (truth_approximates hR he (hargs left (by simp)) hc streams).andThen hobs
      intro holds streams _
      split
      · exact hbool true streams
      · apply (truth_approximates hR he (hargs right (by simp)) hc streams).andThen hobs
        intro holds streams _
        exact hbool holds streams
    case h_3 =>
      apply (all_approximates he hargs hc streams).andThen hobs
      intro values streams hvalues
      exact I.meaning_observed hR hobs hvalues streams

omit I

theorem arguments_approximates {closure : Closure Expr} {args : List Expr} {context : Bindings}
    (hargs : ∀ e ∈ args, source e) (hc : context.All value) (streams : Streams) :
    Outcome.Approximates (fun vs => ∀ v ∈ vs, value v) R
      (Reduction.arguments eval closure args context streams)
      fun n => Reduction.arguments (evals n) closure args context streams := by
  simp only [Reduction.arguments]
  split
  · exact all_approximates he hargs hc streams
  · exact Outcome.Approximates.observation.fail hR _ _

end Parts

section Tails

variable (hT : Outcome.Observation value R T) (hb : Observed source value T body bodies)

include I hR he hT hb

theorem firstMatch_observed {closure : Closure Expr} {args : List Expr}
    {clauses : List (Clause Expr)} (hclosure : value (.closure closure))
    (hargs : ∀ v ∈ args, value v) (hclauses : ∀ clause ∈ clauses, clause ∈ closure.clauses)
    (streams : Streams) :
    T (Reduction.firstMatch eval body closure args clauses streams)
      fun n => Reduction.firstMatch (evals n) (bodies n) closure args clauses streams := by
  induction clauses generalizing streams with
  | nil => exact hT.fail hR _ _
  | cons clause rest ih =>
    have hrest (streams : Streams) := ih (fun c hmem => hclauses c (List.mem_cons_of_mem _ hmem))
      streams
    have hmem : clause ∈ closure.clauses := hclauses clause List.mem_cons_self
    simp only [Reduction.firstMatch]
    split
    case h_1 => exact hT.fail hR _ _
    case h_2 => exact hrest streams
    case h_3 parameters hparameters =>
      have hcontext := I.bodyContext_all hclosure (I.matchParameters_all hargs hparameters)
      have hbody (streams : Streams) := hb clause.body _ streams (I.body hclosure hmem) hcontext
      split
      · apply (he clause.guard _ streams (I.guard hclosure hmem) hcontext).andThen hT
        intro verdict streams _
        split
        · exact hbody streams
        · exact hrest streams
        · exact hT.fail hR _ _
      · exact hbody streams

theorem dispatch_observed {closure : Closure Expr} {args : List Expr}
    (hclosure : value (.closure closure)) (hargs : ∀ v ∈ args, value v) (streams : Streams) :
    T (Reduction.dispatch eval body closure args streams)
      fun n => Reduction.dispatch (evals n) (bodies n) closure args streams :=
  I.firstMatch_observed hR he hT hb hclosure hargs (fun _ h => h) streams

theorem callTarget_observed {target : Expr} {args : List Expr} {context : Bindings}
    (htarget : value target) (hargs : ∀ e ∈ args, source e) (hc : context.All value)
    (streams : Streams) :
    T (Reduction.callTarget eval body target args context streams)
      fun n => Reduction.callTarget (evals n) (bodies n) target args context streams := by
  cases target
  case builtIn b => exact (I.callBuiltIn_approximates hR he hargs hc streams).observed hT
  case closure closure =>
    apply (arguments_approximates hR he hargs hc streams).andThen hT
    intro values streams hvalues
    exact I.dispatch_observed hR he hT hb htarget hvalues streams
  all_goals exact hT.fail hR _ _

theorem block_observed {statements : List Expr} {context : Bindings}
    (hs : ∀ e ∈ statements, source e) (hc : context.All value) (declared : List String)
    (streams : Streams) :
    T (Reduction.block eval body declared statements context streams)
      fun n => Reduction.block (evals n) (bodies n) declared statements context streams := by
  induction statements generalizing declared context streams with
  | nil => exact hT.fail hR _ _
  | cons statement rest ih =>
    have hentered := shadow_all hc declared statement
    have hfirst := hs statement List.mem_cons_self
    cases rest with
    | nil => exact hb statement _ streams hfirst hentered
    | cons second rest =>
      simp only [Reduction.block]
      apply (he statement _ streams hfirst hentered).andThen hT
      intro v streams hv
      split
      case h_1 installed hinstalled =>
        exact ih (fun e hmem => hs e (List.mem_cons_of_mem _ hmem))
          (I.install_all hv hentered hinstalled) _ streams
      case h_2 => exact hT.fail hR _ _

end Tails

/-- One step approximates the family of steps, if the calls in it do. -/
theorem step_approximates {resume : Expr → Streams → Outcome Expr}
    {resumes : Nat → Expr → Streams → Outcome Expr}
    (I : Invariant source value) (hR : ∀ f, R f f)
    (he : Reduction.Approximates source value R eval evals)
    (hcall : ∀ target args context streams, value target → (∀ e ∈ args, source e) →
      context.All value → Outcome.Approximates value R
        ((Reduction.callTarget eval body target args context streams).andThen resume)
        fun n => (Reduction.callTarget (evals n) (bodies n) target args context streams).andThen
          (resumes n))
    (hdeferred : ∀ target args streams, source (.deferred target args) →
      Outcome.Approximates value R (resume (.deferred target args) streams)
        fun n => resumes n (.deferred target args) streams) :
    Reduction.Approximates source value R (Reduction.step eval body resume)
      fun n => Reduction.step (evals n) (bodies n) (resumes n) := by
  intro e context streams hs hc
  have hobs : Outcome.Observation value R (Outcome.Approximates value R) :=
    Outcome.Approximates.observation
  cases e with
  | bool b => exact hobs.value streams (I.bool b)
  | number n => exact hobs.value streams (I.number n)
  | char c => exact hobs.value streams (I.char c)
  | wildcard => exact hobs.value streams (I.wildcard hs)
  | closure c => exact hobs.value streams (I.closure hs)
  | builtIn b => exact hobs.value streams (I.builtIn hs)
  | list items =>
    simp only [Reduction.step]
    split
    case isTrue hatoms =>
      apply hobs.value streams
      apply I.list
      intro v hv
      have hatom := List.all_eq_true.1 hatoms v hv
      cases v <;> simp only [Expr.isAtom, Bool.false_eq_true] at hatom
      · exact I.bool _
      · exact I.number _
      · exact I.char _
    case isFalse =>
      apply (all_approximates he (I.listItems hs) hc streams).andThen hobs
      intro values streams hvalues
      exact hobs.value streams (I.list hvalues)
  | cons heads tail =>
    apply (all_approximates he (I.heads hs) hc streams).andThen hobs
    intro values streams hvalues
    apply (he tail context streams (I.tail hs) hc).andThen hobs
    intro last streams hlast
    cases last
    case list items =>
      apply hobs.value streams
      apply I.list
      intro v hv
      rcases List.mem_append.1 hv with hv | hv
      · exact hvalues v hv
      · exact I.items hlast v hv
    all_goals exact hobs.fail hR _ _
  | name n =>
    simp only [Reduction.step]
    split
    case h_1 v hv => exact hobs.value streams (hc.get? hv)
    case h_2 => exact hobs.fail hR _ _
  | function clause => exact hobs.ofExcept hR (fun v hv => I.declared hs hc hv) streams
  | assign target e =>
    apply (he e context streams (I.assignment hs) hc).andThen hobs
    intro v streams hv
    exact hobs.value streams (I.assign hs hv)
  | block statements =>
    exact I.block_observed hR he hobs he (I.statements hs) hc [] streams
  | call callee args =>
    simp only [Reduction.step]
    split
    case h_1 target htarget =>
      exact hcall target args context streams (hc.get? htarget) (I.callArgs hs) hc
    case h_2 => exact hobs.fail hR _ _
  | apply target args =>
    apply (he target context streams (I.target hs) hc).andThen hobs
    intro v streams hv
    split
    · exact hcall v args context streams hv (I.applyArgs hs) hc
    · exact hobs.fail hR _ _
  | deferred target args => exact hdeferred target args streams hs

end Invariant
end Song
