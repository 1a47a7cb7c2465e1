import Song.Proofs.Evaluation.TailPosition

/-!
# Lambdas that are applied where they stand

The body of such a lambda sees its parameters and the context around it, and it
stands in tail position. Binding the names of a pattern in a block comes to the same
as binding them as the parameter of a lambda. A lambda without parameters comes to
what its body comes to, up to the cause that is given for the application of a value
that cannot be called.
-/
namespace Song

open Outcome (IsStable EndsAs)

def Expr.lambda (patterns : List Expr) (body : Expr) : Expr :=
  .function ⟨none, patterns, .bool true, body⟩

section Rules

variable {p e b : Expr} {context : Bindings} {streams : Streams} {outcome : Outcome Expr}

private theorem evaluate_lambda {patterns : List Expr} (h : Expr.floatAmong? patterns = none)
    (n : Nat) :
    evaluate (n + 1) (.lambda patterns b) context streams =
      .value (.closure (.ofClause none ⟨none, patterns, .bool true, b⟩ context)) streams := by
  simp [Expr.lambda, evaluate, Reduction.step, Reduction.located, declare, h, Outcome.ofExcept,
    Outcome.inside]

/-- Applying a lambda is calling the closure that it evaluates to. -/
theorem apply_lambda_ends_iff {patterns : List Expr} (h : Expr.floatAmong? patterns = none)
    (args : List Expr) :
    Ends (.apply (.lambda patterns b) args) context streams outcome ↔
      EndsAs (fun n => (Reduction.callTarget (evaluate n) (evaluateTail n)
        (.closure (.ofClause none ⟨none, patterns, .bool true, b⟩ context)) args context
          streams).andThen (resume n)) outcome := by
  -- One step is for the application and one for the lambda.
  have happly := evaluate_stable (.apply (.lambda patterns b) args) context streams
  apply happly.endsAs_succ_iff.symm.trans
  apply happly.succ.endsAs_succ_iff.symm.trans
  refine Iff.trans ?_ (Reduction.callTarget_stable _ args context streams).endsAs_succ_iff
  apply EndsAs.congr
  intro n
  rw [evaluate, Outcome.untraced_located]
  simp only [Reduction.step, evaluate_lambda h]
  rfl

/-- A lambda without parameters is its body in tail position. -/
theorem apply_lambda_nil_ends_iff :
    Ends (.apply (.lambda [] b) []) context streams outcome ↔
      EndsInTail b context streams outcome :=
  apply_lambda_ends_iff rfl []

/-- The parameter of a lambda is bound as an assignment binds it. -/
private theorem dispatch_lambda_one (eval body : Reduction) (v : Expr) :
    Reduction.dispatch eval body (.ofClause none ⟨none, [p], .bool true, b⟩ context) [v] streams =
      (Outcome.ofExcept (install (.assign p v) context) streams).andThen (body b) := by
  have hmatch : Expr.matchParameters [p] [v] = Expr.matchPattern p v .empty := by
    simp only [Expr.matchParameters, sameLength, if_true, Expr.matchItems]
    split <;> simp_all
  simp only [Reduction.dispatch, Closure.ofClause, Reduction.firstMatch, hmatch, install]
  cases Expr.matchPattern p v .empty with
  | error cause => rfl
  | ok bound => cases bound <;> rfl

private theorem callTarget_lambda_one (eval body : Reduction) :
    Reduction.callTarget eval body
        (.closure (.ofClause none ⟨none, [p], .bool true, b⟩ context)) [e] context streams =
      (eval e context streams).andThen fun v streams =>
        (Outcome.ofExcept (install (.assign p v) context) streams).andThen (body b) := by
  simp only [← dispatch_lambda_one eval]
  cases h : eval e context streams <;>
    simp [Reduction.callTarget, Reduction.arguments, Closure.accepts, Closure.ofClause,
      Clause.arity, Reduction.all, h, Outcome.andThen]

theorem apply_lambda_one_ends_iff (hp : p.Everywhere fun part => part.isFloat = false) :
    Ends (.apply (.lambda [p] b) [e]) context streams outcome ↔
      EndsAs (fun n => (evaluate n e context streams).andThen fun v streams =>
        (Outcome.ofExcept (install (.assign p v) context) streams).andThen
          (evaluateResumed n b)) outcome := by
  rw [apply_lambda_ends_iff (Expr.floatAmong?_eq_none [p] (List.forall_mem_singleton.2 hp))]
  simp only [callTarget_lambda_one, Outcome.andThen_assoc]
  rfl

private theorem block_pair (eval final : Reduction) {first : Expr}
    (hfirst : declaredName? first = none) (hb : declaredName? b = none) :
    Reduction.block eval final [] [first, b] context streams =
      (eval first context streams).andThen fun v streams =>
        (Outcome.ofExcept (install v context) streams).andThen (final b) := by
  simp only [Reduction.block, shadow, hfirst, hb]
  congr 1
  funext v streams
  cases install v context <;> rfl

private theorem evaluate_block_assign (hb : declaredName? b = none) (n : Nat) :
    (evaluate (n + 2) (.block [.assign p e, b]) context streams).untraced =
      ((evaluate n e context streams).andThen fun v streams =>
        (Outcome.ofExcept (install (.assign p v) context) streams).andThen
          (evaluate (n + 1) b)).untraced := by
  rw [evaluate, Outcome.untraced_located, Reduction.step, block_pair _ _ rfl hb,
    Outcome.untraced_andThen, evaluate, Outcome.untraced_located, Reduction.step,
    Outcome.untraced_andThen, Outcome.andThen_assoc, Outcome.untraced_andThen]
  rfl

theorem block_assign_ends_iff (hb : declaredName? b = none) :
    Ends (.block [.assign p e, b]) context streams outcome ↔
      EndsAs (fun n => (evaluate n e context streams).andThen fun v streams =>
        (Outcome.ofExcept (install (.assign p v) context) streams).andThen (evaluate n b))
        outcome := by
  have hblock := evaluate_stable (.block [.assign p e, b]) context streams
  apply hblock.endsAs_succ_iff.symm.trans
  apply hblock.succ.endsAs_succ_iff.symm.trans
  rw [EndsAs.congr (evaluate_block_assign hb)]
  have hbody (inner : Bindings) (streams : Streams) := evaluate_stable b inner streams
  apply EndsAs.andThen_congr (evaluate_stable e context streams)
    (fun v streams => (IsStable.const _).andThen fun inner streams => (hbody inner streams).succ)
    (fun v streams => (IsStable.const _).andThen hbody)
  intro v streams _
  apply EndsAs.andThen_congr (.const _) (fun inner streams => (hbody inner streams).succ) hbody
  intro inner streams _
  exact (hbody inner streams).endsAs_succ_iff

end Rules

section Parameter

variable {p e b : Expr} {context : Bindings} {streams : Streams}

private theorem block_assign_value_iff (hp : p.Everywhere fun part => part.isFloat = false)
    (he : Grammatical .statement e) (hb : Grammatical .statement b)
    (hname : declaredName? b = none) (hc : context.All (Expr.IsValue Clause.IsGrammatical))
    (v : Expr) (after : Streams) :
    Ends (.block [.assign p e, b]) context streams (.value v after) ↔
      Ends (.apply (.lambda [p] b) [e]) context streams (.value v after) := by
  rw [block_assign_ends_iff hname, apply_lambda_one_ends_iff hp]
  apply EndsAs.andThen_congr (evaluate_stable e context streams)
    (fun w streams => (IsStable.const _).andThen (evaluate_stable b))
    (fun w streams => (IsStable.const _).andThen (evaluateResumed_stable b))
  intro w streams hw
  obtain ⟨n, hn⟩ := hw
  apply EndsAs.andThen_congr (.const _) (evaluate_stable b) (evaluateResumed_stable b)
  intro inner streams hinner
  apply hb.ends_value_iff_endsInTail
  obtain ⟨-, hinner⟩ := hinner
  cases hi : install (.assign p w) context with
  | error cause => simp [hi, Outcome.ofExcept, Outcome.fail] at hinner
  | ok installed =>
    rw [hi] at hinner
    cases hinner
    exact Expr.IsValue.invariant.install_all (.assign (evaluate_isValue he hc hn)) hc hi

private theorem ends_of_mismatch {v : Expr} {middle : Streams}
    (he : Evaluates e context streams (.value v middle))
    (hmatch : p.matchPattern v .empty = .ok none) {final : Nat → Reduction}
    (hfinal : ∀ inner streams, IsStable fun n => final n b inner streams) :
    EndsAs (fun n => (evaluate n e context streams).andThen fun v streams =>
      (Outcome.ofExcept (install (.assign p v) context) streams).andThen (final n b))
      (.fail (.signatureMismatch [v]) middle) := by
  obtain ⟨-, n, hn⟩ := he
  apply EndsAs.andThen (evaluate_stable e context streams) ((IsStable.const _).andThen hfinal) hn
  refine ⟨nofun, n, ?_⟩
  simp only [install, hmatch]
  rfl

/-- Binding the names of a pattern in a block before an expression gives what applying the lambda
of that pattern and that body gives. A value that the pattern does not match is no argument of
either. -/
theorem block_assign_evaluates_iff_apply_lambda
    (hp : p.Everywhere fun part => part.isFloat = false) (he : Grammatical .statement e)
    (hb : Grammatical .statement b) (hname : declaredName? b = none)
    (hc : context.All (Expr.IsValue Clause.IsGrammatical)) (streams : Streams) :
    (∀ v after,
      Evaluates (.block [.assign p e, b]) context streams (.value v after) ↔
        Evaluates (.apply (.lambda [p] b) [e]) context streams (.value v after)) ∧
    ∀ v middle, Evaluates e context streams (.value v middle) →
      p.matchPattern v .empty = .ok none →
      Ends (.block [.assign p e, b]) context streams (.fail (.signatureMismatch [v]) middle) ∧
        Ends (.apply (.lambda [p] b) [e]) context streams
          (.fail (.signatureMismatch [v]) middle) := by
  refine ⟨fun v after => ?_, fun v middle hv hmatch => ⟨?_, ?_⟩⟩
  · rw [← ends_value_iff, ← ends_value_iff]
    exact block_assign_value_iff hp he hb hname hc v after
  · rw [block_assign_ends_iff hname]
    exact ends_of_mismatch hv hmatch (evaluate_stable b)
  · rw [apply_lambda_one_ends_iff hp]
    exact ends_of_mismatch hv hmatch (evaluateResumed_stable b)

end Parameter

def firstAndRest : Expr :=
  .cons [.name "x"] (.name "t")

/-- The lambda `Fn(z) = [x, k]`, which captures the context. -/
def keepsFirst : Expr :=
  .lambda [.name "z"] (.list [.name "x", .name "k"])

def withFive : Bindings :=
  Context.empty.insert "k" (.int 5)

/-- What `keepsFirst` evaluates to after the pattern is bound to `[1, 2]`. -/
def firstKept : Expr :=
  .closure (.ofClause none ⟨none, [.name "z"], .bool true, .list [.name "x", .name "k"]⟩
    (((Context.empty.insert "k" (.int 5)).insert "t" (.list [.int 2])).insert "x" (.int 1)))

theorem block_assign_evaluates_iff_apply_lambda_firstAndRest :
    firstAndRest.Everywhere (fun part => part.isFloat = false) ∧ keepsFirst.IsParsed ∧
    withFive.All (Expr.IsValue Clause.IsGrammatical) ∧
    Evaluates (.block [.assign firstAndRest (.list [.int 1, .int 2]), keepsFirst]) withFive
      (.ofText "") (.value firstKept (.ofText "")) ∧
    Evaluates (.apply (.lambda [firstAndRest] keepsFirst) [.list [.int 1, .int 2]]) withFive
      (.ofText "") (.value firstKept (.ofText "")) ∧
    Ends (.apply (.lambda [firstAndRest] keepsFirst) [.list []]) withFive (.ofText "")
      (.fail (.signatureMismatch [.list []]) (.ofText "")) := by
  have hp : firstAndRest.Everywhere fun part => part.isFloat = false := by
    simp [firstAndRest, Expr.everywhere_iff, Expr.parts, Expr.isFloat]
  have hfull : Expr.IsParsed (.list [.int 1, .int 2]) :=
    .of_toOption (by decide +kernel : (parseProgram "[1, 2]").toOption =
      some [.list [.int 1, .int 2]]) (List.mem_singleton_self _)
  have hempty : Expr.IsParsed (.list []) :=
    .of_toOption (by decide +kernel : (parseProgram "[]").toOption = some [.list []])
      (List.mem_singleton_self _)
  have hb : keepsFirst.IsParsed :=
    .of_toOption (by decide +kernel : (parseProgram "Fn(z) = [x, k]").toOption = some [keepsFirst])
      (List.mem_singleton_self _)
  have hc : withFive.All (Expr.IsValue Clause.IsGrammatical) :=
    Context.all_empty.insert "k" (.number _)
  have hblock : Evaluates (.block [.assign firstAndRest (.list [.int 1, .int 2]), keepsFirst])
      withFive (.ofText "") (.value firstKept (.ofText "")) := ⟨by simp, 5, rfl⟩
  obtain ⟨hvalue, -⟩ := block_assign_evaluates_iff_apply_lambda hp hfull.grammatical hb.grammatical
    rfl hc (.ofText "")
  obtain ⟨-, hmismatch⟩ := block_assign_evaluates_iff_apply_lambda hp hempty.grammatical
    hb.grammatical rfl hc (.ofText "")
  refine ⟨hp, hb, hc, hblock, (hvalue _ _).1 hblock, (hmismatch (.list []) (.ofText "") ?_ rfl).2⟩
  exact ⟨by simp, 1, rfl⟩

/-- Applying a lambda without parameters gives the values of its body. It comes to the same as the
body altogether, unless the body ends in the application of a value that cannot be called: that
is no closure to the body, and no function to the lambda. -/
theorem apply_lambda_nil_ends_iff_body {b : Expr} {context : Bindings}
    (hb : Grammatical .statement b) (hc : context.All (Expr.IsValue Clause.IsGrammatical))
    (streams : Streams) :
    (∀ v after, Evaluates b context streams (.value v after) ↔
      Evaluates (.apply (.lambda [] b) []) context streams (.value v after)) ∧
    ((∀ outcome, Ends b context streams outcome ↔
        Ends (.apply (.lambda [] b) []) context streams outcome) ↔
      ¬∃ v after, EndsUncallable b context streams v after) ∧
    ∀ v after, EndsUncallable b context streams v after →
      Ends b context streams (.fail (.notAClosure v) after) ∧
        Ends (.apply (.lambda [] b) []) context streams (.fail (.notAFunction v) after) := by
  simp only [← ends_value_iff, apply_lambda_nil_ends_iff]
  refine ⟨fun v after => hb.ends_value_iff_endsInTail hc, ⟨?_, ?_⟩, ?_⟩
  · rintro hsame ⟨v, after, h⟩
    have htail := (hsame _).1 h.ends
    cases (evaluateResumed_stable b context streams).endsAs_unique htail h.endsInTail
  · intro hcallable outcome
    exact hb.ends_iff_endsInTail hc hcallable
  · intro v after h
    exact ⟨h.ends, h.endsInTail⟩

/-- The block `Do x = 1, last End`. -/
def afterOne (last : Expr) : Expr :=
  .block [.assign (.name "x") (.int 1), last]

/-- The block `Do x = 1, x + 2 End` gives `3` either way. In `Do x = 1, (x)(2) End` the number is
applied, and the causes differ. -/
theorem apply_lambda_nil_ends_iff_body_afterOne :
    BuiltIn.startingContext.All (Expr.IsValue Clause.IsGrammatical) ∧
    (afterOne (.call "+" [.name "x", .int 2])).IsParsed ∧
    Evaluates (.apply (.lambda [] (afterOne (.call "+" [.name "x", .int 2]))) [])
      BuiltIn.startingContext (.ofText "") (.value (.int 3) (.ofText "")) ∧
    (afterOne (.apply (.name "x") [.int 2])).IsParsed ∧
    Ends (afterOne (.apply (.name "x") [.int 2])) BuiltIn.startingContext (.ofText "")
      (.fail (.notAClosure (.int 1)) (.ofText "")) ∧
    Ends (.apply (.lambda [] (afterOne (.apply (.name "x") [.int 2]))) [])
      BuiltIn.startingContext (.ofText "") (.fail (.notAFunction (.int 1)) (.ofText "")) := by
  have hc : BuiltIn.startingContext.All (Expr.IsValue Clause.IsGrammatical) :=
    startingContext_isSoundValue.mono fun _ hv => hv.1
  have hsum : (afterOne (.call "+" [.name "x", .int 2])).IsParsed :=
    .of_toOption (by decide +kernel : (parseProgram "Do x = 1, x + 2 End").toOption =
      some [afterOne (.call "+" [.name "x", .int 2])]) (List.mem_singleton_self _)
  have happlied : (afterOne (.apply (.name "x") [.int 2])).IsParsed :=
    .of_toOption (by decide +kernel : (parseProgram "Do x = 1, (x)(2) End").toOption =
      some [afterOne (.apply (.name "x") [.int 2])]) (List.mem_singleton_self _)
  have hreach : Reduction.reach (evaluate 2) []
      [.assign (.name "x") (.int 1), .apply (.name "x") [.int 2]] BuiltIn.startingContext
        (.ofText "") = .value (.apply (.name "x") [.int 2],
          BuiltIn.startingContext.insert "x" (.int 1)) (.ofText "") := rfl
  have hx : Evaluates (.name "x") (BuiltIn.startingContext.insert "x" (.int 1)) (.ofText "")
      (.value (.int 1) (.ofText "")) := ⟨nofun, 1, rfl⟩
  obtain ⟨hvalue, -⟩ := apply_lambda_nil_ends_iff_body hsum.grammatical hc (.ofText "")
  obtain ⟨-, -, hcauses⟩ := apply_lambda_nil_ends_iff_body happlied.grammatical hc (.ofText "")
  refine ⟨hc, hsum, (hvalue _ _).1 ⟨nofun, 4, rfl⟩, happlied, ?_⟩
  exact hcauses (.int 1) (.ofText "") (.block hreach (.apply hx rfl))

/-- The application `(1)(2)` and the lambda that makes it fail for different causes. -/
theorem not_ends_iff_apply_lambda_nil_number :
    (Expr.apply (.int 1) [.int 2]).IsParsed ∧
    BuiltIn.startingContext.All (Expr.IsValue Clause.IsGrammatical) ∧
    ¬∀ outcome, Ends (.apply (.int 1) [.int 2]) BuiltIn.startingContext (.ofText "") outcome ↔
      Ends (.apply (.lambda [] (.apply (.int 1) [.int 2])) []) BuiltIn.startingContext (.ofText "")
        outcome := by
  have hb : (Expr.apply (.int 1) [.int 2]).IsParsed :=
    .of_toOption (by decide +kernel : (parseProgram "(1)(2)").toOption =
      some [.apply (.int 1) [.int 2]]) (List.mem_singleton_self _)
  refine ⟨hb, startingContext_isSoundValue.mono fun _ hv => hv.1, ?_⟩
  intro hsame
  have hbody : Ends (.apply (.int 1) [.int 2]) BuiltIn.startingContext (.ofText "")
      (.fail (.notAClosure (.int 1)) (.ofText "")) := ⟨nofun, 2, rfl⟩
  have hlambda : Ends (.apply (.lambda [] (.apply (.int 1) [.int 2])) []) BuiltIn.startingContext
      (.ofText "") (.fail (.notAFunction (.int 1)) (.ofText "")) := ⟨nofun, 4, rfl⟩
  cases (evaluate_stable _ _ _).endsAs_unique ((hsame _).1 hbody) hlambda

end Song
