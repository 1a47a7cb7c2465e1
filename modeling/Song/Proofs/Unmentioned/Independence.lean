import Song.Proofs.Unmentioned.Blocks

/-!
# Independence of a binding that is not mentioned

A program that does not mention a name runs the same whatever that name is bound
to, up to the binding in the closures of its value. Closures of the context may
mention the name, since they look it up in what they captured; but they must not
add a clause that mentions it to a function that was passed to them, which captured
the context of the program.
-/
namespace Song

open Song.Expr (Alike)

variable {z : String} {c d : Bindings} {limit : Nat}

namespace Expr.Alike

theorem of_isAtom {v : Expr} (h : v.isAtom = true) : Alike z v v := by
  cases v with
  | bool b => exact .bool b
  | number n => exact .number n
  | char c => exact .char c
  | _ => cases h

theorem isCallable_eq {v w : Expr} (h : Alike z v w) : v.isCallable = w.isCallable := by
  cases h <;> rfl

end Expr.Alike

theorem Fits.declare_alike {clause : Clause Expr} (h : Fits z .statement c d (.function clause))
    (hjoins : Joins z (.function clause) c d) :
    AlikeResult (Alike z) (declare clause c) (declare clause d) := by
  refine Song.declare_alike ⟨h.grammatical, h.safe⟩ ?_ fun f existing other hname hz => hjoins f
    hname hz existing other
  apply h.context.mono
  intro n hn
  apply hn.imp_right
  rintro ⟨other, hother, hmentions⟩
  cases List.mem_singleton.1 hother
  exact hmentions

/-- Looking up a name and going on with what is found. -/
theorem lookup_alike {S : Expr → Expr → Prop} {n : String} {next others : Expr → Outcome Expr}
    (h : Option.Rel (Alike z) (c.get? n) (d.get? n))
    (hnext : ∀ v w, Alike z v w → AlikeOutcome S (next v) (others w)) (streams : Streams) :
    AlikeOutcome S
      (match c.get? n with
      | some v => next v
      | none => .fail (.unknownSymbol n) streams)
      (match d.get? n with
      | some v => others v
      | none => .fail (.unknownSymbol n) streams) := by
  generalize c.get? n = first, d.get? n = second at h
  cases h with
  | none => exact .fail rfl streams
  | some hv => exact hnext _ _ hv

/-- Alike results in tail position are resumed to alike values. -/
def ResumedAlike (z : String) (limit : Nat) : Prop :=
  ∀ v w streams, TailAlike z v w →
    AlikeOutcome (Alike z) (resume limit v streams) (resume limit w streams)

namespace Reduction

variable (he : Lockstep z (Alike z) (evaluate limit))

include he

/-- Lists that end in another list. -/
theorem cons_alike {heads : List Expr} {tail : Expr} (hh : ∀ e ∈ heads, Fits z .expression c d e)
    (ht : Fits z .expression c d tail) (resumed : Expr → Streams → Outcome Expr) (body : Reduction)
    (streams : Streams) :
    AlikeOutcome (Alike z) (step (evaluate limit) body resumed (.cons heads tail) c streams)
      (step (evaluate limit) body resumed (.cons heads tail) d streams) := by
  apply (all_alike he hh streams).andThen
  intro xs ys streams hvalues
  apply (he.expression ht streams).andThen
  intro v w streams hv
  have hmessage := hv.message_eq Cause.notAList "not a list: " fun _ => rfl
  have hitems := hv.items?_rel
  generalize v.items? = first, w.items? = second at hitems
  cases hitems with
  | none => exact .fail hmessage streams
  | some hitems => exact .value (Alike.list_iff.2 (List.rel_append hvalues hitems)) streams

variable (hb : Lockstep z (TailAlike z) (evaluateTail limit))

include hb

/-- Calls, once the function is a value. -/
theorem call_alike (hr : ResumedAlike z limit) {v w : Expr} (hv : Alike z v w) {args : List Expr}
    (hargs : ∀ e ∈ args, Fits z .expression c d e) (streams : Streams) :
    AlikeOutcome (Alike z)
      ((callTarget (evaluate limit) (evaluateTail limit) v args c streams).andThen (resume limit))
      ((callTarget (evaluate limit) (evaluateTail limit) w args d streams).andThen
        (resume limit)) :=
  (callTarget_alike he hb hv hargs streams).andThen fun v w streams htail => hr v w streams htail

theorem step_alike (hr : ResumedAlike z limit) :
    Lockstep z (Alike z) (step (evaluate limit) (evaluateTail limit) (resume limit)) := by
  intro e c d streams h hjoins
  have hg := h.grammatical
  cases hg with
  | assign _ _ hpattern hvalue =>
    have hvalue := h.part (by simp [Expr.parts]) hvalue
    apply (he.expression hvalue streams).andThen
    intro _ _ streams hv
    exact .value (.assign (Or.inl ⟨hpattern, h.safe.here.1⟩) hv) streams
  | function => exact .ofExcept (h.declare_alike hjoins) streams
  | expression hg =>
    cases hg with
    | bool b => exact .value (.bool b) streams
    | int | float => exact .value (.number _) streams
    | char c => exact .value (.char c) streams
    | wildcard => exact .value .wildcard streams
    | list hitems =>
      simp only [step]
      split
      case isTrue hatoms =>
        refine .value ?_ streams
        rw [Alike.list_iff]
        rw [List.forall₂_same]
        intro item hitem
        exact .of_isAtom (List.all_eq_true.1 hatoms item hitem)
      case isFalse =>
        have hitems := fun e he => h.part he (hitems e he)
        apply (all_alike he hitems streams).andThen
        intro _ _ streams hvalues
        exact .value (Alike.list_iff.2 hvalues) streams
    | cons _ hheads htail =>
      refine cons_alike he (fun e he => h.part ?_ (hheads e he)) (h.part ?_ htail) _ _ streams
      · exact List.mem_append_left _ he
      · exact List.mem_append_right _ List.mem_cons_self
    | name => exact lookup_alike (h.get?_rel rfl) (fun v w hv => .value hv streams) streams
    | lambda => exact .ofExcept (h.declare_alike hjoins) streams
    | block hstatements =>
      have h : Fits z .expression c d _ := ⟨.block hstatements, h.safe, h.context⟩
      exact block_alike he he (.start h) rfl streams
    | call _ hargs =>
      have hargs := fun e he => h.part he (hargs e he)
      exact lookup_alike (h.get?_rel rfl)
        (fun v w hv => call_alike he hb hr hv hargs streams) streams
    | apply htarget hargs =>
      have hargs := fun e he => h.part (List.mem_cons_of_mem _ he) (hargs e he)
      have htarget := h.part List.mem_cons_self htarget
      apply (he.expression htarget streams).andThen
      intro v w streams hv
      have hmessage := hv.message_eq Cause.notAClosure "not a closure: " fun _ => rfl
      rw [hv.isCallable_eq]
      split
      · exact call_alike he hb hr hv hargs streams
      · exact .fail hmessage streams

theorem tail_alike :
    Lockstep z (TailAlike z) (tail (evaluate limit) (evaluateTail limit)) := by
  intro e c d streams h hjoins
  have hvalue (hstep : ∀ context, tail (evaluate limit) (evaluateTail limit) e context streams =
      evaluate limit e context streams) :
      AlikeOutcome (TailAlike z) (tail (evaluate limit) (evaluateTail limit) e c streams)
        (tail (evaluate limit) (evaluateTail limit) e d streams) := by
    rw [hstep, hstep]
    exact (he e c d streams h hjoins).mono fun _ _ => .value
  have hg := h.grammatical
  cases hg with
  | assign | function => exact hvalue fun _ => rfl
  | expression hg =>
    cases hg with
    | call _ hargs =>
      have hargs := fun e he => h.part he (hargs e he)
      refine AlikeOutcome.inside ?_ _
      refine lookup_alike (h.get?_rel rfl) ?_ streams
      intro v w hv
      exact deferTarget_alike he hv hargs streams
    | apply htarget hargs =>
      have hargs := fun e he => h.part (List.mem_cons_of_mem _ he) (hargs e he)
      have htarget := h.part List.mem_cons_self htarget
      refine AlikeOutcome.inside ?_ _
      apply (he.expression htarget streams).andThen
      intro v w streams hv
      exact deferTarget_alike he hv hargs streams
    | block hstatements =>
      have h : Fits z .expression c d _ := ⟨.block hstatements, h.safe, h.context⟩
      exact AlikeOutcome.inside (block_alike he hb (.start h) rfl streams) _
    | _ => exact hvalue fun _ => rfl

end Reduction

/-- Evaluation within a number of steps keeps two runs alike. -/
structure RunsAlike (z : String) (limit : Nat) : Prop where
  evaluate : Reduction.Lockstep z (Alike z) (evaluate limit)
  evaluateTail : Reduction.Lockstep z (TailAlike z) (evaluateTail limit)
  resume : ResumedAlike z limit

theorem RunsAlike.resume_succ (h : RunsAlike z limit) : ResumedAlike z (limit + 1) := by
  rintro v w streams (hv | ⟨hf, hargs⟩)
  · -- no alike value is a deferred call, so both are left as they are
    have hvalue := hv
    cases hv <;> exact .value hvalue streams
  · rw [resume_deferred, resume_deferred]
    apply (Reduction.dispatch_alike h.evaluate h.evaluateTail hf hargs streams).andThen
    intro v w streams htail
    exact h.resume v w streams htail

theorem runsAlike (z : String) (limit : Nat) : RunsAlike z limit := by
  induction limit with
  | zero =>
    exact ⟨fun _ _ _ _ _ _ => .exhausted, fun _ _ _ _ _ _ => .exhausted,
      fun _ _ _ _ => .exhausted⟩
  | succ limit ih =>
    refine ⟨?_, ?_, ih.resume_succ⟩
    · intro e c d streams h hjoins
      have hstep := Reduction.step_alike ih.evaluate ih.evaluateTail ih.resume
      exact (hstep e c d streams h hjoins).located e
    · exact Reduction.tail_alike ih.evaluate ih.evaluateTail

/-- The trace of a failure does not show more of its cause than the message. -/
theorem Failure.trace_eq {f g : Failure} (hwithin : f.within = g.within)
    (hmessage : f.cause.message = g.cause.message) : f.trace = g.trace := by
  have hfrom (depth : Nat) (es : List Expr) :
      traceFrom depth f.cause es = traceFrom depth g.cause es := by
    induction es generalizing depth with
    | nil => exact congrArg (fun text => [traceLine depth "💥  " text]) hmessage
    | cons e rest ih => rw [traceFrom, traceFrom, ih]
  have hlines : traceFrom 1 f.cause f.within = traceFrom 1 g.cause g.within := by
    rw [hwithin, hfrom]
  exact congrArg (fun lines => "Evaluation error" ++ String.join lines) hlines

/-- Two runs end after the same streams, with values that are equal up to the binding of the name
in closures and have the same text, or with failures of the same trace; or neither ends within
its steps. -/
inductive Outcome.EqualUpTo (z : String) : Outcome Expr → Outcome Expr → Prop
  | value {v w : Expr} (h : v.EqualUpTo z w) (htext : v.render = w.render) (streams : Streams) :
    EqualUpTo z (.value v streams) (.value w streams)
  | failure {f g : Failure} (htrace : f.trace = g.trace) (streams : Streams) :
    EqualUpTo z (.failure f streams) (.failure g streams)
  | exhausted : EqualUpTo z .exhausted .exhausted

theorem AlikeOutcome.equalUpTo {first second : Outcome Expr}
    (h : AlikeOutcome (Alike z) first second) : first.EqualUpTo z second := by
  cases h with
  | value h streams => exact .value h.equalUpTo h.render_eq streams
  | failure hwithin hmessage streams => exact .failure (Failure.trace_eq hwithin hmessage) streams
  | exhausted => exact .exhausted

/-- A linear program that does not mention the name runs the same in contexts that differ only in
its binding, if the functions that they share are safe: within any number of steps both runs end
alike or neither ends. -/
theorem evaluate_equalUpTo_of_lacks {e : Expr} (hg : Grammatical .statement e) (hz : e.Lacks z)
    (hlinear : e.Everywhere Expr.IsLinear) (hcd : ∀ n, n ≠ z → c.get? n = d.get? n)
    (hc : ∀ n v, n ≠ z → c.get? n = some v → v.IsValue (Clause.IsSafe z)) (limit : Nat)
    (streams : Streams) :
    Outcome.EqualUpTo z (evaluate limit e c streams) (evaluate limit e d streams) := by
  refine ((runsAlike z limit).evaluate e c d streams ⟨hg, ?_, fun n hn => ?_⟩ ?_).equalUpTo
  · exact hz.isSafe hlinear
  · rw [← hcd n (hn.resolve_right (absurd hz))]
    cases hv : c.get? n with
    | none => exact .none
    | some v => exact .some (.refl (hc n v (hn.resolve_right (absurd hz)) hv))
  · intro f _ hmentions
    exact absurd hz hmentions

/-- A function `g` of one clause that captured these bindings, and a number for `z`. -/
def withFunction (clause : Clause Expr) (captured : Bindings) (i : Int64) : Bindings :=
  (Context.empty.insert "g" (.closure ⟨some "g", [clause], captured⟩)).insert "z" (.int i)

theorem get?_withFunction (clause : Clause Expr) (captured : Bindings) (i j : Int64) (n : String)
    (hn : n ≠ "z") :
    (withFunction clause captured i).get? n = (withFunction clause captured j).get? n := by
  simp only [withFunction, Context.get?_insert, if_neg hn.symm]

theorem withFunction_all {C : Clause Expr → Prop} {clause : Clause Expr} {captured : Bindings}
    (hname : clause.name = some "g") (hpatterns : clause.patterns = [.name "k"]) (hc : C clause)
    (hcaptured : captured.All (Expr.IsValue C)) (hself : captured.contains "g" = false)
    (i : Int64) : (withFunction clause captured i).All (Expr.IsValue C) := by
  have hshaped : Closure.Shaped ⟨some "g", [clause], captured⟩ := by
    refine .named rfl (List.cons_ne_nil _ _) (by simpa using hname) ?_ hself
    rw [List.forall_mem_singleton, hpatterns, List.forall_mem_singleton]
    exact .intro rfl (List.forall_mem_nil _)
  refine (Context.all_empty.insert "g" (.closure hshaped ?_ hcaptured)).insert "z" (.number _)
  simpa using hc

/-- The clause `g(k) = Do f(1) = k, f(x) = z, f(2) End`. -/
def ownClause : Clause Expr :=
  ⟨some "g", [.name "k"], .bool true, .block [.function ⟨some "f", [.int 1], .bool true, .name "k"⟩,
    .function ⟨some "f", [.name "x"], .bool true, .name "z"⟩, .call "f" [.int 2]]⟩

theorem ownClause_isSafe : ownClause.IsSafe "z" := by
  have hparsed : (Expr.function ownClause).IsParsed :=
    .of_toOption (by decide +kernel :
      (parseProgram "g(k) = Do f(1) = k, f(x) = z, f(2) End").toOption =
        some [.function ownClause]) (List.mem_singleton_self _)
  have hown : ownClause.body.OwnClauses "z" := .of_dropLast (by simp [Expr.Keeps])
  have hbody : ownClause.body.IsSafe "z" := by
    rw [Expr.IsSafe, Expr.everywhere_iff]
    refine ⟨⟨trivial, hown⟩, ?_⟩
    simp [ownClause, Expr.everywhere_iff, Expr.parts, Clause.parts, Expr.IsLinear,
      Expr.boundNames, Expr.boundNamesAmong, Expr.OwnClauses, Expr.int]
  refine ⟨hparsed.grammatical, ?_⟩
  rw [Expr.IsSafe, Expr.everywhere_iff]
  refine ⟨⟨?_, trivial⟩, ?_, ?_, hbody⟩ <;>
    simp [ownClause, Expr.everywhere_iff, Expr.parts, Expr.IsLinear, Expr.boundNames,
      Expr.boundNamesAmong, Expr.OwnClauses, Expr.int]

/-- The function of that clause captured `z` as 5, whatever the program is run with. -/
def withOwnClause : Int64 → Bindings :=
  withFunction ownClause (Context.empty.insert "z" (.int 5))

def lambdaClause : Clause Expr :=
  ⟨none, [.name "x"], .bool true, .name "x"⟩

def lambdaAndCall : Expr :=
  .list [.function lambdaClause, .call "g" [.int 7]]

def lambdaAndFive (i : Int64) : Expr :=
  .list [.closure ⟨none, [lambdaClause], withOwnClause i⟩, .int 5]

/-- The lambda captures the number for `z`, and the call does not find it. -/
theorem evaluate_equalUpTo_of_lacks_lambdaAndCall :
    lambdaAndCall.IsParsed ∧ lambdaAndCall.Lacks "z" ∧ lambdaAndCall.Everywhere Expr.IsLinear ∧
    (∀ n, n ≠ "z" → (withOwnClause 1).get? n = (withOwnClause 2).get? n) ∧
    (withOwnClause 1).All (Expr.IsValue (Clause.IsSafe "z")) ∧
    evaluate 9 lambdaAndCall (withOwnClause 1) (.ofText "") =
      .value (lambdaAndFive 1) (.ofText "") ∧
    evaluate 9 lambdaAndCall (withOwnClause 2) (.ofText "") =
      .value (lambdaAndFive 2) (.ofText "") ∧
    (lambdaAndFive 1).EqualUpTo "z" (lambdaAndFive 2) ∧
    (lambdaAndFive 1).render = (lambdaAndFive 2).render := by
  have hparsed : lambdaAndCall.IsParsed :=
    .of_toOption (by decide +kernel : (parseProgram "[Fn(x) = x, g(7)]").toOption =
      some [lambdaAndCall]) (List.mem_singleton_self _)
  have hz : lambdaAndCall.Lacks "z" := by
    simp [lambdaAndCall, lambdaClause, Expr.Lacks, Expr.everywhere_iff, Expr.parts, Clause.parts,
      Expr.ownName?, Expr.int]
  have hlinear : lambdaAndCall.Everywhere Expr.IsLinear := by
    simp [lambdaAndCall, lambdaClause, Expr.everywhere_iff, Expr.parts, Clause.parts,
      Expr.IsLinear, Expr.boundNames, Expr.boundNamesAmong, Expr.int]
  have hagree := get?_withFunction ownClause (Context.empty.insert "z" (.int 5)) 1 2
  have hall : (withOwnClause 1).All (Expr.IsValue (Clause.IsSafe "z")) :=
    withFunction_all rfl rfl ownClause_isSafe (Context.all_empty.insert "z" (.number _)) rfl 1
  have hsame := evaluate_equalUpTo_of_lacks hparsed.grammatical hz hlinear hagree
    (fun n v _ hv => hall.get? hv) 9 (.ofText "")
  refine ⟨hparsed, hz, hlinear, hagree, hall, rfl, rfl, ?_⟩
  cases hsame with
  | value h htext => exact ⟨h, htext⟩

/-- The clause `g(k) = Do f(1) = 1, f = k, f(2) = z, f(2) End`. -/
def joiningClause : Clause Expr :=
  ⟨some "g", [.name "k"], .bool true, .block [.function ⟨some "f", [.int 1], .bool true, .int 1⟩,
    .assign (.name "f") (.name "k"), .function ⟨some "f", [.int 2], .bool true, .name "z"⟩,
    .call "f" [.int 2]]⟩

theorem joiningClause_isGrammatical : joiningClause.IsGrammatical := by
  have hparsed : (Expr.function joiningClause).IsParsed :=
    .of_toOption (by decide +kernel :
      (parseProgram "g(k) = Do f(1) = 1, f = k, f(2) = z, f(2) End").toOption =
        some [.function joiningClause]) (List.mem_singleton_self _)
  exact hparsed.grammatical

/-- The statement `Do f(0) = 0, g(f) End`. -/
def passingBlock : Expr :=
  .block [.function ⟨some "f", [.int 0], .bool true, .int 0⟩, .call "g" [.name "f"]]

/-- A linear function that binds `f` to its argument and gives that a clause makes a program read
the binding of a name that it does not mention: the clause joins the function of the program, and
that one captured the context of the program. -/
theorem not_evaluate_equalUpTo_joiningClause :
    passingBlock.IsParsed ∧ passingBlock.Lacks "z" ∧ passingBlock.Everywhere Expr.IsLinear ∧
    (∀ n, n ≠ "z" → (withFunction joiningClause .empty 1).get? n =
      (withFunction joiningClause .empty 2).get? n) ∧
    (∀ i, (withFunction joiningClause .empty i).All (Expr.IsValue fun clause =>
      clause.IsGrammatical ∧ (Expr.function clause).Everywhere Expr.IsLinear)) ∧
    evaluate 9 passingBlock (withFunction joiningClause .empty 1) (.ofText "") =
      .value (.int 1) (.ofText "") ∧
    evaluate 9 passingBlock (withFunction joiningClause .empty 2) (.ofText "") =
      .value (.int 2) (.ofText "") ∧
    ¬(Expr.int 1).EqualUpTo "z" (.int 2) := by
  have hparsed : passingBlock.IsParsed :=
    .of_toOption (by decide +kernel : (parseProgram "Do f(0) = 0, g(f) End").toOption =
      some [passingBlock]) (List.mem_singleton_self _)
  have hz : passingBlock.Lacks "z" := by
    simp [passingBlock, Expr.Lacks, Expr.everywhere_iff, Expr.parts, Clause.parts, Expr.ownName?,
      Expr.int]
  have hlinear : passingBlock.Everywhere Expr.IsLinear := by
    simp [passingBlock, Expr.everywhere_iff, Expr.parts, Clause.parts, Expr.IsLinear,
      Expr.boundNames, Expr.boundNamesAmong, Expr.int]
  have hclause : (Expr.function joiningClause).Everywhere Expr.IsLinear := by
    simp [joiningClause, Expr.everywhere_iff, Expr.parts, Clause.parts, Expr.IsLinear,
      Expr.boundNames, Expr.boundNamesAmong, Expr.int]
  refine ⟨hparsed, hz, hlinear, get?_withFunction joiningClause .empty 1 2, ?_, rfl, rfl, ?_⟩
  · exact withFunction_all rfl rfl ⟨joiningClause_isGrammatical, hclause⟩ Context.all_empty rfl
  · intro h
    cases h

end Song
