import Song.Proofs.Unmentioned.Operations
import Song.Proofs.Value.Clauses

/-!
# Evaluation in contexts that differ in one binding

Two evaluations of one expression, in contexts that are alike on every name that
the expression can look up, go on in lockstep: within the same number of steps they
end in alike values, or in failures with the same trace, after the same streams.
-/
namespace Song

open Song.Expr (Alike)

inductive AlikeOutcome {α : Type} (S : α → α → Prop) : Outcome α → Outcome α → Prop
  | value {a b : α} (h : S a b) (streams : Streams) :
    AlikeOutcome S (.value a streams) (.value b streams)
  | failure {f g : Failure} (hwithin : f.within = g.within)
    (hmessage : f.cause.message = g.cause.message) (streams : Streams) :
    AlikeOutcome S (.failure f streams) (.failure g streams)
  | exhausted : AlikeOutcome S .exhausted .exhausted

namespace AlikeOutcome

variable {α β : Type} {S : α → α → Prop} {T : β → β → Prop}

theorem fail {f g : Cause} (h : f.message = g.message) (streams : Streams) :
    AlikeOutcome S (.fail f streams) (.fail g streams) :=
  .failure (f := .ofCause f) (g := .ofCause g) rfl h streams

theorem ofExcept {r s : Except Cause α} (h : AlikeResult S r s) (streams : Streams) :
    AlikeOutcome S (.ofExcept r streams) (.ofExcept s streams) := by
  cases h with
  | ok h => exact .value h streams
  | error h => exact .fail h streams

theorem andThen {first second : Outcome α} {next others : α → Streams → Outcome β}
    (h : AlikeOutcome S first second)
    (hnext : ∀ a b streams, S a b → AlikeOutcome T (next a streams) (others b streams)) :
    AlikeOutcome T (first.andThen next) (second.andThen others) := by
  cases h with
  | value h streams => exact hnext _ _ streams h
  | failure hwithin hmessage streams => exact .failure hwithin hmessage streams
  | exhausted => exact .exhausted

theorem mono {U : α → α → Prop} {first second : Outcome α} (h : AlikeOutcome S first second)
    (hsub : ∀ a b, S a b → U a b) : AlikeOutcome U first second := by
  cases h with
  | value h streams => exact .value (hsub _ _ h) streams
  | failure hwithin hmessage streams => exact .failure hwithin hmessage streams
  | exhausted => exact .exhausted

theorem inside {first second : Outcome α} (h : AlikeOutcome S first second) (e : Expr) :
    AlikeOutcome S (first.inside e) (second.inside e) := by
  cases h with
  | value h streams => exact .value h streams
  | @failure f g hwithin hmessage streams =>
    exact .failure (f := f.inside e) (g := g.inside e) (congrArg (e :: ·) hwithin) hmessage streams
  | exhausted => exact .exhausted

theorem located {S : Expr → Expr → Prop} {first second : Outcome Expr}
    (h : AlikeOutcome S first second) (e : Expr) :
    AlikeOutcome S (Reduction.located e first) (Reduction.located e second) := by
  cases e with
  | name n => exact h
  | _ => exact h.inside _

end AlikeOutcome

variable {z : String} {c d : Bindings}

/-- The names that an expression may look up, with what it evaluates to: all but `z`, and `z` too
if the expression mentions it. -/
def Expr.Reads (z : String) (e : Expr) (n : String) : Prop :=
  n ≠ z ∨ ¬e.Lacks z

/-- A safe expression and two contexts that are alike on what it may look up. -/
structure Fits (z : String) (role : Role) (c d : Bindings) (e : Expr) : Prop where
  grammatical : Grammatical role e
  safe : e.IsSafe z
  context : Context.AlikeOn z (e.Reads z) c d

namespace Fits

theorem part {e part : Expr} {role other : Role} (h : Fits z role c d e) (hpart : part ∈ e.parts)
    (hg : Grammatical other part) : Fits z other c d part := by
  refine ⟨hg, h.safe.part hpart, ?_⟩
  apply h.context.mono
  intro n hn
  apply hn.imp_right
  intro hlacks hall
  exact hlacks (hall.part hpart)

theorem statement {e : Expr} (h : Fits z .expression c d e) : Fits z .statement c d e :=
  ⟨.expression h.grammatical, h.safe, h.context⟩

/-- The name that an expression itself refers to is one that it may look up. -/
theorem get?_rel {e : Expr} {role : Role} (h : Fits z role c d e) {n : String}
    (hn : e.ownName? = some n) : Option.Rel (Alike z) (c.get? n) (d.get? n) := by
  apply h.context n
  by_cases hz : n = z
  · exact Or.inr fun hlacks => hlacks.here (hz ▸ hn)
  · exact Or.inl hz

end Fits

/-- The functions that the name is bound to captured alike bindings of `z`. -/
def Settled (z : String) (f : String) (c d : Bindings) : Prop :=
  ∀ existing other, c.get? f = some (.closure existing) → d.get? f = some (.closure other) →
    Context.AlikeOn z (· = z) existing.captured other.captured

/-- If the statement declares a clause that mentions `z`, what it joins is settled. -/
def Joins (z : String) (e : Expr) (c d : Bindings) : Prop :=
  ∀ f, declaredName? e = some f → ¬e.Lacks z → Settled z f c d

/-- The reduction of an expression gives alike outcomes in contexts that fit it. -/
def Reduction.Lockstep (z : String) (S : Expr → Expr → Prop) (eval : Reduction) : Prop :=
  ∀ e c d streams, Fits z .statement c d e → Joins z e c d →
    AlikeOutcome S (eval e c streams) (eval e d streams)

namespace Reduction

variable {eval body : Reduction} {S : Expr → Expr → Prop}

/-- An expression declares no clause. -/
theorem Lockstep.expression (h : eval.Lockstep z S) {e : Expr} (he : Fits z .expression c d e)
    (streams : Streams) : AlikeOutcome S (eval e c streams) (eval e d streams) := by
  apply h e c d streams he.statement
  intro f hf
  have hg := he.grammatical
  cases hg <;> cases hf

theorem all_alike (he : eval.Lockstep z (Alike z)) {es : List Expr}
    (h : ∀ e ∈ es, Fits z .expression c d e) (streams : Streams) :
    AlikeOutcome (List.Forall₂ (Alike z)) (all eval es c streams) (all eval es d streams) := by
  induction es generalizing streams with
  | nil => exact .value .nil streams
  | cons e rest ih =>
    obtain ⟨hfirst, hrest⟩ := List.forall_mem_cons.1 h
    apply (he.expression hfirst streams).andThen
    intro v w streams hv
    apply (ih hrest streams).andThen
    intro vs ws streams hvs
    exact .value (.cons hv hvs) streams

theorem truth_alike (he : eval.Lockstep z (Alike z)) {e : Expr} (h : Fits z .expression c d e)
    (streams : Streams) : AlikeOutcome Eq (truth eval e c streams) (truth eval e d streams) :=
  (he.expression h streams).andThen fun _ _ streams hv =>
    .ofExcept (BuiltIn.asBool_alike hv) streams

end Reduction

theorem takeLine_alike (streams : Streams) :
    AlikeOutcome (Alike z) (BuiltIn.takeLine streams) (BuiltIn.takeLine streams) := by
  rw [BuiltIn.takeLine]
  split
  · exact .value (BuiltIn.text_alike []) _
  · exact .value (BuiltIn.text_alike _) _
  · exact .fail rfl _

theorem meaning_alike (b : BuiltIn) {xs ys : List Expr} (h : List.Forall₂ (Alike z) xs ys)
    (streams : Streams) : AlikeOutcome (Alike z) (b.meaning xs streams) (b.meaning ys streams) := by
  have hresult := AlikeOutcome.ofExcept (BuiltIn.result_alike b h) streams
  cases b with
  | readLine =>
    match h with
    | .nil => exact takeLine_alike streams
    | .cons hx .nil =>
      simp only [BuiltIn.meaning, hx.toText_eq]
      exact takeLine_alike _
    | .cons _ (.cons _ _) => exact hresult
  | writeOut =>
    match h with
    | .cons hx .nil =>
      simp only [BuiltIn.meaning, BuiltIn.lineOf, hx.toText_eq]
      exact .value hx _
    | .nil | .cons _ (.cons _ _) => exact hresult
  | writeErr =>
    match h with
    | .cons hx .nil =>
      simp only [BuiltIn.meaning, BuiltIn.lineOf, hx.toText_eq]
      exact .value hx _
    | .nil | .cons _ (.cons _ _) => exact hresult
  | _ => exact hresult

/-- What two runs have in tail position: alike values, or deferred calls of alike functions. -/
inductive TailAlike (z : String) : Expr → Expr → Prop
  | value {v w : Expr} (h : Alike z v w) : TailAlike z v w
  | deferred {f g : Closure Expr} {xs ys : List Expr} (h : Alike z (.closure f) (.closure g))
    (hargs : List.Forall₂ (Alike z) xs ys) :
    TailAlike z (.deferred (.closure f) xs) (.deferred (.closure g) ys)

namespace Reduction

variable {eval body : Reduction} {S : Expr → Expr → Prop} {args : List Expr}

theorem callBuiltIn_alike (he : eval.Lockstep z (Alike z)) (b : BuiltIn)
    (h : ∀ e ∈ args, Fits z .expression c d e) (streams : Streams) :
    AlikeOutcome (Alike z) (callBuiltIn eval b args c streams)
      (callBuiltIn eval b args d streams) := by
  simp only [callBuiltIn]
  split
  · exact .fail rfl streams
  · split
    case h_1 left right _ =>
      apply (truth_alike he (h left (by simp)) streams).andThen
      intro holds _ streams heq
      subst heq
      split
      · apply (truth_alike he (h right (by simp)) streams).andThen
        intro _ _ streams heq
        exact .value (heq ▸ .bool _) streams
      · exact .value (.bool _) streams
    case h_2 left right _ =>
      apply (truth_alike he (h left (by simp)) streams).andThen
      intro holds _ streams heq
      subst heq
      split
      · exact .value (.bool _) streams
      · apply (truth_alike he (h right (by simp)) streams).andThen
        intro _ _ streams heq
        exact .value (heq ▸ .bool _) streams
    case h_3 =>
      apply (all_alike he h streams).andThen
      intro _ _ streams hvalues
      exact meaning_alike b hvalues streams

theorem arguments_alike (he : eval.Lockstep z (Alike z)) {f g : Closure Expr}
    (hf : Alike z (.closure f) (.closure g)) (h : ∀ e ∈ args, Fits z .expression c d e)
    (streams : Streams) :
    AlikeOutcome (List.Forall₂ (Alike z)) (arguments eval f args c streams)
      (arguments eval g args d streams) := by
  have haccepts : f.accepts args.length = g.accepts args.length := by
    rw [Closure.accepts, Closure.accepts, (Alike.closure_iff.1 hf).2.1]
  rw [arguments, arguments, haccepts]
  split
  · exact all_alike he h streams
  · exact .fail rfl streams

/-- The guard and the body of a clause fit the contexts that two calls of it have. -/
theorem fits_clause {f g : Closure Expr} (hf : Alike z (.closure f) (.closure g))
    {clause : Clause Expr} (hmem : clause ∈ f.clauses) {parameters others : Bindings}
    (hp : Context.AlikeOn z (fun _ => True) parameters others) {e : Expr}
    (he : e ∈ (Expr.function clause).parts) (hg : Grammatical .expression e) :
    Fits z .expression (f.bodyContext parameters) (g.bodyContext others) e := by
  have hsafe := (Alike.closure_iff.1 hf).2.2.1 clause hmem
  refine ⟨hg, hsafe.2.part he, ?_⟩
  apply (bodyContext_alike hf hp).mono
  intro n hn
  apply hn.imp_right
  intro hlacks
  exact ⟨clause, hmem, fun hall => hlacks (hall.part he)⟩

theorem firstMatch_alike (he : eval.Lockstep z (Alike z)) (hb : body.Lockstep z S)
    {f g : Closure Expr} (hf : Alike z (.closure f) (.closure g)) {xs ys : List Expr}
    (hargs : List.Forall₂ (Alike z) xs ys) {clauses : List (Clause Expr)}
    (hclauses : ∀ clause ∈ clauses, clause ∈ f.clauses) (streams : Streams) :
    AlikeOutcome S (firstMatch eval body f xs clauses streams)
      (firstMatch eval body g ys clauses streams) := by
  induction clauses generalizing streams with
  | nil => exact .fail (signatureMismatch_message_eq hargs) streams
  | cons clause rest ih =>
    obtain ⟨hmem, hrest⟩ := List.forall_mem_cons.1 hclauses
    have hsafe := (Alike.closure_iff.1 hf).2.2.1 clause hmem
    have hmatch := matchParameters_alike hsafe hargs
    simp only [firstMatch]
    generalize Expr.matchParameters clause.patterns xs = r,
      Expr.matchParameters clause.patterns ys = s at hmatch
    cases hmatch with
    | error h => exact .fail h streams
    | ok h =>
      cases h with
      | none => exact ih hrest streams
      | some hp =>
        have hbody (streams : Streams) := hb.expression (fits_clause hf hmem hp
          (by simp [Expr.parts, Clause.parts]) hsafe.1.body) streams
        dsimp only
        split
        · apply (he.expression (fits_clause hf hmem hp (by simp [Expr.parts, Clause.parts])
            hsafe.1.guard) streams).andThen
          intro v w streams hv
          have hmessage := hv.message_eq Cause.notABoolean "not a boolean: " fun _ => rfl
          cases hv with
          | bool b =>
            cases b with
            | true => exact hbody streams
            | false => exact ih hrest streams
          | _ => exact .fail hmessage streams
        · exact hbody streams

theorem dispatch_alike (he : eval.Lockstep z (Alike z)) (hb : body.Lockstep z S)
    {f g : Closure Expr} (hf : Alike z (.closure f) (.closure g)) {xs ys : List Expr}
    (hargs : List.Forall₂ (Alike z) xs ys) (streams : Streams) :
    AlikeOutcome S (dispatch eval body f xs streams) (dispatch eval body g ys streams) := by
  rw [dispatch, dispatch, ← (Alike.closure_iff.1 hf).2.1]
  exact firstMatch_alike he hb hf hargs (fun _ h => h) streams

theorem callTarget_alike (he : eval.Lockstep z (Alike z)) (hb : body.Lockstep z (TailAlike z))
    {v w : Expr} (hv : Alike z v w) (h : ∀ e ∈ args, Fits z .expression c d e)
    (streams : Streams) :
    AlikeOutcome (TailAlike z) (callTarget eval body v args c streams)
      (callTarget eval body w args d streams) := by
  have hmessage := hv.message_eq Cause.notAFunction "not a function: " fun _ => rfl
  cases v with
  | builtIn b =>
    cases hv
    exact (callBuiltIn_alike he b h streams).mono fun _ _ => .value
  | closure f =>
    obtain ⟨g, rfl⟩ := hv.exists_closure
    apply (arguments_alike he hv h streams).andThen
    intro _ _ streams hargs
    exact dispatch_alike he hb hv hargs streams
  | _ => cases hv <;> exact .fail hmessage streams

theorem deferTarget_alike (he : eval.Lockstep z (Alike z)) {v w : Expr} (hv : Alike z v w)
    (h : ∀ e ∈ args, Fits z .expression c d e) (streams : Streams) :
    AlikeOutcome (TailAlike z) (deferTarget eval v args c streams)
      (deferTarget eval w args d streams) := by
  have hmessage := hv.message_eq Cause.notAFunction "not a function: " fun _ => rfl
  cases v with
  | builtIn b =>
    cases hv
    exact (callBuiltIn_alike he b h streams).mono fun _ _ => .value
  | closure f =>
    obtain ⟨g, rfl⟩ := hv.exists_closure
    apply (arguments_alike he hv h streams).andThen
    intro _ _ streams hargs
    exact .value (.deferred hv hargs) streams
  | _ => cases hv <;> exact .fail hmessage streams

end Reduction

end Song
