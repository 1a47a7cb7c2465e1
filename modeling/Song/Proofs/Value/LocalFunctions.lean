import Song.Proofs.Unmentioned.Blocks

/-!
# Functions of a block

A block that declares a function starts a function of its own. The first clause drops what the name
was bound to outside, and the later ones, with other statements in between, join it: the function
has the clauses of the block and no others, and captured the local context before the first.
-/
namespace Song

open Filter

theorem Context.erase_erase {α : Type} (context : Context α) (name : String) :
    (context.erase name).erase name = context.erase name := by
  simp only [Context.erase, List.filter_filter, Bool.and_self]

/-- Where a block stands: the names that it has declared, its own context, and the streams. -/
structure LocalScope where
  declared : List String
  context : Bindings
  streams : Streams

namespace LocalScope

def start (context : Bindings) (streams : Streams) : LocalScope :=
  ⟨[], context, streams⟩

def entered (scope : LocalScope) (statement : Expr) : Bindings :=
  (shadow scope.declared statement scope.context).2

def after (scope : LocalScope) (statement : Expr) (context : Bindings) (streams : Streams) :
    LocalScope :=
  ⟨(shadow scope.declared statement scope.context).1, context, streams⟩

/-- What the statements that are left come to, the last one by `final`. -/
def block (scope : LocalScope) (eval final : Reduction) (statements : List Expr) : Outcome Expr :=
  Reduction.block eval final scope.declared statements scope.context scope.streams

theorem block_singleton (scope : LocalScope) (eval final : Reduction) (last : Expr) :
    scope.block eval final [last] = final last (scope.entered last) scope.streams :=
  rfl

end LocalScope

theorem evaluate_block (n : Nat) (statements : List Expr) (context : Bindings)
    (streams : Streams) :
    evaluate (n + 1) (.block statements) context streams =
      ((LocalScope.start context streams).block (evaluate n) (evaluate n) statements).inside
        (.block statements) :=
  rfl

theorem evaluateTail_block (n : Nat) (statements : List Expr) (context : Bindings)
    (streams : Streams) :
    evaluateTail (n + 1) (.block statements) context streams =
      ((LocalScope.start context streams).block (evaluate n) (evaluateTail n) statements).inside
        (.block statements) :=
  rfl

/-- The first statements of a block with their values, and where the block stands after them. -/
inductive RunsLocally : LocalScope → List (Expr × Expr) → LocalScope → Prop
  | nil (scope : LocalScope) : RunsLocally scope [] scope
  | cons {scope final : LocalScope} {limit : Nat} {statement v : Expr} {next : Bindings}
    {streams : Streams} {steps : List (Expr × Expr)}
    (h : execute limit statement (scope.entered statement) scope.streams = .value (v, next) streams)
    (hrest : RunsLocally (scope.after statement next streams) steps final) :
    RunsLocally scope ((statement, v) :: steps) final

/-- A block goes on where its first statements lead. -/
theorem RunsLocally.block_eq {scope final : LocalScope} {steps : List (Expr × Expr)}
    (h : RunsLocally scope steps final) {rest : List Expr} (hrest : rest ≠ []) :
    ∀ᶠ n in atTop, ∀ last, scope.block (evaluate n) last (steps.map Prod.fst ++ rest) =
      final.block (evaluate n) last rest := by
  induction h with
  | nil => exact Eventually.of_forall fun _ _ => rfl
  | @cons scope final limit statement v next streams steps h _ ih =>
    obtain ⟨hvalue, hinstall⟩ := execute_eq_value h
    obtain ⟨second, others, hcons⟩ :=
      List.exists_cons_of_ne_nil (List.append_ne_nil_of_right_ne_nil (steps.map Prod.fst) hrest)
    filter_upwards [ih, eventually_ge_atTop limit] with n hnext hn last
    have hended : evaluate limit statement (scope.entered statement) scope.streams ≠
        .exhausted := by
      simp [hvalue]
    have heval := (evaluate_of_le hn hended).trans hvalue
    rw [LocalScope.entered] at heval hinstall
    rw [← hnext last, List.map_cons, List.cons_append, hcons]
    simp only [LocalScope.block, Reduction.block, heval, hinstall, Outcome.andThen,
      LocalScope.after]

theorem clauseOf?_isSome {f : String} {statement : Expr} :
    (clauseOf? f statement).isSome ↔ declaredName? statement = some f := by
  cases statement with
  | function clause => simp [clauseOf?, declaredName?]
  | _ => simp [clauseOf?, declaredName?]

namespace LocalScope

variable {scope : LocalScope} {f : String} {statement v : Expr} {clause : Clause Expr}
  {closure : Closure Expr} {limit : Nat} {next : Bindings} {streams : Streams}

/-- The block has declared the function, and the name is bound to it. -/
structure Owns (scope : LocalScope) (f : String) (closure : Closure Expr) : Prop where
  declared : f ∈ scope.declared
  bound : scope.context.get? f = some (.closure closure)
  name : closure.name = some f

/-- What a clause captures is the same whether or not its name was dropped before. -/
theorem erase_entered (scope : LocalScope) (h : declaredName? statement = some f) :
    (scope.entered statement).erase f = scope.context.erase f := by
  rw [entered, shadow, h]
  dsimp only
  split
  · rfl
  · exact Context.erase_erase _ f

theorem get?_entered_of_declared (h : f ∈ scope.declared) (statement : Expr) :
    (scope.entered statement).get? f = scope.context.get? f := by
  rw [entered, get?_shadow, if_neg fun hnew => hnew.2 h]

theorem get?_entered_of_new (h : f ∉ scope.declared) (hname : declaredName? statement = some f) :
    (scope.entered statement).get? f = none := by
  rw [entered, get?_shadow, if_pos ⟨hname, h⟩]

/-- The first clause starts a function, whatever the name is bound to. -/
theorem declare_first (h : f ∉ scope.declared) (hname : clause.name = some f)
    (hfloat : Expr.floatAmong? clause.patterns = none) :
    declare clause (scope.entered (.function clause)) =
      .ok (.closure ⟨some f, [clause], scope.context.erase f⟩) := by
  have hdeclares : declaredName? (.function clause) = some f := hname
  rw [← scope.erase_entered hdeclares]
  apply declare_of_new hname hfloat
  intro closure hget
  rw [get?_entered_of_new h hdeclares] at hget
  cases hget

/-- A further clause joins the function of the block. -/
theorem Owns.declare (h : scope.Owns f closure) (hname : clause.name = some f)
    (hfloat : Expr.floatAmong? clause.patterns = none) :
    Song.declare clause (scope.entered (.function clause)) =
      .ok (.closure (closure.withClause clause)) := by
  refine declare_of_bound hname hfloat ?_ h.name
  rw [get?_entered_of_declared h.declared, h.bound]

theorem mem_declared_after :
    f ∈ (scope.after statement next streams).declared ↔
      f ∈ scope.declared ∨ declaredName? statement = some f :=
  mem_shadow_fst

/-- After its first clause the block owns the function. -/
theorem owns_first (h : f ∉ scope.declared) (hname : clause.name = some f)
    (hrun : execute limit (.function clause) (scope.entered (.function clause)) scope.streams =
      .value (v, next) streams) :
    (scope.after (.function clause) next streams).Owns f
      ⟨some f, [clause], scope.context.erase f⟩ := by
  have hdeclares : declaredName? (.function clause) = some f := hname
  have hbound := execute_first_clause hname (fun closure hget => ?_) hrun
  · rw [erase_entered scope hdeclares] at hbound
    exact ⟨mem_declared_after.2 (Or.inr hname), hbound, rfl⟩
  · rw [get?_entered_of_new h hdeclares] at hget
    cases hget

/-- A statement adds the clause that it declares, and one that does not bind the name leaves the
function as it is. -/
theorem Owns.step (h : scope.Owns f closure)
    (hrun : execute limit statement (scope.entered statement) scope.streams =
      .value (v, next) streams)
    (hstep : (clauseOf? f statement).isSome ∨ ¬v.Binds f) :
    (scope.after statement next streams).Owns f
      { closure with clauses := closure.clauses ++ (clauseOf? f statement).toList } := by
  have hget : (scope.entered statement).get? f = some (.closure closure) := by
    rw [get?_entered_of_declared h.declared, h.bound]
  refine ⟨mem_declared_after.2 (Or.inl h.declared), ?_, h.name⟩
  cases hclause : clauseOf? f statement with
  | some clause =>
    obtain ⟨rfl, hname⟩ := clauseOf?_eq_some hclause
    exact execute_next_clause hname hget h.name hrun
  | none =>
    have hbinds : ¬v.Binds f := by simpa [hclause] using hstep
    have hnext := execute_get? hbinds hrun
    simpa [after, hget] using hnext

end LocalScope

namespace RunsLocally

variable {scope final : LocalScope} {f : String} {steps : List (Expr × Expr)}

theorem mem_declared (h : RunsLocally scope steps final) :
    f ∈ final.declared ↔ f ∈ scope.declared ∨ ∃ step ∈ steps, (clauseOf? f step.1).isSome := by
  induction h with
  | nil => simp
  | cons _ _ ih => simp [ih, LocalScope.mem_declared_after, clauseOf?_isSome, or_assoc]

/-- Statements that do not bind the function of the block leave it as it is. -/
theorem get? (h : RunsLocally scope steps final) (hdeclared : f ∈ scope.declared)
    (hsteps : ∀ step ∈ steps, ¬step.2.Binds f) :
    final.context.get? f = scope.context.get? f := by
  induction h with
  | nil => rfl
  | cons h _ ih =>
    rw [List.forall_mem_cons] at hsteps
    rw [ih (LocalScope.mem_declared_after.2 (Or.inl hdeclared)) hsteps.2, LocalScope.after,
      execute_get? hsteps.1 h, LocalScope.get?_entered_of_declared hdeclared]

/-- The function of a block has the clauses that the block declares, in their order. -/
theorem owns {closure : Closure Expr} (h : RunsLocally scope steps final)
    (howns : scope.Owns f closure)
    (hsteps : ∀ step ∈ steps, (clauseOf? f step.1).isSome ∨ ¬step.2.Binds f) :
    final.Owns f { closure with
      clauses := closure.clauses ++ steps.filterMap fun step => clauseOf? f step.1 } := by
  induction h generalizing closure with
  | nil => simpa using howns
  | @cons scope final limit statement v next streams steps h _ ih =>
    rw [List.forall_mem_cons] at hsteps
    have hfinal := ih (howns.step h hsteps.1) hsteps.2
    cases hclause : clauseOf? f statement <;> simpa [hclause] using hfinal

theorem append {middle : LocalScope} {more : List (Expr × Expr)}
    (h : RunsLocally scope steps middle) (hmore : RunsLocally middle more final) :
    RunsLocally scope (steps ++ more) final := by
  induction h with
  | nil => exact hmore
  | cons h _ ih => exact .cons h (ih hmore)

/-- The clause after some statements of a block, of which the first clause is the first. -/
theorem declare_eq {clause : Clause Expr} (h : RunsLocally scope steps final)
    (hnew : f ∉ scope.declared) (hfirst : ∀ step ∈ steps.head?, (clauseOf? f step.1).isSome)
    (hsteps : ∀ step ∈ steps, (clauseOf? f step.1).isSome ∨ ¬step.2.Binds f)
    (hname : clause.name = some f) (hfloat : Expr.floatAmong? clause.patterns = none) :
    declare clause (final.entered (.function clause)) =
      .ok (.closure ⟨some f, (steps.filterMap fun step => clauseOf? f step.1) ++ [clause],
        scope.context.erase f⟩) := by
  cases h with
  | nil => exact LocalScope.declare_first hnew hname hfloat
  | @cons _ _ _ statement v next streams steps hrun hrest =>
    obtain ⟨first, hclause⟩ := Option.isSome_iff_exists.1 (hfirst _ rfl)
    obtain ⟨rfl, hfirstName⟩ := clauseOf?_eq_some hclause
    rw [List.forall_mem_cons] at hsteps
    have howns := hrest.owns (LocalScope.owns_first hnew hfirstName hrun) hsteps.2
    simpa [hclause, Closure.withClause] using howns.declare hname hfloat

end RunsLocally

section Declaration

variable {clause : Clause Expr} {context : Bindings} {closure : Closure Expr}

theorem evaluate_of_declare (h : declare clause context = .ok (.closure closure))
    (n : Nat) (streams : Streams) :
    evaluate (n + 1) (.function clause) context streams = .value (.closure closure) streams := by
  simp only [evaluate, Reduction.located, Reduction.step, h, Outcome.ofExcept, Outcome.inside]

theorem execute_of_declare {f : String} (h : declare clause context = .ok (.closure closure))
    (hname : closure.name = some f) (n : Nat) (streams : Streams) :
    execute (n + 1) (.function clause) context streams =
      .value (.closure closure, context.insert f (.closure closure)) streams := by
  simp only [execute, evaluate_of_declare h, Outcome.andThen, install, hname, Except.map,
    Outcome.ofExcept]

end Declaration

/-- A function that a block declares, clause by clause among other statements, is the block's own,
whatever its name is bound to outside. Each of its clauses evaluates to the function of the clauses
so far, in their order, which captured what the block had bound before the first of them. If
statements are left the block goes on with the name bound to it, until another statement binds the
name. Otherwise it is the value of the block, also in tail position. -/
theorem block_function_fresh {f : String} {context : Bindings} {streams : Streams}
    {before steps : List (Expr × Expr)} {first here : LocalScope} {clause : Clause Expr}
    (hbefore : RunsLocally (.start context streams) before first)
    (hnone : ∀ step ∈ before, clauseOf? f step.1 = none) (hrun : RunsLocally first steps here)
    (hfirst : ∀ step ∈ steps.head?, (clauseOf? f step.1).isSome)
    (hsteps : ∀ step ∈ steps, (clauseOf? f step.1).isSome ∨ ¬step.2.Binds f)
    (hname : clause.name = some f) (hfloat : Expr.floatAmong? clause.patterns = none) :
    let closure : Closure Expr :=
      ⟨some f, (steps.filterMap fun step => clauseOf? f step.1) ++ [clause],
        first.context.erase f⟩
    let next := here.after (.function clause)
      ((here.entered (.function clause)).insert f (.closure closure)) here.streams
    let done := (before ++ steps).map Prod.fst
    Evaluates (.function clause) (here.entered (.function clause)) here.streams
      (.value (.closure closure) here.streams) ∧
    (∀ rest, rest ≠ [] → ∀ᶠ n in atTop, ∀ last,
      (LocalScope.start context streams).block (evaluate n) last
        (done ++ .function clause :: rest) = next.block (evaluate n) last rest) ∧
    (∀ later final, RunsLocally next later final → (∀ step ∈ later, ¬step.2.Binds f) →
      final.context.get? f = some (.closure closure)) ∧
    Evaluates (.block (done ++ [.function clause])) context streams
      (.value (.closure closure) here.streams) ∧
    ∀ᶠ n in atTop, evaluateTail n (.block (done ++ [.function clause])) context streams =
      .value (.closure closure) here.streams := by
  intro closure next done
  -- no statement before the first clause has made the block drop the name
  have hnew : f ∉ first.declared := by
    rw [hbefore.mem_declared]
    rintro (hstart | ⟨step, hmem, hclause⟩)
    · cases hstart
    · rw [hnone step hmem] at hclause
      cases hclause
  have hdeclare := hrun.declare_eq hnew hfirst hsteps hname hfloat
  have hall := hbefore.append hrun
  have hvalue : Evaluates (.function clause) (here.entered (.function clause)) here.streams
      (.value (.closure closure) here.streams) :=
    ⟨by simp, 1, evaluate_of_declare hdeclare 0 here.streams⟩
  have hlast := hall.block_eq (List.cons_ne_nil (.function clause) [])
  refine ⟨hvalue, ?_, ?_, ?_, ?_⟩
  · intro rest hrest
    have hstep : RunsLocally here [(.function clause, .closure closure)] next :=
      .cons (execute_of_declare hdeclare rfl 0 here.streams) (.nil next)
    have hnext := (hall.append hstep).block_eq hrest
    rw [List.map_append, List.append_assoc] at hnext
    exact hnext
  · intro later final hlater hbinds
    have hdeclared : f ∈ next.declared := LocalScope.mem_declared_after.2 (Or.inr hname)
    rw [hlater.get? hdeclared hbinds]
    exact (Context.get?_insert _ f f _).trans (if_pos rfl)
  · apply Evaluates.of_eventually (by simp)
    apply eventually_of_succ
    filter_upwards [hlast, hvalue.eventually] with n hblock hn
    rw [evaluate_block, hblock, LocalScope.block_singleton, hn]
    rfl
  · have htail : ∀ᶠ n in atTop, evaluateTail n (.function clause)
        (here.entered (.function clause)) here.streams = .value (.closure closure) here.streams :=
      eventually_of_succ hvalue.eventually
    apply eventually_of_succ
    filter_upwards [hlast, htail] with n hblock hn
    rw [evaluateTail_block, hblock, LocalScope.block_singleton, hn]
    rfl

def withOuter : Bindings :=
  onlyGreater.insert "f" (.closure (declaredWith [zeroClause]))

def withOuterAndSeven : Bindings :=
  (Context.empty.insert "n" (.int 7)).mergeFavouring withOuter

/-- The block `Do n = 7, f(n) When n > 1 = n, m = 8, f(_) = f(0) End` has none of the clauses of
the function `f` outside of it. -/
theorem block_function_fresh_withOuter :
    withOuter.get? "f" = some (.closure (declaredWith [zeroClause])) ∧
    Evaluates (.block [.assign (.name "n") (.int 7), .function aboveOneClause,
        .assign (.name "m") (.int 8), .function otherClause]) withOuter (.ofText "")
      (.value (.closure ⟨some "f", [aboveOneClause, otherClause], withOuterAndSeven.erase "f"⟩)
        (.ofText "")) := by
  let captured := withOuterAndSeven.erase "f"
  let own : Expr := .closure ⟨some "f", [aboveOneClause], captured⟩
  let seven : Expr := .assign (.name "n") (.int 7)
  let eight : Expr := .assign (.name "m") (.int 8)
  have hseven : execute 2 seven withOuter (.ofText "") =
      .value (seven, withOuterAndSeven) (.ofText "") := rfl
  have hown : execute 1 (.function aboveOneClause) captured (.ofText "") =
      .value (own, captured.insert "f" own) (.ofText "") := rfl
  have height : execute 2 eight (captured.insert "f" own) (.ofText "") =
      .value (eight, (Context.empty.insert "m" (.int 8)).mergeFavouring
        (captured.insert "f" own)) (.ofText "") := rfl
  have hbefore : RunsLocally (.start withOuter (.ofText "")) [(seven, seven)] _ :=
    .cons hseven (.nil _)
  have hsteps : RunsLocally ⟨[], withOuterAndSeven, .ofText ""⟩
      [(.function aboveOneClause, own), (eight, eight)] _ :=
    .cons hown (.cons height (.nil _))
  have hbinds : ¬eight.Binds "f" := by
    rintro ⟨_, ⟨⟩, hbound⟩
    exact absurd hbound (by decide)
  have hname : otherClause.name = some "f" := rfl
  obtain ⟨-, -, -, hvalue, -⟩ := block_function_fresh hbefore (List.forall_mem_singleton.2 rfl)
    hsteps (fun _ h => by cases h; rfl)
    (List.forall_mem_cons.2 ⟨Or.inl rfl, List.forall_mem_singleton.2 (Or.inr hbinds)⟩) hname rfl
  exact ⟨rfl, hvalue⟩

end Song
