import Song.Library
import Song.Proofs.Grammar.RoundTrip
import Song.Proofs.Value

/-!
# The contexts that programs reach

Programs start with the built-in functions, with or without the library, and each
statement of a program is executed in the context that those before it left. All
values that are bound or given on the way are value forms.
-/
namespace Song

/-- The expression is a statement of some program. -/
def Expr.IsParsed (statement : Expr) : Prop :=
  ∃ source program, parseProgram source = .ok program ∧ statement ∈ program

/-- The contexts in which statements of programs can come to be executed. -/
inductive Reachable : Bindings → Prop
  | builtIns : Reachable BuiltIn.startingContext
  | library : Reachable Library.startup
  | execute {context next : Bindings} {statement v : Expr} {limit : Nat} {streams after : Streams}
    (h : Reachable context) (hs : statement.IsParsed)
    (he : execute limit statement context streams = .value (v, next) after) : Reachable next

theorem Expr.IsParsed.grammatical {statement : Expr} (h : statement.IsParsed) :
    Grammatical .statement statement := by
  obtain ⟨source, program, hparse, hmem⟩ := h
  exact parseProgram_grammatical hparse statement hmem

/-- Most statements of the grammar are in some program: that of their own text. -/
theorem Expr.IsParsed.of_grammatical {statement : Expr} (h : Grammatical .statement statement)
    (hu : statement.IsUnambiguous) : statement.IsParsed :=
  ⟨statement.render, [statement], parseProgram_render h hu, List.mem_singleton_self _⟩

/-- Executing evaluates and installs. -/
theorem execute_eq_value {limit : Nat} {statement v : Expr} {context next : Bindings}
    {streams after : Streams}
    (h : execute limit statement context streams = .value (v, next) after) :
    evaluate limit statement context streams = .value v after ∧
      install v context = .ok next := by
  rw [execute] at h
  cases hv : evaluate limit statement context streams with
  | exhausted => simp [hv, Outcome.andThen] at h
  | failure f streams => simp [hv, Outcome.andThen] at h
  | value result final =>
    rw [hv] at h
    cases hi : install result context with
    | error cause => simp [hi, Outcome.andThen, Except.map, Outcome.ofExcept, Outcome.fail] at h
    | ok installed =>
      simp only [hi, Outcome.andThen, Except.map, Outcome.ofExcept, Outcome.value.injEq,
        Prod.mk.injEq] at h
      obtain ⟨⟨rfl, rfl⟩, rfl⟩ := h
      exact ⟨rfl, hi⟩

/-- Executing a grammatical statement leaves sound values. -/
theorem execute_isSoundValue {limit : Nat} {statement v : Expr} {context next : Bindings}
    {streams after : Streams} (hs : Grammatical .statement statement)
    (hc : context.All Expr.IsSoundValue)
    (h : execute limit statement context streams = .value (v, next) after) :
    next.All Expr.IsSoundValue := by
  obtain ⟨hv, hi⟩ := execute_eq_value h
  exact install_isSoundValue (evaluate_isSoundValue hs hc hv) hc hi

namespace Library

theorem statements_grammatical : ∀ s ∈ statements, Grammatical .statement s := by
  intro s hs
  obtain ⟨lines, -, hs⟩ := List.mem_flatMap.1 hs
  rw [statementsOf] at hs
  split at hs
  case h_1 parsed hparsed =>
    exact Grammar.readAll_property Grammar.program_yields hparsed s hs
  case h_2 => cases hs

end Library

/-- What holds of the built-in functions and is kept by every statement of the grammar holds of
every context that programs reach. -/
theorem Reachable.of_execute {P : Bindings → Prop} (hstart : P BuiltIn.startingContext)
    (hexecute : ∀ {context next : Bindings} {statement v : Expr} {limit : Nat}
      {streams after : Streams}, Grammatical .statement statement → P context →
        Song.execute limit statement context streams = .value (v, next) after → P next)
    {context : Bindings} (h : Reachable context) : P context := by
  have declared (program : List Expr) (hs : ∀ s ∈ program, Grammatical .statement s)
      (context : Bindings) (hc : P context) : P (program.foldl Library.declareIn context) := by
    induction program generalizing context with
    | nil => exact hc
    | cons s rest ih =>
      obtain ⟨hfirst, hrest⟩ := List.forall_mem_cons.1 hs
      apply ih hrest _
      rw [Library.declareIn]
      split
      case h_1 he => exact hexecute hfirst hc he
      case h_2 => exact hc
  induction h with
  | builtIns => exact hstart
  | library =>
    rw [Library.startup, Library.load]
    exact declared Library.statements Library.statements_grammatical _ hstart
  | execute _ hs he ih => exact hexecute hs.grammatical ih he

theorem Reachable.isSoundValue {context : Bindings} (h : Reachable context) :
    context.All Expr.IsSoundValue :=
  h.of_execute startingContext_isSoundValue execute_isSoundValue

/-- Whatever a program binds is a value form, so is whatever a statement of it gives, and value
forms evaluate to themselves and leave the streams alone. -/
theorem reachable_isValue {context : Bindings} (h : Reachable context) :
    context.All (Expr.IsValue Clause.IsGrammatical) ∧
    (∀ statement limit streams v after, statement.IsParsed →
      evaluate limit statement context streams = .value v after →
        v.IsValue Clause.IsGrammatical) ∧
    ∀ v, v.IsValue Clause.IsGrammatical → ∀ other streams, ∃ least, ∀ limit ≥ least,
      evaluate limit v other streams = .value v streams := by
  refine ⟨h.isSoundValue.mono fun _ hv => hv.1, ?_, ?_⟩
  · intro statement limit streams v after hs hv
    exact (evaluate_isSoundValue hs.grammatical h.isSoundValue hv).1
  · intro v hv other streams
    exact Filter.eventually_atTop.1 (hv.evaluate_eventually other streams)

def identityClause : Clause Expr :=
  ⟨some "f", [.name "n"], .bool true, .name "n"⟩

def identity : Expr :=
  .closure (.ofClause (some "f") identityClause (BuiltIn.startingContext.erase "f"))

def withIdentity : Bindings :=
  BuiltIn.startingContext.insert "f" identity

theorem withIdentity_reachable : Reachable withIdentity := by
  have hf : IsIdentifier "f" := ⟨rfl, 'f', [], rfl, rfl, nofun⟩
  have hn : Grammatical .expression (.name "n") := .name ⟨rfl, 'n', [], rfl, rfl, nofun⟩
  have hgrammatical : Grammatical .statement (.function identityClause) :=
    .function (Or.inl hf) (by simpa using hn) rfl (.bool true) hn
  have hname : (Expr.name "n").IsUnambiguous := .intro rfl (List.forall_mem_nil _)
  have htrue : (Expr.bool true).IsUnambiguous := .intro rfl (List.forall_mem_nil _)
  have hparts : ∀ part ∈ (Expr.function identityClause).parts, part.IsUnambiguous := by
    simpa [identityClause, Expr.parts, Clause.parts] using ⟨hname, htrue, hname⟩
  have hparsed : Expr.IsParsed (.function identityClause) :=
    .of_grammatical hgrammatical (.intro rfl hparts)
  have hnew : BuiltIn.startingContext.get? "f" = none := get?_startingContext_eq_none (by decide)
  have hexecute : execute 1 (.function identityClause) BuiltIn.startingContext (.ofText "") =
      .value (identity, withIdentity) (.ofText "") := by
    simp only [execute, evaluate, Reduction.located, Reduction.step, declare, identityClause, hnew]
    rfl
  exact .execute .builtIns hparsed hexecute

theorem reachable_isValue_withIdentity :
    Reachable withIdentity ∧ withIdentity.All (Expr.IsValue Clause.IsGrammatical) ∧
    (∀ statement limit streams v after, statement.IsParsed →
      evaluate limit statement withIdentity streams = .value v after →
        v.IsValue Clause.IsGrammatical) ∧
    ∀ v, v.IsValue Clause.IsGrammatical → ∀ other streams, ∃ least, ∀ limit ≥ least,
      evaluate limit v other streams = .value v streams :=
  ⟨withIdentity_reachable, reachable_isValue withIdentity_reachable⟩

end Song
