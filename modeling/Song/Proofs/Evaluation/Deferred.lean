import Song.Proofs.Evaluation.Parametric

/-!
# Expressions without deferred calls

Deferred calls are marks that evaluation leaves for itself. Expressions that hold
none, neither in their parts nor in what their closures captured, form an
invariant together with the values that hold none.
-/
namespace Song

/-- No part of the expression is a deferred call, also not in the clauses of a closure or in the
context that it captured. -/
inductive Expr.NoDeferred : Expr → Prop
  | bool (b : Bool) : NoDeferred (.bool b)
  | number (n : Number) : NoDeferred (.number n)
  | char (c : Char) : NoDeferred (.char c)
  | list {items : List Expr} (h : ∀ e ∈ items, NoDeferred e) : NoDeferred (.list items)
  | cons {heads : List Expr} {tail : Expr} (hh : ∀ e ∈ heads, NoDeferred e)
    (ht : NoDeferred tail) : NoDeferred (.cons heads tail)
  | wildcard : NoDeferred .wildcard
  | name (n : String) : NoDeferred (.name n)
  | function {clause : Clause Expr} (hp : ∀ p ∈ clause.patterns, NoDeferred p)
    (hg : NoDeferred clause.guard) (hb : NoDeferred clause.body) : NoDeferred (.function clause)
  | assign {target value : Expr} (ht : NoDeferred target) (hv : NoDeferred value) :
    NoDeferred (.assign target value)
  | closure {c : Closure Expr} (hp : ∀ clause ∈ c.clauses, ∀ p ∈ clause.patterns, NoDeferred p)
    (hg : ∀ clause ∈ c.clauses, NoDeferred clause.guard)
    (hb : ∀ clause ∈ c.clauses, NoDeferred clause.body)
    (hc : ∀ binding ∈ c.captured.bindings, NoDeferred binding.2) : NoDeferred (.closure c)
  | block {statements : List Expr} (h : ∀ e ∈ statements, NoDeferred e) :
    NoDeferred (.block statements)
  | call {callee : String} {args : List Expr} (h : ∀ e ∈ args, NoDeferred e) :
    NoDeferred (.call callee args)
  | apply {target : Expr} {args : List Expr} (ht : NoDeferred target)
    (h : ∀ e ∈ args, NoDeferred e) : NoDeferred (.apply target args)
  | builtIn (b : BuiltIn) : NoDeferred (.builtIn b)

namespace Expr.NoDeferred

private theorem ofClause {name : Option String} {clause : Clause Expr} {context : Bindings}
    (h : NoDeferred (.function clause)) (hc : context.All NoDeferred) :
    NoDeferred (.closure (.ofClause name clause context)) := by
  cases h with
  | function hp hg hb =>
    refine .closure ?_ ?_ ?_ hc <;> intro other hmem <;> cases List.mem_singleton.1 hmem
    · exact hp
    · exact hg
    · exact hb

private theorem withClause {c : Closure Expr} {clause : Clause Expr}
    (hc : NoDeferred (.closure c)) (h : NoDeferred (.function clause)) :
    NoDeferred (.closure (c.withClause clause)) := by
  cases h with
  | function hp hg hb =>
    cases hc with
    | closure hps hgs hbs hcaptured =>
      refine .closure ?_ ?_ ?_ hcaptured <;> intro other hmem <;>
        rcases List.mem_append.1 hmem with hmem | hmem
      · exact hps other hmem
      · cases List.mem_singleton.1 hmem
        exact hp
      · exact hgs other hmem
      · cases List.mem_singleton.1 hmem
        exact hg
      · exact hbs other hmem
      · cases List.mem_singleton.1 hmem
        exact hb

theorem declared {clause : Clause Expr} {context : Bindings} {v : Expr}
    (h : NoDeferred (.function clause)) (hc : context.All NoDeferred)
    (hv : declare clause context = .ok v) : NoDeferred v := by
  rw [declare] at hv
  split at hv
  · cases hv
  · split at hv
    · cases hv
      exact ofClause h hc
    · split at hv
      case h_1 existing hexisting =>
        split at hv <;> cases hv
        · exact withClause (hc.get? hexisting) h
        · exact ofClause h (hc.erase _)
      case h_2 =>
        cases hv
        exact ofClause h (hc.erase _)

theorem invariant : Invariant NoDeferred NoDeferred where
  bool := .bool
  number := .number
  char := .char
  list := .list
  items h := by cases h; assumption
  wildcard h := h
  closure h := h
  builtIn h := h
  assign h hv := by
    cases h with
    | assign ht _ => exact .assign ht hv
  assigned h := by cases h; assumption
  declared := declared
  captured h := by
    cases h with
    | closure _ _ _ hc => exact hc
  guard h hmem := by
    cases h with
    | closure _ hg _ _ => exact hg _ hmem
  body h hmem := by
    cases h with
    | closure _ _ hb _ => exact hb _ hmem
  listItems h := by cases h; assumption
  heads h := by cases h; assumption
  tail h := by cases h; assumption
  assignment h := by cases h; assumption
  statements h := by cases h; assumption
  callArgs h := by cases h; assumption
  target h := by cases h; assumption
  applyArgs h := by cases h; assumption

end Expr.NoDeferred

/-- A value that is no deferred call is what resuming it gives. -/
theorem resume_noDeferred {v : Expr} (hv : v.NoDeferred) (limit : Nat) (streams : Streams) :
    resume (limit + 1) v streams = .value v streams := by
  cases hv <;> rfl

end Song
