import Song.Matching

/-!
# Declarations

A clause becomes a closure when it is declared, and a statement's value may bind
names when it is installed.
-/
namespace Song

/-- The closure that declares a clause. A named clause joins the closure of its name, which
keeps the context that it captured; otherwise the context is captured without that name. -/
def declare (clause : Clause Expr) (context : Bindings) : Except Cause Expr :=
  match Expr.floatAmong? clause.patterns with
  | some x => .error (.floatPattern x)
  | none =>
    match clause.name with
    | none => .ok (.closure (.ofClause none clause context))
    | some name =>
      match context.get? name with
      | some (.closure existing) =>
        if existing.name = some name then .ok (.closure (existing.withClause clause))
        else .ok (.closure (.ofClause (some name) clause (context.erase name)))
      | _ => .ok (.closure (.ofClause (some name) clause (context.erase name)))

/-- Binds what the value of a statement declares: a named closure its name, an assignment the
names of its target. Any other value binds nothing. -/
def install (value : Expr) (context : Bindings) : Except Cause Bindings :=
  match value with
  | .closure closure =>
    match closure.name with
    | some name => .ok (context.insert name value)
    | none => .ok context
  | .assign target assigned =>
    match Expr.matchPattern target assigned .empty with
    | .ok (some bound) => .ok (bound.mergeFavouring context)
    | .ok none => .error (.signatureMismatch [assigned])
    | .error cause => .error cause
  | _ => .ok context

/-- The name that a statement declares a clause of. -/
def declaredName? : Expr → Option String
  | .function clause => clause.name
  | _ => none

/-- Before the first clause of a name in a block the outer binding of that name is dropped, so
that the block declares a function of its own. `declared` are the names met so far. -/
def shadow (declared : List String) (statement : Expr) (context : Bindings) :
    List String × Bindings :=
  match declaredName? statement with
  | some name =>
    if declared.contains name then (declared, context) else (name :: declared, context.erase name)
  | none => (declared, context)

end Song
