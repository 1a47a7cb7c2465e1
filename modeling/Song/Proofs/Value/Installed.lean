import Song.Proofs.Value.Reachable

/-!
# What a statement binds

Installing looks at the value of a statement only: a function with a name and an
assignment are bound, wherever they come from. Only declarations, names, blocks and
calls that hand on a value of the program can give a value that declares anything.
-/
namespace Song

namespace Outcome

variable {α β : Type} {P : α → Prop} {Q : β → Prop}

def Satisfies (P : α → Prop) (outcome : Outcome α) : Prop :=
  ∀ result streams, outcome = .value result streams → P result

theorem Satisfies.value {result : α} (h : P result) (streams : Streams) :
    (Outcome.value result streams).Satisfies P := by
  rintro _ _ ⟨⟩
  exact h

theorem Satisfies.failure (f : Failure) (streams : Streams) :
    (Outcome.failure f streams : Outcome α).Satisfies P := by
  rintro _ _ ⟨⟩

theorem Satisfies.exhausted : (Outcome.exhausted : Outcome α).Satisfies P := by
  rintro _ _ ⟨⟩

theorem Satisfies.ofExcept {result : Except Cause α} (h : ∀ a, result = .ok a → P a)
    (streams : Streams) : (Outcome.ofExcept result streams).Satisfies P := by
  cases result with
  | error cause => exact .failure _ _
  | ok a => exact .value (h a rfl) streams

theorem Satisfies.andThen {outcome : Outcome α} {next : α → Streams → Outcome β}
    (h : outcome.Satisfies P) (hn : ∀ a streams, P a → (next a streams).Satisfies Q) :
    (outcome.andThen next).Satisfies Q := by
  cases outcome with
  | exhausted => exact .exhausted
  | failure f streams => exact .failure f streams
  | value a streams => exact hn a streams (h a streams rfl)

/-- Nothing has to be known of the first value. -/
theorem satisfies_andThen {outcome : Outcome α} {next : α → Streams → Outcome β}
    (hn : ∀ a streams, (next a streams).Satisfies Q) : (outcome.andThen next).Satisfies Q :=
  Satisfies.andThen (P := fun _ => True) (fun _ _ _ => trivial) fun a streams _ => hn a streams

theorem Satisfies.located {P : Expr → Prop} {outcome : Outcome Expr} (h : outcome.Satisfies P)
    (e : Expr) : (Reduction.located e outcome).Satisfies P := by
  cases outcome with
  | exhausted => cases e <;> exact .exhausted
  | failure f streams => cases e <;> exact .failure _ _
  | value v streams => cases e <;> exact h

end Outcome

namespace Expr

/-- Values that declare nothing by their form; a deferred call is no value. -/
def IsPlain : Expr → Prop
  | closure c => c.name = none
  | assign .. | deferred .. => False
  | _ => True

def declarations (value : Expr) : Except Cause Bindings :=
  match value with
  | closure c =>
    match c.name with
    | some n => .ok (Context.empty.insert n value)
    | none => .ok .empty
  | assign target assigned =>
    match matchPattern target assigned .empty with
    | .ok (some bound) => .ok bound
    | .ok none => .error (.signatureMismatch [assigned])
    | .error cause => .error cause
  | _ => .ok .empty

end Expr

theorem install_eq_map (value : Expr) (context : Bindings) :
    install value context = value.declarations.map fun bound => bound.mergeFavouring context := by
  cases value with
  | closure c =>
    simp only [install, Expr.declarations]
    cases c.name <;> rfl
  | assign target assigned =>
    simp only [install, Expr.declarations]
    cases Expr.matchPattern target assigned .empty with
    | error cause => rfl
    | ok bound => cases bound <;> rfl
  | _ => rfl

/-- Installing merges bindings into the context. -/
theorem exists_mergeFavouring_of_install {value : Expr} {context next : Bindings}
    (h : install value context = .ok next) :
    ∃ bound : Bindings, next = bound.mergeFavouring context := by
  rw [install_eq_map] at h
  cases hd : value.declarations with
  | error cause => simp [hd, Except.map] at h
  | ok bound =>
    simp only [hd, Except.map, Except.ok.injEq] at h
    exact ⟨bound, h.symm⟩

theorem install_isPlain {value : Expr} (h : value.IsPlain) (context : Bindings) :
    install value context = .ok context := by
  cases value with
  | closure c =>
    have hname : c.name = none := h
    simp only [install, hname]
  | assign => cases h
  | _ => rfl

theorem resume_isPlain {value : Expr} (h : value.IsPlain) (limit : Nat)
    (streams : Streams) : (resume limit value streams).Satisfies Expr.IsPlain := by
  cases limit with
  | zero => exact .exhausted
  | succ limit =>
    cases value with
    | deferred => cases h
    | _ => exact .value h streams

namespace BuiltIn

/-- Whether the value is that of an argument, whatever it is. -/
def handsOn : BuiltIn → Bool
  | writeOut | writeErr => true
  | _ => false

private def Plain (result : Except Cause Expr) : Prop :=
  ∀ v, result = .ok v → v.IsPlain

private theorem Plain.ok {v : Expr} (h : v.IsPlain) : Plain (.ok v) := by
  rintro _ ⟨⟩
  exact h

private theorem Plain.error (cause : Cause) : Plain (.error cause) := by
  rintro _ ⟨⟩

private theorem Plain.bind {α : Type} {first : Except Cause α} {next : α → Except Cause Expr}
    (h : ∀ a, Plain (next a)) : Plain (first >>= next) := by
  cases first with
  | error cause => exact .error cause
  | ok a => exact h a

private theorem Plain.map {α : Type} {first : Except Cause α} {f : α → Expr}
    (h : ∀ a, (f a).IsPlain) : Plain (first.map f) := by
  cases first with
  | error cause => exact .error cause
  | ok a => exact .ok (h a)

private theorem Plain.ofNumeric (result : Except NumericError Number) :
    Plain (BuiltIn.ofNumeric result) := by
  cases result with
  | error e => exact .error _
  | ok n => exact .ok trivial

private theorem Plain.binary (operation : Number → Number → Except NumericError Number)
    (a b : Expr) : Plain (BuiltIn.binary operation a b) :=
  .bind fun m => .bind fun n => .ofNumeric (operation m n)

private theorem Plain.unary (operation : Number → Except NumericError Number) (a : Expr) :
    Plain (BuiltIn.unary operation a) :=
  .bind fun n => .ofNumeric (operation n)

private theorem Plain.floatFunction (f : Float → Float) (a : Expr) :
    Plain (BuiltIn.floatFunction f a) :=
  .bind fun _ => .ok trivial

private theorem Plain.plus (a b : Expr) : Plain (BuiltIn.plus a b) := by
  rw [BuiltIn.plus.eq_def]
  split
  · exact .ok trivial
  · exact .binary _ _ _

private theorem Plain.ordered (accept : Ordering → Bool) (a b : Expr) :
    Plain (BuiltIn.ordered accept a b) :=
  .bind fun _ => .ok trivial

private theorem Plain.toNumberValue (a : Expr) : Plain (BuiltIn.toNumberValue a) := by
  rw [BuiltIn.toNumberValue.eq_def]
  split
  · exact .ok trivial
  · split
    · exact .ok trivial
    · exact .error _

private theorem toTextValue_isPlain (a : Expr) : (BuiltIn.toTextValue a).IsPlain := by
  rw [BuiltIn.toTextValue]
  split
  case h_1 htext => cases a <;> trivial
  case h_2 => trivial

private theorem Plain.toCharacterValue (a : Expr) : Plain (BuiltIn.toCharacterValue a) := by
  rw [BuiltIn.toCharacterValue.eq_def]
  split
  · split
    · exact .ok trivial
    · exact .error _
  · exact .error _
  · exact .ok trivial
  · exact .error _

private theorem Plain.toScalarValue (a : Expr) : Plain (BuiltIn.toScalarValue a) :=
  .bind fun _ => .ok trivial

theorem result_isPlain (b : BuiltIn) (args : List Expr) :
    ∀ v, b.result args = .ok v → v.IsPlain := by
  change Plain (b.result args)
  rw [BuiltIn.result.eq_def]
  split
  · exact .plus _ _
  · exact .unary _ _
  iterate 7 exact .binary _ _ _
  iterate 4 exact .ordered _ _ _
  iterate 3 exact .map fun _ => trivial
  · exact .toNumberValue _
  · exact .ok (toTextValue_isPlain _)
  · exact .toCharacterValue _
  · exact .toScalarValue _
  · exact .map fun _ => trivial
  iterate 9 exact .floatFunction _ _
  · exact .error _

theorem takeLine_isPlain (streams : Streams) :
    (takeLine streams).Satisfies Expr.IsPlain := by
  rw [takeLine]
  split
  · exact .value trivial _
  · exact .value trivial _
  · exact .failure _ _

theorem meaning_isPlain {b : BuiltIn} (h : b.handsOn = false) (args : List Expr)
    (streams : Streams) : (b.meaning args streams).Satisfies Expr.IsPlain := by
  rw [BuiltIn.meaning.eq_def]
  split
  · exact takeLine_isPlain _
  · exact takeLine_isPlain _
  · cases h
  · cases h
  · exact .ofExcept (result_isPlain _ _) streams

end BuiltIn

open Outcome (satisfies_andThen)

theorem callBuiltIn_isPlain {b : BuiltIn} (h : b.handsOn = false) (eval : Reduction)
    (args : List Expr) (context : Bindings) (streams : Streams) :
    (Reduction.callBuiltIn eval b args context streams).Satisfies Expr.IsPlain := by
  rw [Reduction.callBuiltIn.eq_def]
  split
  · exact .failure _ _
  · split
    · apply satisfies_andThen
      intro holds streams
      split
      · exact satisfies_andThen fun holds streams => .value trivial streams
      · exact .value trivial streams
    · apply satisfies_andThen
      intro holds streams
      split
      · exact .value trivial streams
      · exact satisfies_andThen fun holds streams => .value trivial streams
    · apply satisfies_andThen
      intro values streams
      exact BuiltIn.meaning_isPlain h values streams

/-- Whether the statement may give any value that the program has at hand: that of a name, of
the last statement of a block, of the body of a function or of an argument. -/
def Expr.handsOn (context : Bindings) : Expr → Bool
  | .name _ | .block _ | .apply .. => true
  | .call callee _ =>
    match context.get? callee with
    | some (.builtIn b) => b.handsOn
    | _ => true
  | _ => false

theorem declare_isPlain {clause : Clause Expr} (h : clause.name = none) (context : Bindings) :
    ∀ v, declare clause context = .ok v → v.IsPlain := by
  intro v hv
  rw [declare] at hv
  split at hv
  · cases hv
  · rw [h] at hv
    cases hv
    rfl

/-- Statements that hand nothing on and declare nothing give values that declare nothing. -/
theorem evaluate_isPlain {statement : Expr} {context : Bindings}
    (hg : Grammatical .statement statement) (hd : statement.isDeclaration = false)
    (hh : statement.handsOn context = false) (limit : Nat) (streams : Streams) :
    (evaluate limit statement context streams).Satisfies Expr.IsPlain := by
  cases limit with
  | zero => exact .exhausted
  | succ limit =>
    refine .located ?_ statement
    cases statement with
    | bool | number | char | wildcard | builtIn => exact .value trivial streams
    | list items =>
      rw [Reduction.step]
      split
      · exact .value trivial streams
      · exact satisfies_andThen fun values streams => .value trivial streams
    | cons heads tail =>
      apply satisfies_andThen
      intro values streams
      apply satisfies_andThen
      intro tail streams
      split
      · exact .value trivial streams
      · exact .failure _ _
    | function clause =>
      exact .ofExcept (declare_isPlain (by simpa [Expr.isDeclaration] using hd) _) _
    | call callee args =>
      simp only [Expr.handsOn] at hh
      split at hh
      case h_1 b hb =>
        simp only [Reduction.step, hb]
        exact (callBuiltIn_isPlain hh _ args context streams).andThen fun result streams hresult =>
          resume_isPlain hresult limit streams
      case h_2 => cases hh
    | assign => cases hd
    | name | block | apply => cases hh
    | closure | deferred =>
      cases hg with
      | expression h => cases h

/-- What holds of the built-in functions and is kept by installing holds of every context that
programs reach. -/
theorem Reachable.of_install {P : Bindings → Prop} (hstart : P BuiltIn.startingContext)
    (hinstall : ∀ v context next, P context → install v context = .ok next → P next)
    {context : Bindings} (h : Reachable context) : P context :=
  h.of_execute hstart fun _ hc he => hinstall _ _ _ hc (execute_eq_value he).2

theorem install_ordered (v : Expr) (context next : Bindings) (hc : context.Ordered)
    (h : install v context = .ok next) : next.Ordered := by
  obtain ⟨bound, rfl⟩ := exists_mergeFavouring_of_install h
  exact hc.mergeFavouring bound

theorem startingContext_ordered : BuiltIn.startingContext.Ordered :=
  Context.ordered_ofList _

theorem Reachable.ordered {context : Bindings} (h : Reachable context) : context.Ordered :=
  h.of_install startingContext_ordered install_ordered

theorem Expr.IsParsed.of_toOption {source : String} {program : List Expr} {statement : Expr}
    (h : (parseProgram source).toOption = some program) (hmem : statement ∈ program) :
    statement.IsParsed :=
  ⟨source, program, parseProgram_of_toOption h, hmem⟩

end Song
