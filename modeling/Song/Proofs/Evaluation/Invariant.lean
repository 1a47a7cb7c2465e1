import Song.Evaluation
import Song.Proofs.Context

/-!
# Classes of expressions and values that evaluation keeps to

A class of source expressions and a class of values form an invariant if the parts
of source expressions are source expressions, values are built of values, and a
declaration gives a value. Every operation that evaluation uses on values then
keeps to the class of values.
-/
namespace Song

/-- The conditions under which evaluating `source` expressions in contexts of `value`s meets
no other source expressions and no other values. -/
structure Invariant (source value : Expr → Prop) : Prop where
  bool (b : Bool) : value (.bool b)
  number (n : Number) : value (.number n)
  char (c : Char) : value (.char c)
  list {items : List Expr} (h : ∀ v ∈ items, value v) : value (.list items)
  items {items : List Expr} (h : value (.list items)) : ∀ v ∈ items, value v
  wildcard (h : source .wildcard) : value .wildcard
  closure {c : Closure Expr} (h : source (.closure c)) : value (.closure c)
  builtIn {b : BuiltIn} (h : source (.builtIn b)) : value (.builtIn b)
  assign {target e v : Expr} (h : source (.assign target e)) (hv : value v) :
    value (.assign target v)
  assigned {target v : Expr} (h : value (.assign target v)) : value v
  declared {clause : Clause Expr} {context : Bindings} {v : Expr} (h : source (.function clause))
    (hc : context.All value) (hv : declare clause context = .ok v) : value v
  captured {c : Closure Expr} (h : value (.closure c)) : c.captured.All value
  guard {c : Closure Expr} {clause : Clause Expr} (h : value (.closure c))
    (hc : clause ∈ c.clauses) : source clause.guard
  body {c : Closure Expr} {clause : Clause Expr} (h : value (.closure c))
    (hc : clause ∈ c.clauses) : source clause.body
  listItems {items : List Expr} (h : source (.list items)) : ∀ e ∈ items, source e
  heads {heads : List Expr} {tail : Expr} (h : source (.cons heads tail)) : ∀ e ∈ heads, source e
  tail {heads : List Expr} {tail : Expr} (h : source (.cons heads tail)) : source tail
  assignment {target e : Expr} (h : source (.assign target e)) : source e
  statements {es : List Expr} (h : source (.block es)) : ∀ e ∈ es, source e
  callArgs {callee : String} {args : List Expr} (h : source (.call callee args)) :
    ∀ e ∈ args, source e
  target {target : Expr} {args : List Expr} (h : source (.apply target args)) : source target
  applyArgs {target : Expr} {args : List Expr} (h : source (.apply target args)) :
    ∀ e ∈ args, source e

/-- All expressions and all values. -/
theorem Invariant.trivial : Invariant (fun _ => True) (fun _ => True) := by
  constructor <;> intros <;> first | exact True.intro | exact fun _ _ => True.intro

namespace Invariant

/-- Two invariants hold together. -/
theorem inter {source source' value value' : Expr → Prop} (I : Invariant source value)
    (J : Invariant source' value') :
    Invariant (fun e => source e ∧ source' e) (fun v => value v ∧ value' v) where
  bool b := ⟨I.bool b, J.bool b⟩
  number n := ⟨I.number n, J.number n⟩
  char c := ⟨I.char c, J.char c⟩
  list h := ⟨I.list fun v hv => (h v hv).1, J.list fun v hv => (h v hv).2⟩
  items h v hv := ⟨I.items h.1 v hv, J.items h.2 v hv⟩
  wildcard h := ⟨I.wildcard h.1, J.wildcard h.2⟩
  closure h := ⟨I.closure h.1, J.closure h.2⟩
  builtIn h := ⟨I.builtIn h.1, J.builtIn h.2⟩
  assign h hv := ⟨I.assign h.1 hv.1, J.assign h.2 hv.2⟩
  assigned h := ⟨I.assigned h.1, J.assigned h.2⟩
  declared h hc hv := ⟨I.declared h.1 (hc.mono fun _ h => h.1) hv,
    J.declared h.2 (hc.mono fun _ h => h.2) hv⟩
  captured h b hb := ⟨I.captured h.1 b hb, J.captured h.2 b hb⟩
  guard h hc := ⟨I.guard h.1 hc, J.guard h.2 hc⟩
  body h hc := ⟨I.body h.1 hc, J.body h.2 hc⟩
  listItems h e he := ⟨I.listItems h.1 e he, J.listItems h.2 e he⟩
  heads h e he := ⟨I.heads h.1 e he, J.heads h.2 e he⟩
  tail h := ⟨I.tail h.1, J.tail h.2⟩
  assignment h := ⟨I.assignment h.1, J.assignment h.2⟩
  statements h e he := ⟨I.statements h.1 e he, J.statements h.2 e he⟩
  callArgs h e he := ⟨I.callArgs h.1 e he, J.callArgs h.2 e he⟩
  target h := ⟨I.target h.1, J.target h.2⟩
  applyArgs h e he := ⟨I.applyArgs h.1 e he, J.applyArgs h.2 e he⟩

variable {source value : Expr → Prop}

mutual
/-- What a pattern binds are parts of the value. -/
theorem matchPattern_all (hlist : ∀ items, value (.list items) ↔ ∀ v ∈ items, value v)
    (pattern v : Expr) (bound : Bindings) {result : Bindings} (hv : value v) (hb : bound.All value)
    (h : Expr.matchPattern pattern v bound = .ok (some result)) : result.All value := by
  match pattern with
  | .wildcard =>
    cases h
    exact hb
  | .name n =>
    rw [Expr.matchPattern] at h
    split at h
    · cases h
    · split at h <;> cases h
      exact hb
    · cases h
      exact hb.insert n hv
  | .cons heads tail =>
    rw [Expr.matchPattern] at h
    cases v <;> try cases h
    case list items =>
      simp only [Expr.items?] at h
      split at h
      · cases h
      · split at h
        case h_1 inner hinner =>
          have hdrop : ∀ v ∈ items.drop heads.length, value v :=
            fun v hmem => (hlist items).1 hv v (List.mem_of_mem_drop hmem)
          have hbound := matchItems_all hlist heads items bound ((hlist items).1 hv) hb hinner
          exact matchPattern_all hlist tail _ inner ((hlist _).2 hdrop) hbound h
        case h_2 other => exact (other result h).elim
  | .list patterns =>
    rw [Expr.matchPattern] at h
    cases v <;> try cases h
    case list items =>
      simp only [Expr.items?] at h
      split at h
      · exact matchItems_all hlist patterns items bound ((hlist items).1 hv) hb h
      · cases h
  | .number (.float x) => cases h
  | .number (.int i) | .bool _ | .char _ | .function _ | .assign .. | .closure _ | .block _
  | .call .. | .apply .. | .deferred .. | .builtIn _ =>
    simp only [Expr.matchPattern, Except.ok.injEq] at h
    split at h <;> cases h
    exact hb
termination_by structural pattern

theorem matchItems_all (hlist : ∀ items, value (.list items) ↔ ∀ v ∈ items, value v)
    (patterns values : List Expr) (bound : Bindings) {result : Bindings}
    (hv : ∀ v ∈ values, value v) (hb : bound.All value)
    (h : Expr.matchItems patterns values bound = .ok (some result)) : result.All value := by
  match patterns with
  | [] =>
    cases h
    exact hb
  | pattern :: patterns =>
    match values with
    | [] => cases h
    | v :: values =>
      rw [Expr.matchItems] at h
      split at h
      case h_1 inner hinner =>
        have hbound := matchPattern_all hlist pattern v bound (hv v List.mem_cons_self) hb hinner
        have hrest : ∀ w ∈ values, value w := fun w hw => hv w (List.mem_cons_of_mem _ hw)
        exact matchItems_all hlist patterns values inner hrest hbound h
      case h_2 other => exact (other result h).elim
termination_by structural patterns
end

variable (I : Invariant source value)

include I

theorem list_iff (items : List Expr) : value (.list items) ↔ ∀ v ∈ items, value v :=
  ⟨I.items, I.list⟩

theorem matchParameters_all {patterns args : List Expr} {result : Bindings}
    (hargs : ∀ v ∈ args, value v)
    (h : Expr.matchParameters patterns args = .ok (some result)) : result.All value := by
  rw [Expr.matchParameters] at h
  split at h
  · exact matchItems_all I.list_iff patterns args .empty hargs Context.all_empty h
  · cases h

theorem install_all {v : Expr} {context result : Bindings} (hv : value v)
    (hc : context.All value) (h : install v context = .ok result) : result.All value := by
  cases v <;> try (cases h; exact hc)
  case closure c =>
    simp only [install] at h
    split at h <;> cases h
    · exact hc.insert _ hv
    · exact hc
  case assign target assigned =>
    simp only [install] at h
    split at h <;> cases h
    case h_1 bound hbound =>
      exact (matchPattern_all I.list_iff target assigned .empty (I.assigned hv) Context.all_empty
        hbound).mergeFavouring hc

omit I in
theorem shadow_all {context : Bindings} (hc : context.All value) (declared : List String)
    (statement : Expr) : (shadow declared statement context).2.All value := by
  rw [shadow]
  split
  · split
    · exact hc
    · exact hc.erase _
  · exact hc

theorem bodyContext_all {c : Closure Expr} {parameters : Bindings} (hc : value (.closure c))
    (hp : parameters.All value) : (c.bodyContext parameters).All value := by
  rw [Closure.bodyContext]
  apply hp.mergeFavouring
  split
  · exact (I.captured hc).insert _ hc
  · exact I.captured hc

theorem text (chars : List Char) : value (.text chars) := by
  apply I.list
  intro v hv
  obtain ⟨c, -, rfl⟩ := List.mem_map.1 hv
  exact I.char c

private theorem ofNumeric_value {result : Except NumericError Number} {v : Expr}
    (h : BuiltIn.ofNumeric result = .ok v) : value v := by
  cases result <;> cases h
  exact I.number _

private theorem binary_value {operation : Number → Number → Except NumericError Number}
    {a b v : Expr} (h : BuiltIn.binary operation a b = .ok v) : value v := by
  cases ha : BuiltIn.asNumber a <;> cases hb : BuiltIn.asNumber b <;>
    simp only [BuiltIn.binary, ha, hb, bind, Except.bind, reduceCtorEq] at h
  exact I.ofNumeric_value h

private theorem unary_value {operation : Number → Except NumericError Number}
    {a v : Expr} (h : BuiltIn.unary operation a = .ok v) : value v := by
  cases ha : BuiltIn.asNumber a <;>
    simp only [BuiltIn.unary, ha, bind, Except.bind, reduceCtorEq] at h
  exact I.ofNumeric_value h

private theorem floatFunction_value {f : Float → Float} {a v : Expr}
    (h : BuiltIn.floatFunction f a = .ok v) : value v := by
  cases ha : BuiltIn.asNumber a <;>
    simp only [BuiltIn.floatFunction, ha, bind, Except.bind, pure, Except.pure, reduceCtorEq,
      Except.ok.injEq] at h
  subst h
  exact I.number _

private theorem plus_value {a b v : Expr} (ha : value a) (hb : value b)
    (h : BuiltIn.plus a b = .ok v) : value v := by
  rw [BuiltIn.plus.eq_def] at h
  split at h
  · cases h
    apply I.list
    intro v hv
    rcases List.mem_append.1 hv with hv | hv
    · exact I.items ha v hv
    · exact I.items hb v hv
  · exact I.binary_value h

private theorem ordered_value {accept : Ordering → Bool} {a b v : Expr}
    (h : BuiltIn.ordered accept a b = .ok v) : value v := by
  cases ho : BuiltIn.order a b <;>
    simp only [BuiltIn.ordered, ho, bind, Except.bind, pure, Except.pure, reduceCtorEq,
      Except.ok.injEq] at h
  subst h
  exact I.bool _

private theorem toNumberValue_value {a v : Expr} (h : BuiltIn.toNumberValue a = .ok v) :
    value v := by
  rw [BuiltIn.toNumberValue.eq_def] at h
  split at h
  · cases h
    exact I.number _
  · split at h <;> cases h
    exact I.number _

private theorem toTextValue_value {a : Expr} (ha : value a) : value (BuiltIn.toTextValue a) := by
  rw [BuiltIn.toTextValue]
  split
  · exact ha
  · exact I.text _

private theorem toCharacterValue_value {a v : Expr} (h : BuiltIn.toCharacterValue a = .ok v) :
    value v := by
  rw [BuiltIn.toCharacterValue.eq_def] at h
  split at h
  · split at h <;> cases h
    exact I.char _
  · cases h
  · cases h
    exact I.char _
  · cases h

private theorem toScalarValue_value {a v : Expr} (h : BuiltIn.toScalarValue a = .ok v) :
    value v := by
  cases ha : BuiltIn.asChar a <;>
    simp only [BuiltIn.toScalarValue, ha, bind, Except.bind, pure, Except.pure, reduceCtorEq,
      Except.ok.injEq] at h
  subst h
  exact I.number _

omit I in
private theorem map_value {α : Type} {result : Except Cause α} {f : α → Expr} {v : Expr}
    (hf : ∀ a, value (f a)) (h : result.map f = .ok v) : value v := by
  cases result <;> cases h
  exact hf _

theorem result_value {b : BuiltIn} {args : List Expr} {v : Expr} (hargs : ∀ a ∈ args, value a)
    (h : b.result args = .ok v) : value v := by
  rw [BuiltIn.result.eq_def] at h
  split at h
  · exact I.plus_value (hargs _ (by simp)) (hargs _ (by simp)) h
  · exact I.unary_value h
  iterate 7 exact I.binary_value h
  iterate 4 exact I.ordered_value h
  iterate 3 exact map_value (fun _ => I.bool _) h
  · exact I.toNumberValue_value h
  · cases h
    exact I.toTextValue_value (hargs _ (by simp))
  · exact I.toCharacterValue_value h
  · exact I.toScalarValue_value h
  · exact map_value (fun _ => I.number _) h
  iterate 9 exact I.floatFunction_value h
  · cases h

end Invariant
end Song
