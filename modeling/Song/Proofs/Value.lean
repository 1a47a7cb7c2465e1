import Song.Proofs.Evaluation.Kept
import Song.Proofs.Evaluation.TailCalls
import Song.Proofs.Expr.Everywhere
import Song.Proofs.Grammar.Grammatical

/-!
# Value forms

A value form is a literal, a wildcard, a built-in function, a list of value forms,
an assignment of one, or a well-shaped closure that captured value forms only.
Evaluating grammatical statements in contexts of value forms gives value forms,
and a value form evaluates to itself in any context.
-/
namespace Song

open Filter

/-- The shape of a closure that was declared: the clauses of a function carry its name, and it
did not capture itself; a lambda has one clause, and that has no name. Doubles occur in no
pattern. -/
inductive Closure.Shaped (c : Closure Expr) : Prop
  | named {name : String} (hname : c.name = some name) (hne : c.clauses ≠ [])
    (hclauses : ∀ clause ∈ c.clauses, clause.name = some name)
    (hfloat : ∀ clause ∈ c.clauses, ∀ p ∈ clause.patterns,
      p.Everywhere fun e => e.isFloat = false)
    (hcaptured : c.captured.contains name = false)
  | lambda {clause : Clause Expr} (hname : c.name = none) (hclauses : c.clauses = [clause])
    (hclause : clause.name = none)
    (hfloat : ∀ p ∈ clause.patterns, p.Everywhere fun e => e.isFloat = false)

/-- The value forms; `C` is said of the clauses of closures, also of those that are captured. -/
inductive Expr.IsValue (C : Clause Expr → Prop) : Expr → Prop
  | bool (b : Bool) : IsValue C (.bool b)
  | number (n : Number) : IsValue C (.number n)
  | char (c : Char) : IsValue C (.char c)
  | wildcard : IsValue C .wildcard
  | builtIn (b : BuiltIn) : IsValue C (.builtIn b)
  | list {items : List Expr} (h : ∀ v ∈ items, IsValue C v) : IsValue C (.list items)
  | assign {target v : Expr} (h : IsValue C v) : IsValue C (.assign target v)
  | closure {c : Closure Expr} (hs : c.Shaped) (hclauses : ∀ clause ∈ c.clauses, C clause)
    (hcaptured : ∀ binding ∈ c.captured.bindings, IsValue C binding.2) : IsValue C (.closure c)

def Clause.IsGrammatical (clause : Clause Expr) : Prop :=
  Grammatical .statement (.function clause)

namespace Clause.IsGrammatical

variable {clause : Clause Expr} (h : clause.IsGrammatical)

include h

theorem parts_expression : ∀ e ∈ clause.parts, Grammatical .expression e := by
  have hall {patterns : List Expr} {guard body : Expr}
      (hp : ∀ p ∈ patterns, Grammatical .expression p) (hg : Grammatical .expression guard)
      (hb : Grammatical .expression body) :
      ∀ e ∈ patterns ++ [guard, body], Grammatical .expression e := by
    intro e he
    rcases List.mem_append.1 he with he | he
    · exact hp e he
    · simp only [List.mem_cons, List.not_mem_nil, or_false] at he
      rcases he with rfl | rfl
      · exact hg
      · exact hb
  cases h with
  | expression h =>
    cases h with
    | lambda hp _ hg hb => exact hall hp hg hb
  | function _ hp _ hg hb => exact hall hp hg hb

theorem patterns_pattern : Expr.nonPatternAmong? clause.patterns = none := by
  cases h with
  | expression h => cases h; assumption
  | function _ _ hpattern _ _ => exact hpattern

theorem guard : Grammatical .expression clause.guard :=
  h.parts_expression _ (by simp [Clause.parts])

theorem body : Grammatical .expression clause.body :=
  h.parts_expression _ (by simp [Clause.parts])

end Clause.IsGrammatical

namespace Closure.Shaped

theorem ofClause_none {clause : Clause Expr} {captured : Bindings} (hname : clause.name = none)
    (hfloat : ∀ p ∈ clause.patterns, p.Everywhere fun e => e.isFloat = false) :
    (Closure.ofClause none clause captured).Shaped :=
  .lambda rfl rfl hname hfloat

theorem ofClause_erase {clause : Clause Expr} {context : Bindings} {name : String}
    (hname : clause.name = some name)
    (hfloat : ∀ p ∈ clause.patterns, p.Everywhere fun e => e.isFloat = false) :
    (Closure.ofClause (some name) clause (context.erase name)).Shaped := by
  apply named rfl (by simp [Closure.ofClause])
  · exact List.forall_mem_singleton.2 hname
  · exact List.forall_mem_singleton.2 hfloat
  · simp [Context.contains, Closure.ofClause, Context.get?_erase]

theorem withClause {c : Closure Expr} {clause : Clause Expr} {name : String} (hs : c.Shaped)
    (hc : c.name = some name) (hname : clause.name = some name)
    (hfloat : ∀ p ∈ clause.patterns, p.Everywhere fun e => e.isFloat = false) :
    (c.withClause clause).Shaped := by
  cases hs with
  | lambda hnone => simp [hnone] at hc
  | named hsome hne hclauses hfloats hcaptured =>
    obtain rfl : _ = name := Option.some.inj (hsome.symm.trans hc)
    refine .named hsome (by simp [Closure.withClause]) ?_ ?_ hcaptured
    · exact List.forall_mem_append.2 ⟨hclauses, List.forall_mem_singleton.2 hname⟩
    · exact List.forall_mem_append.2 ⟨hfloats, List.forall_mem_singleton.2 hfloat⟩

end Closure.Shaped

theorem declare_isValue {clause : Clause Expr} {context : Bindings} {v : Expr}
    (h : clause.IsGrammatical) (hc : context.All (Expr.IsValue Clause.IsGrammatical))
    (hv : declare clause context = .ok v) : v.IsValue Clause.IsGrammatical := by
  rw [declare] at hv
  split at hv
  · cases hv
  case h_2 hnone =>
    have hfloat := Expr.everywhere_of_floatAmong? clause.patterns h.patterns_pattern hnone
    have hsingle := List.forall_mem_singleton.2 h
    have fresh {name : String} (hname : clause.name = some name) :
        Expr.IsValue Clause.IsGrammatical
          (.closure (.ofClause (some name) clause (context.erase name))) :=
      .closure (.ofClause_erase hname hfloat) hsingle (hc.erase name)
    split at hv
    case h_1 hname =>
      cases hv
      exact .closure (.ofClause_none hname hfloat) hsingle hc
    case h_2 name hname =>
      split at hv
      case h_1 existing hexisting =>
        split at hv <;> cases hv
        · cases hc.get? hexisting with
          | closure hs hclauses hcaptured =>
            exact .closure (hs.withClause ‹_› hname hfloat)
              (List.forall_mem_append.2 ⟨hclauses, hsingle⟩) hcaptured
        · exact fresh hname
      case h_2 =>
        cases hv
        exact fresh hname

private theorem grammatical_expression {e : Expr} (h : Grammatical .statement e)
    (he : ∀ target v, e ≠ .assign target v) (hf : ∀ clause, e ≠ .function clause) :
    Grammatical .expression e := by
  cases h with
  | expression h => exact h
  | assign => exact absurd rfl (he _ _)
  | function => exact absurd rfl (hf _)

theorem not_grammatical_deferred (target : Expr) (args : List Expr) :
    ¬Grammatical .statement (.deferred target args) := by
  intro h
  cases grammatical_expression h nofun nofun

/-- Grammatical statements and value forms whose clauses are grammatical. -/
theorem Expr.IsValue.invariant :
    Invariant (Grammatical .statement) (Expr.IsValue Clause.IsGrammatical) where
  bool := .bool
  number := .number
  char := .char
  list := .list
  items h := by cases h; assumption
  wildcard _ := .wildcard
  closure h := by
    cases h with
    | expression h => cases h
  builtIn h := by
    cases h with
    | expression h => cases h
  assign _ hv := .assign hv
  assigned h := by cases h; assumption
  declared h hc hv := declare_isValue h hc hv
  captured h := by
    cases h with
    | closure _ _ hc => exact hc
  guard h hmem := by
    cases h with
    | closure _ hclauses _ => exact .expression (hclauses _ hmem).guard
  body h hmem := by
    cases h with
    | closure _ hclauses _ => exact .expression (hclauses _ hmem).body
  listItems h e he := by
    cases grammatical_expression h nofun nofun with
    | list h => exact .expression (h e he)
  heads h e he := by
    cases grammatical_expression h nofun nofun with
    | cons _ hh _ => exact .expression (hh e he)
  tail h := by
    cases grammatical_expression h nofun nofun with
    | cons _ _ ht => exact .expression ht
  assignment h := by
    cases h with
    | expression h => cases h
    | assign _ _ _ hv => exact .expression hv
  statements h := by
    cases grammatical_expression h nofun nofun with
    | block h => exact h
  callArgs h e he := by
    cases grammatical_expression h nofun nofun with
    | call _ h => exact .expression (h e he)
  target h := by
    cases grammatical_expression h nofun nofun with
    | apply ht _ => exact .expression ht
  applyArgs h e he := by
    cases grammatical_expression h nofun nofun with
    | apply _ h => exact .expression (h e he)

/-- Grammatical statements give value forms. -/
theorem evaluate_isValue {limit : Nat} {e v : Expr} {context : Bindings} {streams after : Streams}
    (he : Grammatical .statement e) (hc : context.All (Expr.IsValue Clause.IsGrammatical))
    (h : evaluate limit e context streams = .value v after) : v.IsValue Clause.IsGrammatical :=
  Expr.IsValue.invariant.evaluate_value not_grammatical_deferred nofun he hc h

theorem Grammatical.noDeferred {role : Role} {e : Expr} (h : Grammatical role e) :
    e.NoDeferred := by
  induction h with
  | bool b => exact .bool b
  | int _ => exact .number _
  | float _ => exact .number _
  | char c => exact .char c
  | list _ ih => exact .list ih
  | cons _ _ _ ihh iht => exact .cons ihh iht
  | wildcard => exact .wildcard
  | name _ => exact .name _
  | lambda _ _ _ _ ihp ihg ihb => exact .function ihp ihg ihb
  | block _ ih => exact .block ih
  | call _ _ ih => exact .call ih
  | apply _ _ iht ih => exact .apply iht ih
  | expression _ ih => exact ih
  | assign _ _ _ _ iht ihv => exact .assign iht ihv
  | function _ _ _ _ _ ihp ihg ihb => exact .function ihp ihg ihb

/-- Value forms with grammatical clauses that hold no deferred call in the target of an
assignment either. -/
def Expr.IsSoundValue (v : Expr) : Prop :=
  v.IsValue Clause.IsGrammatical ∧ v.NoDeferred

private theorem soundInvariant :
    Invariant (fun e => Grammatical .statement e ∧ e.NoDeferred) Expr.IsSoundValue :=
  Expr.IsValue.invariant.inter Expr.NoDeferred.invariant

theorem evaluate_isSoundValue {limit : Nat} {e v : Expr} {context : Bindings}
    {streams after : Streams} (he : Grammatical .statement e)
    (hc : context.All Expr.IsSoundValue)
    (h : evaluate limit e context streams = .value v after) : v.IsSoundValue :=
  soundInvariant.evaluate_value (fun _ _ h => by cases h.2) (fun _ _ h => by cases h.2)
    ⟨he, he.noDeferred⟩ hc h

theorem install_isSoundValue {v : Expr} {context installed : Bindings} (hv : v.IsSoundValue)
    (hc : context.All Expr.IsSoundValue) (h : install v context = .ok installed) :
    installed.All Expr.IsSoundValue :=
  soundInvariant.install_all hv hc h

theorem startingContext_isSoundValue : BuiltIn.startingContext.All Expr.IsSoundValue := by
  apply Context.all_ofList
  intro binding hb
  obtain ⟨b, -, hb⟩ := List.mem_flatMap.1 hb
  obtain ⟨name, -, rfl⟩ := List.mem_map.1 hb
  exact ⟨.builtIn b, .builtIn b⟩

theorem startingContext_names {Q : String → Prop}
    (h : ∀ b ∈ BuiltIn.all, ∀ name ∈ b.token :: b.aliases, Q name) :
    BuiltIn.startingContext.Names Q := by
  apply Context.names_ofList
  intro binding hb
  obtain ⟨b, hmem, hb⟩ := List.mem_flatMap.1 hb
  obtain ⟨name, hname, rfl⟩ := List.mem_map.1 hb
  exact h b hmem name hname

/-- What is not the name of a built-in is not bound at the start. -/
theorem get?_startingContext_eq_none {f : String}
    (h : ∀ b ∈ BuiltIn.all, ∀ name ∈ b.token :: b.aliases, name ≠ f) :
    BuiltIn.startingContext.get? f = none :=
  (startingContext_names h).get?_eq_none

private theorem all_eventually {values : List Expr} {context : Bindings} {streams : Streams}
    (h : ∀ v ∈ values, ∀ᶠ n in atTop, evaluate n v context streams = .value v streams) :
    ∀ᶠ n in atTop, Reduction.all (evaluate n) values context streams = .value values streams := by
  induction values with
  | nil => exact Eventually.of_forall fun _ => rfl
  | cons v rest ih =>
    obtain ⟨hv, hrest⟩ := List.forall_mem_cons.1 h
    filter_upwards [hv, ih hrest] with n hn hns
    simp only [Reduction.all, Outcome.andThen, hn, hns]

/-- Value forms evaluate to themselves. -/
theorem Expr.IsValue.evaluate_eventually {C : Clause Expr → Prop} {v : Expr} (h : v.IsValue C)
    (context : Bindings) (streams : Streams) :
    ∀ᶠ n in atTop, evaluate n v context streams = .value v streams := by
  induction h with
  | list _ ih =>
    apply eventually_of_succ
    filter_upwards [all_eventually ih] with n hn
    simp only [evaluate, Reduction.located, Reduction.step]
    split
    · rfl
    · rw [hn]
      rfl
  | assign _ ih =>
    apply eventually_of_succ
    filter_upwards [ih] with n hn
    simp only [evaluate, Reduction.located, Reduction.step, hn]
    rfl
  | _ => exact eventually_of_succ (Eventually.of_forall fun _ => rfl)

end Song
