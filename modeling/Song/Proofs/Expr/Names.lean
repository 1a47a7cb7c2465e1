import Song.Proofs.Evaluation.Invariant
import Song.Proofs.Unmentioned.Likeness

/-!
# The names in an expression

The names in an expression are those that it and its parts refer to or declare, and for a closure
also those in the values that it captured. Whatever evaluation does to expressions and values whose
names are taken from some vocabulary, it adds no name to them.
-/
namespace Song

namespace Expr

def captures : Expr → List Expr
  | closure c => c.captured.bindings.map Prod.snd
  | _ => []

/-- All names in the expression are words of a vocabulary. -/
inductive NamedBy (word : String → Prop) : Expr → Prop
  | intro {e : Expr} (hname : ∀ n ∈ e.ownName?, word n)
    (hparts : ∀ part ∈ e.parts, NamedBy word part)
    (hcaptures : ∀ v ∈ e.captures, NamedBy word v) : NamedBy word e

namespace NamedBy

variable {word : String → Prop} {e : Expr}

theorem ownName (h : e.NamedBy word) : ∀ n ∈ e.ownName?, word n := by
  cases h
  assumption

theorem part (h : e.NamedBy word) : ∀ part ∈ e.parts, part.NamedBy word := by
  cases h
  assumption

theorem captured (h : e.NamedBy word) : ∀ v ∈ e.captures, v.NamedBy word := by
  cases h
  assumption

/-- An expression that has no name of its own and captures nothing. -/
theorem of_parts (hname : e.ownName? = none) (hcaptures : e.captures = [])
    (hparts : ∀ part ∈ e.parts, part.NamedBy word) : e.NamedBy word :=
  .intro (by simp [hname]) hparts (by simp [hcaptures])

theorem leaf (hname : e.ownName? = none) (hcaptures : e.captures = []) (hparts : e.parts = []) :
    e.NamedBy word :=
  of_parts hname hcaptures (by simp [hparts])

theorem mono {word' : String → Prop} (h : e.NamedBy word) (hw : ∀ n, word n → word' n) :
    e.NamedBy word' := by
  induction h with
  | intro hname _ _ ihparts ihcaptures =>
    exact .intro (fun n hn => hw n (hname n hn)) ihparts ihcaptures

theorem list {items : List Expr} (h : ∀ v ∈ items, v.NamedBy word) :
    (Expr.list items).NamedBy word :=
  of_parts rfl rfl h

theorem text (chars : List Char) : (Expr.text chars).NamedBy word :=
  list (List.forall_mem_map.2 fun _ _ => leaf rfl rfl rfl)

theorem closure_iff {c : Closure Expr} :
    (Expr.closure c).NamedBy word ↔ (∀ n ∈ c.name, word n) ∧
      (∀ clause ∈ c.clauses, ∀ part ∈ clause.parts, part.NamedBy word) ∧
      c.captured.All (NamedBy word) := by
  have hparts (h : ∀ clause ∈ c.clauses, ∀ part ∈ clause.parts, part.NamedBy word) :
      ∀ part ∈ (Expr.closure c).parts, part.NamedBy word := by
    intro part hpart
    obtain ⟨clause, hclause, hpart⟩ := List.mem_flatMap.1 hpart
    exact h clause hclause part hpart
  constructor
  · intro h
    refine ⟨h.ownName, ?_, ?_⟩
    · intro clause hclause part hpart
      exact h.part part (List.mem_flatMap.2 ⟨clause, hclause, hpart⟩)
    · intro binding hbinding
      exact h.captured binding.2 (List.mem_map_of_mem hbinding)
  · rintro ⟨hname, hclauses, hcaptured⟩
    exact .intro hname (hparts hclauses) (List.forall_mem_map.2 hcaptured)

theorem ofClause {clause : Clause Expr} {context : Bindings}
    (h : (Expr.function clause).NamedBy word) (hc : context.All (NamedBy word))
    {label : Option String} (hlabel : ∀ n ∈ label, word n) :
    (Expr.closure (.ofClause label clause context)).NamedBy word :=
  closure_iff.2 ⟨hlabel, List.forall_mem_singleton.2 h.part, hc⟩

theorem withClause {c : Closure Expr} {clause : Clause Expr}
    (hc : (Expr.closure c).NamedBy word) (h : (Expr.function clause).NamedBy word) :
    (Expr.closure (c.withClause clause)).NamedBy word := by
  obtain ⟨hname, hclauses, hcaptured⟩ := closure_iff.1 hc
  rw [closure_iff]
  refine ⟨hname, ?_, hcaptured⟩
  exact List.forall_mem_append.2 ⟨hclauses, List.forall_mem_singleton.2 h.part⟩

theorem declared {clause : Clause Expr} {context : Bindings} {v : Expr}
    (h : (Expr.function clause).NamedBy word) (hc : context.All (NamedBy word))
    (hv : declare clause context = .ok v) : v.NamedBy word := by
  rw [declare] at hv
  split at hv
  · cases hv
  · split at hv
    case h_1 =>
      cases hv
      apply ofClause h hc
      rintro _ ⟨⟩
    case h_2 name hname =>
      have hlabel : ∀ n ∈ some name, word n := fun n hn => h.ownName n (hname.trans hn)
      split at hv
      case h_1 existing hexisting =>
        split at hv <;> cases hv
        · exact withClause (hc.get? hexisting) h
        · exact ofClause h (hc.erase _) hlabel
      case h_2 =>
        cases hv
        exact ofClause h (hc.erase _) hlabel

theorem invariant : Invariant (NamedBy word) (NamedBy word) where
  bool _ := leaf rfl rfl rfl
  number _ := leaf rfl rfl rfl
  char _ := leaf rfl rfl rfl
  list := list
  items h := h.part
  wildcard h := h
  closure h := h
  builtIn h := h
  assign h hv := of_parts rfl rfl
    (List.forall_mem_cons.2 ⟨h.part _ List.mem_cons_self, List.forall_mem_singleton.2 hv⟩)
  assigned h := h.part _ (by simp [parts])
  declared := declared
  captured h := (closure_iff.1 h).2.2
  guard h hmem := (closure_iff.1 h).2.1 _ hmem _ (by simp [Clause.parts])
  body h hmem := (closure_iff.1 h).2.1 _ hmem _ (by simp [Clause.parts])
  listItems h := h.part
  heads h e he := h.part e (List.mem_append_left _ he)
  tail h := h.part _ (by simp [parts])
  assignment h := h.part _ (by simp [parts])
  statements h := h.part
  callArgs h := h.part
  target h := h.part _ List.mem_cons_self
  applyArgs h e he := h.part e (List.mem_cons_of_mem _ he)

end NamedBy
end Expr

/-- The names in what is read are identifiers and operators. -/
theorem Grammatical.namedBy {role : Role} {e : Expr} (h : Grammatical role e) :
    e.NamedBy IsCallee := by
  induction h with
  | bool | int | float | char | wildcard => exact .leaf rfl rfl rfl
  | list _ ih | block _ ih => exact .of_parts rfl rfl ih
  | cons _ _ _ ihh iht =>
    exact .of_parts rfl rfl (List.forall_mem_append.2 ⟨ihh, List.forall_mem_singleton.2 iht⟩)
  | name h =>
    refine .intro ?_ (List.forall_mem_nil _) (List.forall_mem_nil _)
    rintro _ ⟨⟩
    exact Or.inl h
  | lambda _ _ _ _ ihp ihg ihb =>
    refine .of_parts rfl rfl (List.forall_mem_append.2 ⟨ihp, ?_⟩)
    simpa using ⟨ihg, ihb⟩
  | call hc _ ih =>
    refine .intro ?_ ih (List.forall_mem_nil _)
    rintro _ ⟨⟩
    exact hc
  | apply _ _ iht ih => exact .of_parts rfl rfl (List.forall_mem_cons.2 ⟨iht, ih⟩)
  | expression _ ih => exact ih
  | assign _ _ _ _ iht ihv =>
    exact .of_parts rfl rfl (List.forall_mem_cons.2 ⟨iht, List.forall_mem_singleton.2 ihv⟩)
  | function hn _ _ _ _ ihp ihg ihb =>
    refine .intro ?_ (List.forall_mem_append.2 ⟨ihp, ?_⟩) (List.forall_mem_nil _)
    · rintro _ ⟨⟩
      exact hn
    · simpa using ⟨ihg, ihb⟩

end Song
