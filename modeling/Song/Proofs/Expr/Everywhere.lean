import Mathlib.Data.List.Basic
import Song.Matching
import Song.Grammar.Pattern

/-!
# Properties of an expression and all its parts

The parts of an expression are the expressions that its text is made of; what a
closure captured is no part of it.
-/
namespace Song

def Clause.parts (clause : Clause Expr) : List Expr :=
  clause.patterns ++ [clause.guard, clause.body]

namespace Expr

def parts : Expr → List Expr
  | list items => items
  | cons heads tail => heads ++ [tail]
  | function clause => clause.parts
  | assign target value => [target, value]
  | closure c => c.clauses.flatMap Clause.parts
  | block statements => statements
  | call _ args => args
  | apply target args | deferred target args => target :: args
  | bool _ | number _ | char _ | wildcard | name _ | builtIn _ => []

/-- The expression and everything inside it have the property. -/
inductive Everywhere (P : Expr → Prop) : Expr → Prop
  | intro {e : Expr} (h : P e) (hparts : ∀ part ∈ e.parts, Everywhere P part) : Everywhere P e

namespace Everywhere

variable {P : Expr → Prop} {e : Expr}

theorem here (h : e.Everywhere P) : P e := by
  cases h
  assumption

theorem part (h : e.Everywhere P) {part : Expr} (hpart : part ∈ e.parts) :
    part.Everywhere P := by
  cases h with
  | intro _ hparts => exact hparts part hpart

end Everywhere

/-- Unfolds the property of an expression that is written out. -/
theorem everywhere_iff {P : Expr → Prop} {e : Expr} :
    e.Everywhere P ↔ P e ∧ e.parts.Forall (Everywhere P) := by
  rw [List.forall_iff_forall_mem]
  exact ⟨fun h => ⟨h.here, fun _ => h.part⟩, fun h => .intro h.1 h.2⟩

def isFloat : Expr → Bool
  | number (.float _) => true
  | _ => false

mutual
/-- A pattern in which no double is found holds none. -/
theorem everywhere_of_floatIn? (p : Expr) (hp : nonPattern? p = none) (h : floatIn? p = none) :
    p.Everywhere fun e => e.isFloat = false := by
  match p with
  | .wildcard | .name _ | .bool _ | .char _ | .number (.int _) =>
    exact .intro rfl (List.forall_mem_nil _)
  | .number (.float _) => cases h
  | .list items =>
    rw [nonPattern?] at hp
    rw [floatIn?] at h
    exact .intro rfl (everywhere_of_floatAmong? items hp h)
  | .cons heads tail =>
    rw [nonPattern?, Option.or_eq_none_iff] at hp
    rw [floatIn?, Option.or_eq_none_iff] at h
    refine .intro rfl fun part hpart => ?_
    rcases List.mem_append.1 hpart with hpart | hpart
    · exact everywhere_of_floatAmong? heads hp.1 h.1 part hpart
    · cases List.mem_singleton.1 hpart
      exact everywhere_of_floatIn? tail hp.2 h.2
  | .function _ | .assign .. | .closure _ | .block _ | .call .. | .apply .. | .deferred ..
  | .builtIn _ => cases hp
termination_by structural p

theorem everywhere_of_floatAmong? (ps : List Expr) (hp : nonPatternAmong? ps = none)
    (h : floatAmong? ps = none) : ∀ p ∈ ps, p.Everywhere fun e => e.isFloat = false := by
  match ps with
  | [] => exact List.forall_mem_nil _
  | p :: rest =>
    rw [nonPatternAmong?, Option.or_eq_none_iff] at hp
    rw [floatAmong?, Option.or_eq_none_iff] at h
    simpa using ⟨everywhere_of_floatIn? p hp.1 h.1, everywhere_of_floatAmong? rest hp.2 h.2⟩
termination_by structural ps
end

mutual
/-- In a pattern that holds no double none is found. -/
theorem floatIn?_eq_none (p : Expr) (h : p.Everywhere fun e => e.isFloat = false) :
    floatIn? p = none := by
  match p with
  | .number (.float _) => cases h.here
  | .list items => exact floatAmong?_eq_none items fun _ => h.part
  | .cons heads tail =>
    rw [floatIn?, Option.or_eq_none_iff]
    exact ⟨floatAmong?_eq_none heads fun _ hp => h.part (List.mem_append_left _ hp),
      floatIn?_eq_none tail (h.part (List.mem_append_right _ List.mem_cons_self))⟩
  | .wildcard | .name _ | .bool _ | .char _ | .number (.int _) | .function _ | .assign ..
  | .closure _ | .block _ | .call .. | .apply .. | .deferred .. | .builtIn _ => rfl
termination_by structural p

theorem floatAmong?_eq_none (ps : List Expr)
    (h : ∀ p ∈ ps, p.Everywhere fun e => e.isFloat = false) : floatAmong? ps = none := by
  match ps with
  | [] => rfl
  | p :: rest =>
    obtain ⟨hp, hrest⟩ := List.forall_mem_cons.1 h
    rw [floatAmong?, Option.or_eq_none_iff]
    exact ⟨floatIn?_eq_none p hp, floatAmong?_eq_none rest hrest⟩
termination_by structural ps
end

end Expr
end Song
