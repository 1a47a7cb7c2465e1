import Mathlib.Data.List.Basic
import Song.Grammar.Pattern

/-!
# Patterns as a kind of expression

The check that finds the first part that is no pattern finds none exactly in names,
`_`, literals, and lists and list constructions of such.
-/
namespace Song.Expr

/-- The expressions that can stand for a value to be matched. -/
inductive IsPattern : Expr → Prop
  | name (n : String) : IsPattern (.name n)
  | wildcard : IsPattern .wildcard
  | bool (b : Bool) : IsPattern (.bool b)
  | number (n : Number) : IsPattern (.number n)
  | char (c : Char) : IsPattern (.char c)
  | list {items : List Expr} (h : ∀ p ∈ items, IsPattern p) : IsPattern (.list items)
  | cons {heads : List Expr} {tail : Expr} (hh : ∀ p ∈ heads, IsPattern p)
    (ht : IsPattern tail) : IsPattern (.cons heads tail)

mutual
theorem isPattern_of_nonPattern? (e : Expr) (h : nonPattern? e = none) : e.IsPattern := by
  match e with
  | .name n => exact .name n
  | .wildcard => exact .wildcard
  | .bool b => exact .bool b
  | .number n => exact .number n
  | .char c => exact .char c
  | .list items => exact .list (isPattern_of_nonPatternAmong? items h)
  | .cons heads tail =>
    rw [nonPattern?, Option.or_eq_none_iff] at h
    exact .cons (isPattern_of_nonPatternAmong? heads h.1) (isPattern_of_nonPattern? tail h.2)
  | .function _ | .assign .. | .closure _ | .block _ | .call .. | .apply .. | .deferred ..
  | .builtIn _ => cases h
termination_by structural e

theorem isPattern_of_nonPatternAmong? (es : List Expr) (h : nonPatternAmong? es = none) :
    ∀ e ∈ es, e.IsPattern := by
  match es with
  | [] => exact List.forall_mem_nil _
  | e :: rest =>
    rw [nonPatternAmong?, Option.or_eq_none_iff] at h
    simpa using ⟨isPattern_of_nonPattern? e h.1, isPattern_of_nonPatternAmong? rest h.2⟩
termination_by structural es
end

end Song.Expr
