import Song.Expr.Equality
import Song.Failure

/-!
# Matching patterns

A pattern is matched against a value and binds its names to parts of it. A name
that occurs again has to meet an equal value. Doubles cannot be matched, neither
as literals nor by a name that occurs again.
-/
namespace Song

/-- Whether two lists are equally long, found out within the shorter one. -/
def sameLength {α β : Type} : List α → List β → Bool
  | [], [] => true
  | _ :: xs, _ :: ys => sameLength xs ys
  | _, _ => false

theorem sameLength_iff {α β : Type} {xs : List α} {ys : List β} :
    sameLength xs ys = true ↔ xs.length = ys.length := by
  induction xs generalizing ys with
  | nil => cases ys <;> simp [sameLength]
  | cons x xs ih => cases ys <;> simp [sameLength, ih]

namespace Expr

mutual
/-- Matches a value with the names bound so far; `none` if it does not match. -/
def matchPattern (pattern value : Expr) (bound : Bindings) : Except Cause (Option Bindings) :=
  match pattern with
  | wildcard => .ok (some bound)
  | name n =>
    match bound.get? n with
    | some (number (.float x)) => .error (.floatPattern (number (.float x)))
    | some previous => .ok (if same previous value then some bound else none)
    | none => .ok (some (bound.insert n value))
  | cons heads tail =>
    match value.items? with
    | none => .ok none
    | some items =>
      if (items.take heads.length).length < heads.length then .ok none
      else
        match matchItems heads items bound with
        | .ok (some bound) => matchPattern tail (list (items.drop heads.length)) bound
        | other => other
  | list patterns =>
    match value.items? with
    | none => .ok none
    | some items =>
      if sameLength patterns items then matchItems patterns items bound else .ok none
  | number (.float x) => .error (.floatPattern (number (.float x)))
  | literal => .ok (if same literal value then some bound else none)
termination_by structural pattern

/-- Matches as many values as there are patterns, in order. -/
def matchItems (patterns values : List Expr) (bound : Bindings) :
    Except Cause (Option Bindings) :=
  match patterns with
  | [] => .ok (some bound)
  | pattern :: patterns =>
    match values with
    | [] => .ok none
    | value :: values =>
      match matchPattern pattern value bound with
      | .ok (some bound) => matchItems patterns values bound
      | other => other
termination_by structural patterns
end

/-- Matches the arguments of a call with the parameters of a clause. -/
def matchParameters (patterns args : List Expr) : Except Cause (Option Bindings) :=
  if sameLength patterns args then matchItems patterns args .empty else .ok none

mutual
/-- The first double that occurs in a pattern. -/
def floatIn? (pattern : Expr) : Option Expr :=
  match pattern with
  | number (.float x) => some (number (.float x))
  | list patterns => floatAmong? patterns
  | cons heads tail => (floatAmong? heads).or (floatIn? tail)
  | _ => none
termination_by structural pattern

def floatAmong? (patterns : List Expr) : Option Expr :=
  match patterns with
  | [] => none
  | pattern :: rest => (floatIn? pattern).or (floatAmong? rest)
termination_by structural patterns
end

end Expr
end Song
