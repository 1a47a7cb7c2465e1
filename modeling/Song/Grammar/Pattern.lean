import Song.Expr

/-!
# Patterns

Names, `_`, literals, and lists and list constructions of patterns are patterns.
-/
namespace Song.Expr

mutual
/-- The first part of the expression that cannot stand in a pattern. -/
def nonPattern? (e : Expr) : Option Expr :=
  match e with
  | name _ | wildcard | bool _ | number _ | char _ => none
  | list items => nonPatternAmong? items
  | cons heads tail => (nonPatternAmong? heads).or (nonPattern? tail)
  | other => some other
termination_by structural e

/-- The first part of the expressions that cannot stand in a pattern. -/
def nonPatternAmong? (es : List Expr) : Option Expr :=
  match es with
  | [] => none
  | e :: rest => (nonPattern? e).or (nonPatternAmong? rest)
termination_by structural es
end

end Song.Expr
