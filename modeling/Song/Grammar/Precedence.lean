import Song.Expr

/-!
# Precedence of operators

A flat chain of operands and operators becomes a tree. Operands that still wait
for their right side are kept on a stack; an operator takes as its left side
everything on the stack that binds at least as tightly, or, for the operator
that groups to the right, more tightly.
-/
namespace Song.Grammar

/-- Left operands with the operators that wait for a right side, the latest first. -/
abbrev Waiting := List (Expr × Operator)

def operation (left : Expr) (o : Operator) (right : Expr) : Expr :=
  .call o.symbol [left, right]

/-- Only powers group to the right. -/
def groupsRight (o : Operator) : Bool :=
  o = .power

/-- Whether an operator that waits takes its right side before `next` takes its left side. -/
def bindsBefore (waiting next : Operator) : Bool :=
  let w := waiting.level?.getD 0
  let n := next.level?.getD 0
  n < w || (n == w && !groupsRight next)

/-- Completes the operations that bind before `next`, with `right` as the last right side. -/
def complete (next : Operator) (right : Expr) : Waiting → Waiting × Expr
  | [] => ([], right)
  | (left, o) :: stack =>
    if bindsBefore o next then complete next (operation left o right) stack
    else ((left, o) :: stack, right)

def completeAll (right : Expr) : Waiting → Expr
  | [] => right
  | (left, o) :: stack => completeAll (operation left o right) stack

/-- The tree of a chain that goes on after `right`. -/
def treeFrom (stack : Waiting) (right : Expr) : List (Operator × Expr) → Expr
  | [] => completeAll right stack
  | (o, operand) :: rest =>
    let (stack, left) := complete o right stack
    treeFrom ((left, o) :: stack) operand rest

def tree (first : Expr) (rest : List (Operator × Expr)) : Expr :=
  treeFrom [] first rest

end Song.Grammar
