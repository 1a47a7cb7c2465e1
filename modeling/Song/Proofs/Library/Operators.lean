import Song.Proofs.Evaluation.Application
import Song.Proofs.Library.Provided
import Song.Proofs.Value.Arithmetic

/-!
# Operators in the library

The functions of the library call operators by the names that these have from the start. Wherever
such a name is bound as in the library, a call comes to what the operator computes from the values
of its operands.
-/
namespace Song

/-- An evaluation that fails ends for the cause of the failure. -/
theorem Evaluates.ends_fail {e : Expr} {context : Bindings} {streams after : Streams} {f : Failure}
    (h : Evaluates e context streams (.failure f after)) :
    Ends e context streams (.fail f.cause after) := by
  obtain ⟨-, n, hn⟩ := h
  exact ⟨nofun, n, by simp [hn]⟩

/-- The exact integer that an operator gives where it fits; whole division is left out. -/
def Operator.exact? : Operator → Option (Int → Int → Int)
  | plus => some (· + ·)
  | minus => some (· - ·)
  | times => some (· * ·)
  | _ => none

def Operator.comparison? : Operator → Option (Int → Int → Bool)
  | less => some fun x y => x < y
  | greater => some fun x y => y < x
  | lessOrEqual => some fun x y => x ≤ y
  | greaterOrEqual => some fun x y => y ≤ x
  | _ => none

theorem BuiltIn.result_comparison {o : Operator} {holds : Int → Int → Bool}
    (ho : o.comparison? = some holds) (a b : Int64) :
    result (.operator o) [.int a, .int b] = .ok (.bool (holds a.toInt b.toInt)) := by
  have hordered (accept : Ordering → Bool) : ordered accept (.int a) (.int b) =
      .ok (.bool (accept (compare a.toInt b.toInt))) := rfl
  cases o <;> cases ho <;> simp only [result, hordered]
  all_goals
    congr 2
    rw [Bool.eq_iff_iff]
    simp [compare_lt_iff_lt, compare_gt_iff_gt, Int.isLE_compare, Int.isGE_compare]

namespace Library

variable {o : Operator} {a b c : Int64} {v : Expr} {args values : List Expr} {context : Bindings}
  {streams after : Streams}

theorem get?_symbol (o : Operator) : startup.get? o.symbol = some (.builtIn (.operator o)) := by
  have hname : o.symbol ∉ names := by
    cases o <;> decide
  rw [get?_startup hname, BuiltIn.startingContext, Context.get?_ofList]
  cases o <;> rfl

@[simp] theorem evaluates_int_iff :
    Evaluates (.int a) context streams (.value v after) ↔ .int a = v ∧ streams = after :=
  evaluates_atom_iff rfl

/-- A call comes to the value of the operator on the values of the operands. -/
theorem evaluates_operator (hbound : context.get? o.symbol = startup.get? o.symbol)
    (hstrict : (Expr.builtIn (.operator o)).isStrict = true)
    (haccepts : (BuiltIn.operator o).accepts values.length = true)
    (hargs : EvaluatesAll context args streams values after)
    (hresult : BuiltIn.result (.operator o) values = .ok v) (hv : v.isDeferred = false) :
    Evaluates (.call o.symbol args) context streams (.value v after) := by
  have hmeaning : BuiltIn.meaning (.operator o) values after = .value v after := by
    change Outcome.ofExcept (BuiltIn.result (.operator o) values) after = _
    rw [hresult, Outcome.ofExcept]
  have hreturns : Returns (.builtIn (.operator o)) values after (.value v after) :=
    .of_meaning hstrict haccepts hmeaning hv
  rw [get?_symbol] at hbound
  rw [← ends_value_iff]
  exact hreturns.call hbound haccepts hstrict hargs

/-- An operation on two integers that has an integer as its result. -/
theorem evaluates_integer {operation : Number → Number → Except NumericError Number}
    (ho : o.arithmetic? = some operation) (hbound : context.get? o.symbol = startup.get? o.symbol)
    (hargs : EvaluatesAll context args streams [.int a, .int b] after)
    (hresult : operation (.int a) (.int b) = .ok (.int c)) :
    Evaluates (.call o.symbol args) context streams (.value (.int c) after) := by
  rw [get?_symbol] at hbound
  have h := evaluates_arithmetic ho hbound hargs
  rwa [hresult] at h

/-- A sum, difference or product that fits. -/
theorem evaluates_exact {exact : Int → Int → Int} (ho : o.exact? = some exact)
    (hbound : context.get? o.symbol = startup.get? o.symbol)
    (hargs : EvaluatesAll context args streams [.int a, .int b] after)
    (hc : c.toInt = exact a.toInt b.toInt) :
    Evaluates (.call o.symbol args) context streams (.value (.int c) after) := by
  have hchecked (operation : Operation) : Number.checked operation (exact a.toInt b.toInt) =
      .ok (.int c) := by
    rw [← hc, Number.checked_toInt]
  cases o <;> cases ho <;> exact evaluates_integer rfl hbound hargs (hchecked _)

/-- A sum that does not fit. -/
theorem ends_sum_overflow (hbound : context.get? "+" = startup.get? "+")
    (hargs : EvaluatesAll context args streams [.int a, .int b] after)
    (hc : ¬Number.Fits (a.toInt + b.toInt)) :
    Ends (.call "+" args) context streams (.fail (.integerOverflow .addition) after) := by
  have hadd : Number.add (.int a) (.int b) = .error (.overflow .addition) := if_neg hc
  have h := evaluates_arithmetic (o := .plus) rfl (hbound.trans (get?_symbol .plus)) hargs
  rw [hadd] at h
  exact h.ends_fail

/-- A comparison of two integers. -/
theorem evaluates_comparison {holds : Int → Int → Bool} (ho : o.comparison? = some holds)
    (hbound : context.get? o.symbol = startup.get? o.symbol)
    (hargs : EvaluatesAll context args streams [.int a, .int b] after) :
    Evaluates (.call o.symbol args) context streams
      (.value (.bool (holds a.toInt b.toInt)) after) := by
  have hresult := BuiltIn.result_comparison ho a b
  cases o <;> cases ho <;> exact evaluates_operator hbound rfl rfl hargs hresult rfl

/-- The sign before an integer whose negation fits. -/
theorem evaluates_negated (hbound : context.get? "-" = startup.get? "-")
    (hargs : EvaluatesAll context args streams [.int a] after) (hc : c.toInt = -a.toInt) :
    Evaluates (.call "-" args) context streams (.value (.int c) after) := by
  have h := evaluates_negation (hbound.trans (get?_symbol .minus)) hargs
  rwa [Number.negate, ← hc, Number.checked_toInt] at h

/-- The next lower count. -/
theorem evaluates_predecessor {n m : Int64} (hminus : context.get? "-" = startup.get? "-")
    (hn : context.get? "n" = some (.int n)) (hm : m.toInt = n.toInt - 1) :
    Evaluates (.call "-" [.name "n", .int 1]) context streams (.value (.int m) streams) := by
  have hargs : EvaluatesAll context [.name "n", .int 1] streams [.int n, .int 1] streams := by
    simp [hn]
  exact evaluates_exact (o := .minus) rfl hminus hargs hm

/-- A positive count has a predecessor in the range. -/
theorem exists_predecessor {n : Int64} {count : Nat} (hn : n.toInt = (count + 1 : Nat)) :
    n ≠ 0 ∧ ∃ m : Int64, m.toInt = n.toInt - 1 ∧ m.toInt = count := by
  have hrange := (Number.fits_iff _).1 (Number.fits_toInt n)
  obtain ⟨m, hm⟩ := Number.exists_toInt_eq (i := n.toInt - 1) ((Number.fits_iff _).2 (by omega))
  refine ⟨?_, m, hm, by omega⟩
  rw [Ne, ← Number.toInt_eq_zero_iff]
  omega

/-- An integer in a pattern is matched by itself only. -/
theorem matchPattern_int (a b : Int64) (bound : Bindings) :
    Expr.matchPattern (.int a) (.int b) bound = .ok (if a = b then some bound else none) := by
  change Except.ok (if (a == b) = true then some bound else none) = _
  simp

end Library
end Song
