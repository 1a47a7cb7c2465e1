import Mathlib
import Song.Proofs.Value.Clauses

/-!
# Arithmetic on integers

An operation on two integers gives the exact integer wherever that fits in 64 bits and reports an
overflow elsewhere. Whole division leaves a remainder with the sign of the dividend, and one pair
of operands only has a quotient that does not fit. The operators of the language come to the same
numbers, and to the failures that the numeric errors stand for.
-/
namespace Song

open Filter

namespace Number

theorem fits_iff (i : Int) : Fits i ↔ -2 ^ 63 ≤ i ∧ i ≤ 2 ^ 63 - 1 := by
  have hpow : Int.pow 2 63 = 9223372036854775808 := rfl
  simp only [Fits, hpow]
  omega

/-- The integers in the range are those of 64 bits. -/
theorem fits_toInt (a : Int64) : Fits a.toInt := by
  have hlower := a.le_toInt
  have hupper := a.toInt_lt
  simp only [fits_iff]
  omega

theorem toInt_ofInt_of_fits {i : Int} (h : Fits i) : (Int64.ofInt i).toInt = i := by
  rw [fits_iff] at h
  exact Int64.toInt_ofInt_of_le (by omega) (by omega)

theorem exists_toInt_eq {i : Int} (h : Fits i) : ∃ c : Int64, c.toInt = i :=
  ⟨_, toInt_ofInt_of_fits h⟩

/-- The result is the integer itself if that lies between `-2 ^ 63` and `2 ^ 63 - 1`, and the
overflow of the operation if not. -/
def IsExactly (result : Except NumericError Number) (operation : Operation) (exact : Int) : Prop :=
  (-2 ^ 63 ≤ exact ∧ exact ≤ 2 ^ 63 - 1 → ∃ c : Int64, c.toInt = exact ∧ result = .ok (int c)) ∧
    (¬(-2 ^ 63 ≤ exact ∧ exact ≤ 2 ^ 63 - 1) → result = .error (.overflow operation))

theorem checked_isExactly (operation : Operation) (i : Int) :
    IsExactly (checked operation i) operation i := by
  simp only [IsExactly, ← fits_iff, checked]
  constructor
  · intro h
    exact ⟨_, toInt_ofInt_of_fits h, if_pos h⟩
  · intro h
    exact if_neg h

theorem checked_of_fits (operation : Operation) {i : Int} (h : Fits i) :
    ∃ c : Int64, c.toInt = i ∧ checked operation i = .ok (int c) :=
  (checked_isExactly operation i).1 ((fits_iff i).1 h)

theorem checked_toInt (operation : Operation) (c : Int64) :
    checked operation c.toInt = .ok (int c) := by
  rw [checked, if_pos (fits_toInt c), Int64.ofInt_toInt]

theorem toInt_eq_zero_iff (b : Int64) : b.toInt = 0 ↔ b = 0 := by
  rw [← Int64.toInt_inj, Int64.toInt_zero]

/-- The one quotient of two integers that does not fit is the one of the least integer by `-1`. -/
theorem fits_tdiv_iff {a b : Int64} (hb : b.toInt ≠ 0) :
    Fits (a.toInt.tdiv b.toInt) ↔ ¬(a = Int64.minValue ∧ b = -1) := by
  have hmin : a = Int64.minValue ↔ a.toInt = -2 ^ 63 := by
    rw [← Int64.toInt_inj, Int64.toInt_minValue]
  have hminus : b = -1 ↔ b.toInt = -1 := by
    rw [← Int64.toInt_inj]
    rfl
  have ha := (fits_iff _).1 (fits_toInt a)
  have habs := Int.natAbs_tdiv a.toInt b.toInt
  rw [fits_iff, hmin, hminus]
  -- A divisor other than `1` and `-1` at least halves the dividend.
  by_cases hunit : b.toInt.natAbs = 1
  · rcases (show b.toInt = 1 ∨ b.toInt = -1 by omega) with h | h
    · rw [h, Int.tdiv_one]
      omega
    · rw [h, Int.tdiv_neg, Int.tdiv_one]
      omega
  · have hhalf : a.toInt.natAbs / b.toInt.natAbs ≤ a.toInt.natAbs / 2 :=
      Nat.div_le_div_left (by omega) (by decide)
    change _ = a.toInt.natAbs / b.toInt.natAbs at habs
    omega

theorem fits_tmod {a b : Int64} (hb : b.toInt ≠ 0) : Fits (a.toInt.tmod b.toInt) := by
  have habs := Int.natAbs_tmod a.toInt b.toInt
  have hlt := Nat.mod_lt a.toInt.natAbs (Int.natAbs_pos.2 hb)
  have hb := (fits_iff _).1 (fits_toInt b)
  rw [fits_iff]
  omega

/-- The remainder toward zero is zero or has the sign of the dividend. -/
theorem tmod_eq_zero_or_sign (a b : Int) : a.tmod b = 0 ∨ (a.tmod b).sign = a.sign := by
  rcases Int.lt_trichotomy a 0 with ha | rfl | ha
  · have h := Int.tmod_nonneg b (show 0 ≤ -a by omega)
    rw [Int.neg_tmod] at h
    rw [Int.sign_eq_neg_one_of_neg ha, Int.sign_eq_neg_one_iff_neg]
    omega
  · simp
  · have h := Int.tmod_nonneg b ha.le
    rw [Int.sign_eq_one_of_pos ha, Int.sign_eq_one_iff_pos]
    omega

section Division

variable (a b : Int64)

theorem quotient_eq_divisionByZero_iff :
    quotient (int a) (int b) = .error .divisionByZero ↔ b = 0 := by
  rw [← toInt_eq_zero_iff]
  simp only [quotient, checked]
  grind

theorem modulo_eq_divisionByZero_iff :
    modulo (int a) (int b) = .error .divisionByZero ↔ b = 0 := by
  rw [← toInt_eq_zero_iff]
  simp only [modulo, checked]
  grind

theorem quotient_eq_overflow_iff :
    quotient (int a) (int b) = .error (.overflow .division) ↔ a = Int64.minValue ∧ b = -1 := by
  by_cases hb : b.toInt = 0
  · have hne : b ≠ -1 := by
      rintro rfl
      exact absurd hb (by decide)
    simp [quotient, hb, hne]
  · rw [← not_iff_not, ← fits_tdiv_iff hb]
    simp only [quotient, if_neg hb, checked]
    grind

theorem modulo_eq_overflow_iff :
    modulo (int a) (int b) = .error (.overflow .modulo) ↔ a = Int64.minValue ∧ b = -1 := by
  by_cases hb : b.toInt = 0
  · have hne : b ≠ -1 := by
      rintro rfl
      exact absurd hb (by decide)
    simp [modulo, hb, hne]
  · rw [← not_iff_not, ← fits_tdiv_iff hb]
    simp only [modulo, if_neg hb, checked, if_pos (fits_tmod hb)]
    grind

/-- Elsewhere there are a quotient and a remainder. -/
theorem quotient_modulo_eq_ok (hb : b ≠ 0) (h : ¬(a = Int64.minValue ∧ b = -1)) :
    ∃ q r : Int64, quotient (int a) (int b) = .ok (int q) ∧ modulo (int a) (int b) = .ok (int r) ∧
      a.toInt = q.toInt * b.toInt + r.toInt ∧ |r.toInt| < |b.toInt| ∧
      (r.toInt = 0 ∨ r.toInt.sign = a.toInt.sign) := by
  have hb : b.toInt ≠ 0 := mt (toInt_eq_zero_iff b).1 hb
  have hfits := (fits_tdiv_iff hb).2 h
  obtain ⟨q, hq, hquotient⟩ := checked_of_fits .division hfits
  obtain ⟨r, hr, hmodulo⟩ := checked_of_fits .modulo (fits_tmod hb)
  refine ⟨q, r, ?_, ?_, ?_, ?_, ?_⟩
  · rw [quotient, if_neg hb, hquotient]
  · rw [modulo, if_neg hb, if_pos hfits, hmodulo]
  · rw [hq, hr, Int.tdiv_mul_add_tmod]
  · rw [hr, Int.abs_eq_natAbs, Int.abs_eq_natAbs, Int.natAbs_tmod]
    exact_mod_cast Nat.mod_lt _ (Int.natAbs_pos.2 hb)
  · rw [hr]
    exact tmod_eq_zero_or_sign _ _

end Division

end Number

/-- The operation on numbers that an operator between two operands stands for; the two whose
results on integers can be doubles are left out. -/
def Operator.arithmetic? : Operator → Option (Number → Number → Except NumericError Number)
  | plus => some Number.add
  | minus => some Number.subtract
  | times => some Number.multiply
  | quotient => some Number.quotient
  | modulo => some Number.modulo
  | remainder => some Number.remainder
  | _ => none

/-- The outcome of an expression that computes a number: the number, or within the expression the
failure that the numeric error stands for. -/
def numericOutcome (e : Expr) (streams : Streams) : Except NumericError Number → Outcome Expr
  | .ok n => .value (.number n) streams
  | .error .mismatch => .failure ⟨[e], .numericMismatch⟩ streams
  | .error .divisionByZero => .failure ⟨[e], .divisionByZero⟩ streams
  | .error (.overflow operation) => .failure ⟨[e], .integerOverflow operation⟩ streams

section Call

variable {o : Operator} {context : Bindings} {streams after : Streams} {args values : List Expr}

/-- A call of an operator that evaluates its operands and computes a number from them. -/
theorem evaluates_numericOutcome {result : Except NumericError Number}
    (hget : context.get? o.symbol = some (.builtIn (.operator o)))
    (hcall : ∀ eval : Reduction, Reduction.callBuiltIn eval (.operator o) args context streams =
      (Reduction.all eval args context streams).andThen fun values streams =>
        .ofExcept (BuiltIn.result (.operator o) values) streams)
    (hargs : EvaluatesAll context args streams values after)
    (hresult : BuiltIn.result (.operator o) values = BuiltIn.ofNumeric result) :
    Evaluates (.call o.symbol args) context streams
      (numericOutcome (.call o.symbol args) after result) := by
  refine .of_eventually ?_ (eventually_of_succ ?_)
  · rcases result with (_ | _ | _) | _ <;> simp [numericOutcome]
  · filter_upwards [hargs.eventually, eventually_ge_atTop 1] with limit hall hlimit
    simp only [evaluate, Reduction.located, Reduction.step, hget, Reduction.callTarget, hcall,
      hall, Outcome.andThen, hresult]
    rcases result with (_ | _ | _) | n
    · rfl
    · rfl
    · rfl
    · obtain ⟨limit, rfl⟩ := Nat.exists_eq_add_of_le' hlimit
      exact congrArg (Outcome.inside _) (resume_eq_value rfl limit after)

variable {a b : Int64}

/-- An operator between two operands that evaluate to integers. -/
theorem evaluates_arithmetic {operation : Number → Number → Except NumericError Number}
    (ho : o.arithmetic? = some operation)
    (hget : context.get? o.symbol = some (.builtIn (.operator o)))
    (hargs : EvaluatesAll context args streams [.int a, .int b] after) :
    Evaluates (.call o.symbol args) context streams
      (numericOutcome (.call o.symbol args) after (operation (.int a) (.int b))) := by
  refine evaluates_numericOutcome hget ?_ hargs ?_
  · intro eval
    obtain ⟨x, y, rfl⟩ : ∃ x y, args = [x, y] := by
      rcases hargs with _ | ⟨_, _ | ⟨_, _ | _⟩⟩
      exact ⟨_, _, rfl⟩
    cases o <;> cases ho <;> rfl
  · cases o <;> cases ho <;> rfl

/-- The sign before an operand that evaluates to an integer. -/
theorem evaluates_negation
    (hget : context.get? "-" = some (.builtIn (.operator .minus)))
    (hargs : EvaluatesAll context args streams [.int a] after) :
    Evaluates (.call "-" args) context streams
      (numericOutcome (.call "-" args) after (Number.negate (.int a))) := by
  refine evaluates_numericOutcome (o := .minus) hget ?_ hargs rfl
  intro eval
  obtain ⟨x, rfl⟩ : ∃ x, args = [x] := by
    rcases hargs with _ | ⟨_, _ | _⟩
    exact ⟨_, rfl⟩
  rfl

end Call

open Number in
/-- Sums, differences, products and negations are exact or overflow. A quotient and a remainder
are missing for a divisor that is zero and for the least integer by `-1`, and elsewhere they are
those of division toward zero. The operators come to these results in every context that binds
them. -/
theorem integer_arithmetic_exact (a b : Int64) :
    IsExactly (add (int a) (int b)) .addition (a.toInt + b.toInt) ∧
    IsExactly (subtract (int a) (int b)) .subtraction (a.toInt - b.toInt) ∧
    IsExactly (multiply (int a) (int b)) .multiplication (a.toInt * b.toInt) ∧
    IsExactly (negate (int a)) .negation (-a.toInt) ∧
    (quotient (int a) (int b) = .error .divisionByZero ↔ b = 0) ∧
    (modulo (int a) (int b) = .error .divisionByZero ↔ b = 0) ∧
    (quotient (int a) (int b) = .error (.overflow .division) ↔ a = Int64.minValue ∧ b = -1) ∧
    (modulo (int a) (int b) = .error (.overflow .modulo) ↔ a = Int64.minValue ∧ b = -1) ∧
    (b ≠ 0 → ¬(a = Int64.minValue ∧ b = -1) → ∃ q r : Int64,
      quotient (int a) (int b) = .ok (int q) ∧ modulo (int a) (int b) = .ok (int r) ∧
      a.toInt = q.toInt * b.toInt + r.toInt ∧ |r.toInt| < |b.toInt| ∧
      (r.toInt = 0 ∨ r.toInt.sign = a.toInt.sign)) ∧
    remainder (int a) (int b) = modulo (int a) (int b) ∧
    (∀ (o : Operator) operation, o.arithmetic? = some operation →
      ∀ (context : Bindings), context.get? o.symbol = some (.builtIn (.operator o)) →
      ∀ x y streams after, EvaluatesAll context [x, y] streams [.int a, .int b] after →
        Evaluates (.call o.symbol [x, y]) context streams
          (numericOutcome (.call o.symbol [x, y]) after (operation (int a) (int b)))) ∧
    (∀ (context : Bindings), context.get? "-" = some (.builtIn (.operator .minus)) →
      ∀ x streams after, EvaluatesAll context [x] streams [.int a] after →
        Evaluates (.call "-" [x]) context streams
          (numericOutcome (.call "-" [x]) after (negate (int a)))) := by
  refine ⟨checked_isExactly _ _, checked_isExactly _ _, checked_isExactly _ _,
    checked_isExactly _ _, quotient_eq_divisionByZero_iff a b, modulo_eq_divisionByZero_iff a b,
    quotient_eq_overflow_iff a b, modulo_eq_overflow_iff a b, quotient_modulo_eq_ok a b, rfl,
    ?_, ?_⟩
  · intro o operation ho context hget x y streams after hargs
    exact evaluates_arithmetic ho hget hargs
  · intro context hget x streams after hargs
    exact evaluates_negation hget hargs

/-- At the start of a session the least integer has no quotient by `-1`, and `-7` leaves `-1` when
it is divided by `3`. -/
theorem integer_arithmetic_exact_at_start :
    Evaluates (.call "Div" [.int Int64.minValue, .int (-1)]) BuiltIn.startingContext (.ofText "")
      (.failure ⟨[.call "Div" [.int Int64.minValue, .int (-1)]], .integerOverflow .division⟩
        (.ofText "")) ∧
    Evaluates (.call "Mod" [.int (-7), .int 3]) BuiltIn.startingContext (.ofText "")
      (.value (.int (-1)) (.ofText "")) := by
  have hargs (a b : Int64) : EvaluatesAll BuiltIn.startingContext [.int a, .int b] (.ofText "")
      [.int a, .int b] (.ofText "") :=
    .cons ⟨by simp, 1, rfl⟩ (.cons ⟨by simp, 1, rfl⟩ (.nil _))
  obtain ⟨-, -, -, -, -, -, hoverflow, -, -, -, hleast, -⟩ :=
    integer_arithmetic_exact Int64.minValue (-1)
  obtain ⟨-, -, -, -, -, -, -, -, -, -, hseven, -⟩ := integer_arithmetic_exact (-7) 3
  constructor
  · have h := hleast .quotient _ rfl BuiltIn.startingContext rfl _ _ _ _ (hargs _ _)
    rwa [hoverflow.2 ⟨rfl, rfl⟩] at h
  · exact hseven .modulo _ rfl BuiltIn.startingContext rfl _ _ _ _ (hargs _ _)

end Song
