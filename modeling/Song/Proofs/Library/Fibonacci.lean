import Song.Proofs.Library.Operators

/-!
# Fibonacci numbers

The recursion carries two Fibonacci numbers in a row and adds them before it finds that it is done.
A call therefore overflows as soon as the number after the one asked for does not fit.
-/
namespace Song.Library

open Number

attribute [local simp] Expr.matchParameters sameLength Expr.matchItems Expr.matchPattern
  matchPattern_int Context.get?_insert Closure.get?_scope Operator.symbol

variable {captured context : Bindings} {n m a b c : Int64} {args : List Expr}
  {streams after : Streams} {outcome : Outcome Expr}

def fibonacciClauses : List (Clause Expr) :=
  [⟨some "fibonacci", [.int 0, .name "a", .wildcard], .bool true, .name "a"⟩,
    ⟨some "fibonacci", [.name "n", .name "a", .name "b"], .bool true,
      .call "fibonacci" [.call "-" [.name "n", .int 1], .name "b",
        .call "+" [.name "a", .name "b"]]⟩,
    ⟨some "fibonacci", [.name "n"], .call ">=" [.name "n", .int 0],
      .call "fibonacci" [.name "n", .int 0, .int 1]⟩]

def fibonacci (captured : Bindings) : Expr :=
  .closure ⟨some "fibonacci", fibonacciClauses, captured⟩

theorem provides_fibonacci : Provides "fibonacci" fibonacciClauses ["-", "+", ">="] :=
  provides_of_spelt (by repeat constructor) (by rfl) nofun (by decide) (by decide)

theorem fibonacci_done (captured : Bindings) (a b : Int64) (streams : Streams) :
    Returns (fibonacci captured) [.int 0, .int a, .int b] streams (.value (.int a) streams) := by
  have hmatch : Expr.matchParameters [.int 0, .name "a", .wildcard] [.int 0, .int a, .int b] =
      .ok (some (Context.empty.insert "a" (.int a))) := by
    simp
  apply Returns.of_dispatches
  apply Dispatches.take hmatch
  exact Evaluates.endsInTail (by simp) rfl

/-- What the clause that calls itself sees. -/
abbrev fibonacciScope (captured : Bindings) (n a b : Int64) : Bindings :=
  Closure.scope ⟨some "fibonacci", fibonacciClauses, captured⟩ "fibonacci"
    (((Context.empty.insert "n" (.int n)).insert "a" (.int a)).insert "b" (.int b))

theorem fibonacci_of_ends (hn : n ≠ 0)
    (h : Ends (.call "fibonacci" [.call "-" [.name "n", .int 1], .name "b",
      .call "+" [.name "a", .name "b"]]) (fibonacciScope captured n a b) streams outcome) :
    Returns (fibonacci captured) [.int n, .int a, .int b] streams outcome := by
  have hdone : Expr.matchParameters [.int 0, .name "a", .wildcard] [.int n, .int a, .int b] =
      .ok none := by
    simp [Ne.symm hn]
  have hmatch : Expr.matchParameters [.name "n", .name "a", .name "b"] [.int n, .int a, .int b] =
      .ok (some (((Context.empty.insert "n" (.int n)).insert "a" (.int a)).insert "b"
        (.int b))) := by
    simp
  apply Returns.of_dispatches
  apply Dispatches.skip hdone
  apply Dispatches.take hmatch
  rw [← call_ends_iff_endsInTail]
  exact h

theorem fibonacci_count (hminus : captured.get? "-" = startup.get? "-")
    (hm : m.toInt = n.toInt - 1) (a b : Int64) (streams : Streams) :
    Evaluates (.call "-" [.name "n", .int 1]) (fibonacciScope captured n a b) streams
      (.value (.int m) streams) :=
  evaluates_predecessor (by simpa using hminus) (by simp) hm

theorem fibonacci_operands (captured : Bindings) (n a b : Int64) (streams : Streams) :
    EvaluatesAll (fibonacciScope captured n a b) [.name "a", .name "b"] streams [.int a, .int b]
      streams := by
  simp

theorem fibonacci_step (hminus : captured.get? "-" = startup.get? "-")
    (hplus : captured.get? "+" = startup.get? "+") (hn : n ≠ 0) (hm : m.toInt = n.toInt - 1)
    (hc : c.toInt = a.toInt + b.toInt)
    (h : Returns (fibonacci captured) [.int m, .int b, .int c] streams outcome) :
    Returns (fibonacci captured) [.int n, .int a, .int b] streams outcome := by
  have hsum : Evaluates (.call "+" [.name "a", .name "b"]) (fibonacciScope captured n a b) streams
      (.value (.int c) streams) :=
    evaluates_exact (o := .plus) rfl (by simpa using hplus)
      (fibonacci_operands captured n a b streams) hc
  have hargs : EvaluatesAll (fibonacciScope captured n a b)
      [.call "-" [.name "n", .int 1], .name "b", .call "+" [.name "a", .name "b"]] streams
      [.int m, .int b, .int c] streams :=
    .cons (fibonacci_count hminus hm a b streams) (by simp [hsum])
  apply fibonacci_of_ends hn
  exact h.call (by simp [fibonacci]) rfl rfl hargs

/-- The sum is formed also for the last call, which leaves it alone. -/
theorem fibonacci_step_fails (hminus : captured.get? "-" = startup.get? "-")
    (hplus : captured.get? "+" = startup.get? "+") (hn : n ≠ 0) (hm : m.toInt = n.toInt - 1)
    (hsum : ¬Number.Fits (a.toInt + b.toInt)) :
    Returns (fibonacci captured) [.int n, .int a, .int b] streams
      (.fail (.integerOverflow .addition) streams) := by
  have hfails : Ends (.call "+" [.name "a", .name "b"]) (fibonacciScope captured n a b) streams
      (.fail (.integerOverflow .addition) streams) :=
    ends_sum_overflow (by simpa using hplus) (fibonacci_operands captured n a b streams) hsum
  have hcount := fibonacci_count hminus hm a b streams
  have hbefore : EvaluatesAll (fibonacciScope captured n a b)
      [.call "-" [.name "n", .int 1], .name "b"] streams [.int m, .int b] streams := by
    simp [hcount]
  have hget : (fibonacciScope captured n a b).get? "fibonacci" = some (fibonacci captured) := by
    simp [fibonacci]
  apply fibonacci_of_ends hn
  exact ends_call_of_fails hget rfl rfl hbefore hfails

/-- The 92nd Fibonacci number is the last one in the range. -/
theorem fits_fib_iff (k : Nat) : Number.Fits (Nat.fib k) ↔ k ≤ 92 := by
  rw [fits_iff]
  constructor
  · intro h
    by_contra hlate
    have hmono : Nat.fib 93 ≤ Nat.fib k := Nat.fib_mono (by omega)
    have hvalue : Nat.fib 93 = 12200160415121876738 := by norm_num
    omega
  · intro h
    have hmono : Nat.fib k ≤ Nat.fib 92 := Nat.fib_mono h
    have hvalue : Nat.fib 92 = 7540113804746346429 := by norm_num
    omega

/-- From two numbers in a row the recursion comes to the one that is as many places further, unless
the number after that one does not fit. -/
theorem fibonacci_run (hminus : captured.get? "-" = startup.get? "-")
    (hplus : captured.get? "+" = startup.get? "+") {count k : Nat} (hn : n.toInt = count)
    (ha : a.toInt = Nat.fib k) (hb : b.toInt = Nat.fib (k + 1)) (streams : Streams) :
    (Number.Fits (Nat.fib (k + count + 1)) → ∀ c : Int64, c.toInt = Nat.fib (k + count) →
      Returns (fibonacci captured) [.int n, .int a, .int b] streams (.value (.int c) streams)) ∧
    (¬Number.Fits (Nat.fib (k + count + 1)) →
      Returns (fibonacci captured) [.int n, .int a, .int b] streams
        (.fail (.integerOverflow .addition) streams)) := by
  induction count generalizing n a b k with
  | zero =>
    obtain rfl : n = 0 := (toInt_eq_zero_iff n).1 hn
    constructor
    · intro _ c hc
      rw [Nat.add_zero, ← ha, Int64.toInt_inj] at hc
      subst hc
      exact fibonacci_done captured c b streams
    · intro hover
      rw [Nat.add_zero, ← hb] at hover
      exact absurd (fits_toInt b) hover
  | succ count ih =>
    obtain ⟨hne, m, hm, hcount⟩ := exists_predecessor hn
    have hsum : a.toInt + b.toInt = Nat.fib (k + 1 + 1) := by
      rw [ha, hb, Nat.fib_add_two, Nat.cast_add]
    have hindex : k + (count + 1) = k + 1 + count := by omega
    rw [hindex]
    by_cases hfits : Number.Fits (Nat.fib (k + 1 + 1))
    · obtain ⟨c, hc⟩ := exists_toInt_eq hfits
      obtain ⟨hreturns, hfails⟩ := ih hcount hb hc
      rw [← hsum] at hc
      constructor
      · intro hnext d hd
        exact fibonacci_step hminus hplus hne hm hc (hreturns hnext d hd)
      · intro hover
        exact fibonacci_step hminus hplus hne hm hc (hfails hover)
    · constructor
      · intro hnext
        rw [fits_fib_iff] at hfits hnext
        omega
      · intro _
        rw [← hsum] at hfits
        exact fibonacci_step_fails hminus hplus hne hm hfits

abbrev startScope (captured : Bindings) (n : Int64) : Bindings :=
  Closure.scope ⟨some "fibonacci", fibonacciClauses, captured⟩ "fibonacci"
    (Context.empty.insert "n" (.int n))

/-- The recursion starts from the first two numbers if the index is not negative. -/
theorem fibonacci_start (horder : captured.get? ">=" = startup.get? ">=") (hn : 0 ≤ n.toInt)
    (h : Returns (fibonacci captured) [.int n, .int 0, .int 1] streams outcome) :
    Returns (fibonacci captured) [.int n] streams outcome := by
  have hmatch : Expr.matchParameters [.name "n"] [.int n] =
      .ok (some (Context.empty.insert "n" (.int n))) := by
    simp
  have hargs : EvaluatesAll (startScope captured n) [.name "n", .int 0] streams [.int n, .int 0]
      streams := by
    simp
  have hguard : Evaluates (.call ">=" [.name "n", .int 0]) (startScope captured n) streams
      (.value (.bool (0 ≤ n.toInt)) streams) :=
    evaluates_comparison (o := .greaterOrEqual) rfl (by simpa using horder) hargs
  simp only [hn, decide_true] at hguard
  apply Returns.of_dispatches
  apply Dispatches.skip (by simp)
  apply Dispatches.skip (by simp)
  apply Dispatches.take_if hmatch hguard
  rw [← call_ends_iff_endsInTail]
  exact h.call (by simp [fibonacci]) rfl rfl (by simp)

/-- The call comes to the Fibonacci number if that fits, and overflows if it does not. -/
def IsFibonacci (k : Nat) (call : Expr) (context : Bindings) (streams after : Streams) : Prop :=
  (Number.Fits (Nat.fib k) → ∃ c : Int64, c.toInt = Nat.fib k ∧
    Ends call context streams (.value (.int c) after)) ∧
  (¬Number.Fits (Nat.fib k) → ∃ operation,
    Ends call context streams (.fail (.integerOverflow operation) after))

/-- A call that overflows is not the way to a Fibonacci number that fits. -/
theorem not_isFibonacci_of_fails {k : Nat} {call : Expr} {cause : Cause}
    (hfits : Number.Fits (Nat.fib k)) (h : Ends call context streams (.fail cause after)) :
    ¬IsFibonacci k call context streams after := by
  rintro ⟨hvalue, -⟩
  obtain ⟨c, -, hends⟩ := hvalue hfits
  cases (evaluate_stable _ _ _).endsAs_unique h hends

theorem fibonacci_ends (hbound : context.get? "fibonacci" = startup.get? "fibonacci") {k : Nat}
    (hn : n.toInt = k) (hargs : EvaluatesAll context args streams [.int n] after) :
    (∀ c : Int64, c.toInt = Nat.fib k → k ≤ 91 →
      Ends (.call "fibonacci" args) context streams (.value (.int c) after)) ∧
    (92 ≤ k →
      Ends (.call "fibonacci" args) context streams
        (.fail (.integerOverflow .addition) after)) := by
  obtain ⟨captured, hget, hcaptured⟩ := provides_fibonacci
  rw [← hbound] at hget
  have hrun := fibonacci_run (hcaptured "-" (by simp)) (hcaptured "+" (by simp)) (a := 0) (b := 1)
    (k := 0) hn rfl rfl after
  rw [Nat.zero_add, fits_fib_iff] at hrun
  have hstart {outcome : Outcome Expr}
      (h : Returns (fibonacci captured) [.int n, .int 0, .int 1] after outcome) :
      Returns (fibonacci captured) [.int n] after outcome :=
    fibonacci_start (hcaptured ">=" (by simp)) (by omega) h
  constructor
  · intro c hc hk
    exact (hstart (hrun.1 (by omega) c hc)).call hget rfl rfl hargs
  · intro hk
    exact (hstart (hrun.2 (by omega))).call hget rfl rfl hargs

/-- Wherever the name is bound as in the library, a call with an index that is not negative comes to
the Fibonacci number of that index if this fits and overflows if it does not, with one exception:
the last number that fits is not found, because the one after it is computed first. -/
theorem fibonacci_isFibonacci_iff (hbound : context.get? "fibonacci" = startup.get? "fibonacci")
    (hn : 0 ≤ n.toInt) (hargs : EvaluatesAll context args streams [.int n] after) :
    (IsFibonacci n.toInt.toNat (.call "fibonacci" args) context streams after ↔ n ≠ 92) ∧
    (n = 92 → Number.Fits (Nat.fib n.toInt.toNat) ∧
      Ends (.call "fibonacci" args) context streams
        (.fail (.integerOverflow .addition) after)) := by
  obtain ⟨hvalue, hover⟩ := fibonacci_ends hbound (k := n.toInt.toNat) (by omega) hargs
  have hlast : n = 92 ↔ n.toInt.toNat = 92 := by
    rw [← Int64.toInt_inj]
    change n.toInt = 92 ↔ n.toInt.toNat = 92
    omega
  simp only [IsFibonacci, fits_fib_iff, ne_eq, hlast]
  constructor
  · constructor
    · intro hexact hn
      apply not_isFibonacci_of_fails ((fits_fib_iff _).2 hn.le) (hover hn.ge)
      simpa only [IsFibonacci, fits_fib_iff] using hexact
    · intro hn
      constructor
      · intro hle
        obtain ⟨c, hc⟩ := exists_toInt_eq ((fits_fib_iff _).2 hle)
        exact ⟨c, hc, hvalue c hc (by omega)⟩
      · intro hlt
        exact ⟨.addition, hover (by omega)⟩
  · intro hn
    exact ⟨hn.le, hover hn.ge⟩

/-- The number 91 is the last index at which the number is found, and from 93 on none fits. -/
theorem fibonacci_isFibonacci_iff_ninetyOne :
    0 ≤ (91 : Int64).toInt ∧ 0 ≤ (93 : Int64).toInt ∧
    Ends (.call "fibonacci" [.int 91]) startup (.ofText "")
      (.value (.int 4660046610375530309) (.ofText "")) ∧
    ∃ operation, Ends (.call "fibonacci" [.int 93]) startup (.ofText "")
      (.fail (.integerOverflow operation) (.ofText "")) := by
  have hargs (n : Int64) : EvaluatesAll startup [.int n] (.ofText "") [.int n] (.ofText "") := by
    simp
  have hfound := (fibonacci_isFibonacci_iff rfl (by decide) (hargs 91)).1.2 (by decide)
  have hover := (fibonacci_isFibonacci_iff rfl (by decide) (hargs 93)).1.2 (by decide)
  obtain ⟨c, hc, hends⟩ := hfound.1 ((fits_fib_iff 91).2 (by decide))
  have hvalue : Nat.fib 91 = 4660046610375530309 := by norm_num
  obtain rfl : c = 4660046610375530309 := Int64.toInt_inj.1 (hc.trans (congrArg Nat.cast hvalue))
  exact ⟨by decide, by decide, hends, hover.2 (mt (fits_fib_iff 93).1 (by decide))⟩

/-- The Fibonacci number of the index 92 fits, and the call overflows nevertheless. -/
theorem not_isFibonacci_ninetyTwo :
    Nat.fib 92 = 7540113804746346429 ∧ Number.Fits (Nat.fib 92) ∧
    Ends (.call "fibonacci" [.int 92]) startup (.ofText "")
      (.fail (.integerOverflow .addition) (.ofText "")) ∧
    ¬IsFibonacci 92 (.call "fibonacci" [.int 92]) startup (.ofText "") (.ofText "") := by
  have hargs : EvaluatesAll startup [.int 92] (.ofText "") [.int 92] (.ofText "") := by
    simp
  have hfits : Number.Fits (Nat.fib 92) := (fits_fib_iff 92).2 le_rfl
  have hover := (fibonacci_ends (k := 92) rfl rfl hargs).2 le_rfl
  exact ⟨by norm_num, hfits, hover, not_isFibonacci_of_fails hfits hover⟩

end Song.Library
