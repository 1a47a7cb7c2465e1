import Song.Proofs.Library.Operators

/-!
# Divisors

Euclid's algorithm on integers of both signs. The remainder has the sign of the dividend, so only
the distance of the second argument from zero decreases, and the sign is dropped at the end.
-/
namespace Song.Library

open Number

attribute [local simp] Expr.matchParameters sameLength Expr.matchItems Expr.matchPattern
  matchPattern_int Context.get?_insert Closure.get?_scope Operator.symbol

variable {captured context : Bindings} {a b c r : Int64} {e : Expr} {args : List Expr}
  {streams after : Streams} {outcome : Outcome Expr}

def absClauses : List (Clause Expr) :=
  [⟨some "abs", [.name "n"], .call "<" [.name "n", .int 0], .call "-" [.name "n"]⟩,
    ⟨some "abs", [.name "n"], .bool true, .name "n"⟩]

def abs (captured : Bindings) : Expr :=
  .closure ⟨some "abs", absClauses, captured⟩

theorem provides_abs : Provides "abs" absClauses ["<", "-"] :=
  provides_of_spelt (by repeat constructor) (by rfl) nofun (by decide) (by decide)

abbrev absScope (captured : Bindings) (a : Int64) : Bindings :=
  Closure.scope ⟨some "abs", absClauses, captured⟩ "abs" (Context.empty.insert "n" (.int a))

theorem abs_returns (hless : captured.get? "<" = startup.get? "<")
    (hminus : captured.get? "-" = startup.get? "-") (hc : c.toInt = |a.toInt|)
    (streams : Streams) :
    Returns (abs captured) [.int a] streams (.value (.int c) streams) := by
  have hmatch : Expr.matchParameters [.name "n"] [.int a] =
      .ok (some (Context.empty.insert "n" (.int a))) := by
    simp
  have hargs : EvaluatesAll (absScope captured a) [.name "n", .int 0] streams [.int a, .int 0]
      streams := by
    simp
  have hguard : Evaluates (.call "<" [.name "n", .int 0]) (absScope captured a) streams
      (.value (.bool (a.toInt < 0)) streams) :=
    evaluates_comparison (o := .less) rfl (by simpa using hless) hargs
  apply Returns.of_dispatches
  by_cases hneg : a.toInt < 0
  · simp only [hneg, decide_true] at hguard
    rw [abs_of_neg hneg] at hc
    apply Dispatches.take_if hmatch hguard
    rw [← call_ends_iff_endsInTail, ends_value_iff]
    exact evaluates_negated (by simpa using hminus) (by simp) hc
  · simp only [hneg, decide_false] at hguard
    rw [abs_of_nonneg (by omega), Int64.toInt_inj] at hc
    apply Dispatches.reject hmatch hguard
    apply Dispatches.take hmatch
    exact Evaluates.endsInTail (by simp [hc]) rfl

/-- A call of `abs` wherever it is bound as in the library. -/
theorem ends_abs (hbound : context.get? "abs" = startup.get? "abs") (hc : c.toInt = |a.toInt|)
    (he : Evaluates e context streams (.value (.int a) after)) :
    Ends (.call "abs" [e]) context streams (.value (.int c) after) := by
  obtain ⟨captured, hget, hcaptured⟩ := provides_abs
  have hreturns : Returns (abs captured) [.int a] after (.value (.int c) after) :=
    abs_returns (hcaptured "<" (by simp)) (hcaptured "-" (by simp)) hc after
  rw [← hbound] at hget
  exact hreturns.call hget rfl rfl (by simpa using he)

theorem fits_gcd (ha : a.toInt ≠ -2 ^ 63) (hb : b.toInt ≠ -2 ^ 63) :
    Number.Fits (Int.gcd a.toInt b.toInt) := by
  have hleft := (fits_iff _).1 (fits_toInt a)
  have hright := (fits_iff _).1 (fits_toInt b)
  rw [fits_iff]
  by_cases hzero : a.toInt = 0
  · rw [hzero, Int.gcd_zero_left]
    omega
  · have hle := Int.gcd_le_natAbs_left b.toInt hzero
    omega

def gcdClauses : List (Clause Expr) :=
  [⟨some "gcd", [.name "a", .int 0], .bool true, .call "abs" [.name "a"]⟩,
    ⟨some "gcd", [.name "a", .name "b"], .bool true,
      .call "gcd" [.name "b", .call "Mod" [.name "a", .name "b"]]⟩]

def gcd (captured : Bindings) : Expr :=
  .closure ⟨some "gcd", gcdClauses, captured⟩

theorem provides_gcd : Provides "gcd" gcdClauses ["abs", "Mod"] :=
  provides_of_spelt (by repeat constructor) (by rfl) nofun (by decide) (by decide)

theorem gcd_zero (habs : captured.get? "abs" = startup.get? "abs") (hc : c.toInt = |a.toInt|)
    (streams : Streams) :
    Returns (gcd captured) [.int a, .int 0] streams (.value (.int c) streams) := by
  have hmatch : Expr.matchParameters [.name "a", .int 0] [.int a, .int 0] =
      .ok (some (Context.empty.insert "a" (.int a))) := by
    simp
  apply Returns.of_dispatches
  apply Dispatches.take hmatch
  rw [← call_ends_iff_endsInTail]
  apply ends_abs
  · simpa using habs
  · exact hc
  · simp

abbrev gcdScope (captured : Bindings) (a b : Int64) : Bindings :=
  Closure.scope ⟨some "gcd", gcdClauses, captured⟩ "gcd"
    ((Context.empty.insert "a" (.int a)).insert "b" (.int b))

theorem gcd_step (hmod : captured.get? "Mod" = startup.get? "Mod") (hb : b ≠ 0)
    (hr : modulo (.int a) (.int b) = .ok (.int r))
    (h : Returns (gcd captured) [.int b, .int r] streams outcome) :
    Returns (gcd captured) [.int a, .int b] streams outcome := by
  have hzero : Expr.matchParameters [.name "a", .int 0] [.int a, .int b] = .ok none := by
    simp [Ne.symm hb]
  have hmatch : Expr.matchParameters [.name "a", .name "b"] [.int a, .int b] =
      .ok (some ((Context.empty.insert "a" (.int a)).insert "b" (.int b))) := by
    simp
  have hoperands : EvaluatesAll (gcdScope captured a b) [.name "a", .name "b"] streams
      [.int a, .int b] streams := by
    simp
  have hrest : Evaluates (.call "Mod" [.name "a", .name "b"]) (gcdScope captured a b) streams
      (.value (.int r) streams) :=
    evaluates_integer (o := .modulo) rfl (by simpa using hmod) hoperands hr
  apply Returns.of_dispatches
  apply Dispatches.skip hzero
  apply Dispatches.take hmatch
  rw [← call_ends_iff_endsInTail]
  exact h.call (by simp [gcd]) rfl rfl (by simp [hrest])

theorem gcd_returns (habs : captured.get? "abs" = startup.get? "abs")
    (hmod : captured.get? "Mod" = startup.get? "Mod") (ha : a.toInt ≠ -2 ^ 63)
    (hb : b.toInt ≠ -2 ^ 63) (hc : c.toInt = Int.gcd a.toInt b.toInt) (streams : Streams) :
    Returns (gcd captured) [.int a, .int b] streams (.value (.int c) streams) := by
  -- The second argument comes closer to zero with each call, from either side.
  induction hdistance : b.toInt.natAbs using Nat.strong_induction_on generalizing a b with
  | _ distance ih =>
    by_cases hzero : b = 0
    · subst hzero
      apply gcd_zero habs
      simpa using hc
    · have hleast : ¬(a = Int64.minValue ∧ b = -1) := by
        rintro ⟨rfl, -⟩
        exact ha Int64.toInt_minValue
      obtain ⟨q, r, -, hr, hdivision, hlt, -⟩ := quotient_modulo_eq_ok a b hzero hleast
      rw [Int.abs_eq_natAbs, Int.abs_eq_natAbs] at hlt
      have hrange := (fits_iff _).1 (fits_toInt b)
      have hsame : c.toInt = Int.gcd b.toInt r.toInt := by
        rw [hc, hdivision, Int.gcd_comm, Int.gcd_mul_right_add_right]
      exact gcd_step hmod hzero hr (ih r.toInt.natAbs (by omega) hb (by omega) hsame rfl)

theorem ends_gcd (hbound : context.get? "gcd" = startup.get? "gcd") (ha : a.toInt ≠ -2 ^ 63)
    (hb : b.toInt ≠ -2 ^ 63) (hc : c.toInt = Int.gcd a.toInt b.toInt)
    (hargs : EvaluatesAll context args streams [.int a, .int b] after) :
    Ends (.call "gcd" args) context streams (.value (.int c) after) := by
  obtain ⟨captured, hget, hcaptured⟩ := provides_gcd
  have hreturns : Returns (gcd captured) [.int a, .int b] after (.value (.int c) after) :=
    gcd_returns (hcaptured "abs" (by simp)) (hcaptured "Mod" (by simp)) ha hb hc after
  rw [← hbound] at hget
  exact hreturns.call hget rfl rfl hargs

def lcmClauses : List (Clause Expr) :=
  [⟨some "lcm", [.int 0, .wildcard], .bool true, .int 0⟩,
    ⟨some "lcm", [.wildcard, .int 0], .bool true, .int 0⟩,
    ⟨some "lcm", [.name "a", .name "b"], .bool true,
      .call "Div" [.call "abs" [.call "*" [.name "a", .name "b"]],
        .call "gcd" [.name "a", .name "b"]]⟩]

def lcm (captured : Bindings) : Expr :=
  .closure ⟨some "lcm", lcmClauses, captured⟩

theorem provides_lcm : Provides "lcm" lcmClauses ["abs", "gcd", "*", "Div"] :=
  provides_of_spelt (by repeat constructor) (by rfl) nofun (by decide) (by decide)

theorem lcm_zero (h : a = 0 ∨ b = 0) (streams : Streams) :
    Returns (lcm captured) [.int a, .int b] streams (.value (.int 0) streams) := by
  apply Returns.of_dispatches
  by_cases ha : a = 0
  · subst ha
    have hmatch : Expr.matchParameters [.int 0, .wildcard] [.int 0, .int b] =
        .ok (some Context.empty) := by
      simp
    apply Dispatches.take hmatch
    exact Evaluates.endsInTail (by simp) rfl
  · obtain rfl : b = 0 := h.resolve_left ha
    have hfirst : Expr.matchParameters [.int 0, .wildcard] [.int a, .int 0] = .ok none := by
      simp [Ne.symm ha]
    have hmatch : Expr.matchParameters [.wildcard, .int 0] [.int a, .int 0] =
        .ok (some Context.empty) := by
      simp
    apply Dispatches.skip hfirst
    apply Dispatches.take hmatch
    exact Evaluates.endsInTail (by simp) rfl

theorem fits_lcm (hproduct : |a.toInt * b.toInt| ≤ 2 ^ 63 - 1) :
    Number.Fits (Int.lcm a.toInt b.toInt) := by
  have hle : Int.lcm a.toInt b.toInt ≤ (a.toInt * b.toInt).natAbs := by
    rw [Int.natAbs_mul]
    exact Nat.div_le_self _ _
  rw [Int.abs_eq_natAbs] at hproduct
  rw [fits_iff]
  omega

/-- The quotient of the product by the greatest common divisor is computed within the range. -/
theorem quotient_gcd {p g : Int64} (hp : p.toInt = |a.toInt * b.toInt|)
    (hg : g.toInt = Int.gcd a.toInt b.toInt) (ha : a ≠ 0)
    (hc : c.toInt = Int.lcm a.toInt b.toInt) :
    quotient (.int p) (.int g) = .ok (.int c) := by
  have ha : a.toInt ≠ 0 := mt (toInt_eq_zero_iff a).1 ha
  have hpos : Int.gcd a.toInt b.toInt ≠ 0 := by simp [Int.gcd_eq_zero_iff, ha]
  have hquotient : p.toInt.tdiv g.toInt = c.toInt := by
    rw [hp, hg, hc, Int.abs_eq_natAbs, Int.natAbs_mul]
    rfl
  rw [quotient, if_neg (by omega), hquotient, checked_toInt]

/-- What the clause for two other integers sees. -/
abbrev lcmScope (captured : Bindings) (a b : Int64) : Bindings :=
  Closure.scope ⟨some "lcm", lcmClauses, captured⟩ "lcm"
    ((Context.empty.insert "a" (.int a)).insert "b" (.int b))

theorem lcm_operands (captured : Bindings) (a b : Int64) (streams : Streams) :
    EvaluatesAll (lcmScope captured a b) [.name "a", .name "b"] streams [.int a, .int b]
      streams := by
  simp

theorem lcm_product (habs : captured.get? "abs" = startup.get? "abs")
    (htimes : captured.get? "*" = startup.get? "*")
    (hproduct : |a.toInt * b.toInt| ≤ 2 ^ 63 - 1) {p : Int64} (hp : p.toInt = |a.toInt * b.toInt|)
    (streams : Streams) :
    Evaluates (.call "abs" [.call "*" [.name "a", .name "b"]]) (lcmScope captured a b) streams
      (.value (.int p) streams) := by
  have hrange := abs_le.1 hproduct
  obtain ⟨m, hm⟩ := exists_toInt_eq (i := a.toInt * b.toInt) ((fits_iff _).2 (by omega))
  have htimes : Evaluates (.call "*" [.name "a", .name "b"]) (lcmScope captured a b) streams
      (.value (.int m) streams) :=
    evaluates_exact (o := .times) rfl (by simpa using htimes) (lcm_operands captured a b streams) hm
  rw [← hm] at hp
  rw [← ends_value_iff]
  exact ends_abs (by simpa using habs) hp htimes

theorem lcm_step (hdiv : captured.get? "Div" = startup.get? "Div")
    (hgcd : captured.get? "gcd" = startup.get? "gcd") (ha : a.toInt ≠ -2 ^ 63)
    (hb : b.toInt ≠ -2 ^ 63) (hne : ¬(a = 0 ∨ b = 0)) {p : Int64}
    (hp : p.toInt = |a.toInt * b.toInt|) (hc : c.toInt = Int.lcm a.toInt b.toInt)
    (hproduct : Evaluates (.call "abs" [.call "*" [.name "a", .name "b"]]) (lcmScope captured a b)
      streams (.value (.int p) streams)) :
    Returns (lcm captured) [.int a, .int b] streams (.value (.int c) streams) := by
  rw [not_or] at hne
  have hfirst : Expr.matchParameters [.int 0, .wildcard] [.int a, .int b] = .ok none := by
    simp [Ne.symm hne.1]
  have hsecond : Expr.matchParameters [.wildcard, .int 0] [.int a, .int b] = .ok none := by
    simp [Ne.symm hne.2]
  have hmatch : Expr.matchParameters [.name "a", .name "b"] [.int a, .int b] =
      .ok (some ((Context.empty.insert "a" (.int a)).insert "b" (.int b))) := by
    simp
  obtain ⟨g, hg⟩ := exists_toInt_eq (fits_gcd ha hb)
  have hdivisor : Evaluates (.call "gcd" [.name "a", .name "b"]) (lcmScope captured a b) streams
      (.value (.int g) streams) :=
    ends_value_iff.1 (ends_gcd (by simpa using hgcd) ha hb hg (lcm_operands captured a b streams))
  have hparts : EvaluatesAll (lcmScope captured a b)
      [.call "abs" [.call "*" [.name "a", .name "b"]], .call "gcd" [.name "a", .name "b"]] streams
      [.int p, .int g] streams :=
    .cons hproduct (.cons hdivisor (.nil streams))
  have hquotient : quotient (.int p) (.int g) = .ok (.int c) := quotient_gcd hp hg hne.1 hc
  apply Returns.of_dispatches
  apply Dispatches.skip hfirst
  apply Dispatches.skip hsecond
  apply Dispatches.take hmatch
  rw [← call_ends_iff_endsInTail, ends_value_iff]
  exact evaluates_integer (o := .quotient) rfl (by simpa using hdiv) hparts hquotient

theorem lcm_returns (habs : captured.get? "abs" = startup.get? "abs")
    (hgcd : captured.get? "gcd" = startup.get? "gcd")
    (htimes : captured.get? "*" = startup.get? "*")
    (hdiv : captured.get? "Div" = startup.get? "Div")
    (ha : a.toInt ≠ -2 ^ 63) (hb : b.toInt ≠ -2 ^ 63)
    (hproduct : |a.toInt * b.toInt| ≤ 2 ^ 63 - 1) (hc : c.toInt = Int.lcm a.toInt b.toInt)
    (streams : Streams) :
    Returns (lcm captured) [.int a, .int b] streams (.value (.int c) streams) := by
  by_cases hzero : a = 0 ∨ b = 0
  · have hc : c = 0 := by
      rw [← toInt_eq_zero_iff, hc]
      rcases hzero with rfl | rfl <;> simp
    exact hc ▸ lcm_zero hzero streams
  · have hnonneg := abs_nonneg (a.toInt * b.toInt)
    obtain ⟨p, hp⟩ := exists_toInt_eq (i := |a.toInt * b.toInt|) ((fits_iff _).2 (by omega))
    exact lcm_step hdiv hgcd ha hb hzero hp hc (lcm_product habs htimes hproduct hp streams)

/-- Wherever the names are bound as in the library, the greatest common divisor of two integers is
found, whatever their signs, and so is their least common multiple if their product fits. The least
integer has no absolute value and is left out. -/
theorem gcd_lcm_ends (hbinds : ∀ name ∈ ["gcd", "lcm"], context.get? name = startup.get? name)
    (ha : a.toInt ≠ -2 ^ 63) (hb : b.toInt ≠ -2 ^ 63)
    (hargs : EvaluatesAll context args streams [.int a, .int b] after) :
    (∃ c : Int64, c.toInt = Int.gcd a.toInt b.toInt ∧
      Ends (.call "gcd" args) context streams (.value (.int c) after)) ∧
    (|a.toInt * b.toInt| ≤ 2 ^ 63 - 1 → ∃ c : Int64, c.toInt = Int.lcm a.toInt b.toInt ∧
      Ends (.call "lcm" args) context streams (.value (.int c) after)) := by
  constructor
  · obtain ⟨c, hc⟩ := exists_toInt_eq (fits_gcd ha hb)
    exact ⟨c, hc, ends_gcd (hbinds "gcd" (by simp)) ha hb hc hargs⟩
  · intro hproduct
    obtain ⟨captured, hget, hcaptured⟩ := provides_lcm
    rw [← hbinds "lcm" (by simp)] at hget
    obtain ⟨c, hc⟩ := exists_toInt_eq (fits_lcm hproduct)
    have hreturns : Returns (lcm captured) [.int a, .int b] after (.value (.int c) after) :=
      lcm_returns (hcaptured "abs" (by simp)) (hcaptured "gcd" (by simp)) (hcaptured "*" (by simp))
        (hcaptured "Div" (by simp)) ha hb hproduct hc after
    exact ⟨c, hc, hreturns.call hget rfl rfl hargs⟩

/-- The divisors of `-12` and `18`. -/
theorem gcd_lcm_ends_startup :
    (-12 : Int64).toInt ≠ -2 ^ 63 ∧ (18 : Int64).toInt ≠ -2 ^ 63 ∧
    |(-12 : Int64).toInt * (18 : Int64).toInt| ≤ 2 ^ 63 - 1 ∧
    Ends (.call "gcd" [.int (-12), .int 18]) startup (.ofText "") (.value (.int 6) (.ofText "")) ∧
    Ends (.call "lcm" [.int (-12), .int 18]) startup (.ofText "")
      (.value (.int 36) (.ofText "")) := by
  have hargs : EvaluatesAll startup [.int (-12), .int 18] (.ofText "") [.int (-12), .int 18]
      (.ofText "") := by
    simp
  have hleft : (-12 : Int64).toInt ≠ -2 ^ 63 := by decide
  have hright : (18 : Int64).toInt ≠ -2 ^ 63 := by decide
  have hproduct : |(-12 : Int64).toInt * (18 : Int64).toInt| ≤ 2 ^ 63 - 1 := by decide
  obtain ⟨⟨g, hg, hgcd⟩, hlcm⟩ := gcd_lcm_ends (fun _ _ => rfl) hleft hright hargs
  obtain ⟨c, hc, hlcm⟩ := hlcm hproduct
  obtain rfl : g = 6 := Int64.toInt_inj.1 hg
  obtain rfl : c = 36 := Int64.toInt_inj.1 hc
  exact ⟨hleft, hright, hproduct, hgcd, hlcm⟩

end Song.Library
