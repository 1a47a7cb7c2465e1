import Mathlib
import Song.Proofs.Value.Arithmetic

/-!
# Powers of integers

With an exponent below `2 ^ 32` the power of an integer is exact or overflows. A greater exponent is
refused as an overflow whatever the base, also for the three bases whose powers always fit.
-/
namespace Song.Number

/-- The powers of other bases than `0`, `1` and `-1` leave the range at the exponent `64` at the
latest. -/
theorem not_fits_pow {base : Int} (hbase : 2 ≤ base.natAbs) {n : Nat} (hn : 64 ≤ n) :
    ¬Fits (base ^ n) := by
  have hpow : 2 ^ 64 ≤ (base ^ n).natAbs := by
    rw [Int.natAbs_pow]
    calc 2 ^ 64 ≤ base.natAbs ^ 64 := Nat.pow_le_pow_left hbase 64
      _ ≤ base.natAbs ^ n := Nat.pow_le_pow_right (by omega) hn
  rw [fits_iff]
  omega

/-- The powers of `0`, `1` and `-1` are among these three themselves. -/
theorem fits_pow {base : Int} (hbase : base.natAbs ≤ 1) (n : Nat) : Fits (base ^ n) := by
  have hpow : (base ^ n).natAbs ≤ 1 := by
    rw [Int.natAbs_pow]
    exact pow_le_one₀ (Nat.zero_le _) hbase
  rw [fits_iff]
  omega

/-- What is computed is the power, and what is not computed does not fit. -/
theorem wholePower?_cases (base : Int) (n : Nat) :
    wholePower? base n = some (base ^ n) ∨ wholePower? base n = none ∧ ¬Fits (base ^ n) := by
  rw [wholePower?]
  split
  case isTrue => exact Or.inl rfl
  case isFalse hn =>
    have hne : n ≠ 0 := by omega
    split
    case isTrue hbase =>
      rcases hbase with rfl | rfl
      · exact Or.inl (by rw [zero_pow hne])
      · exact Or.inl (by rw [one_pow])
    case isFalse hbase =>
      split
      case isTrue hminus =>
        subst hminus
        left
        apply congrArg some
        split
        case isTrue heven => rw [Even.neg_one_pow (Nat.even_iff.2 heven)]
        case isFalse hodd => rw [Odd.neg_one_pow (Nat.odd_iff.2 (by omega))]
      case isFalse hminus => exact Or.inr ⟨rfl, not_fits_pow (by omega) (by omega)⟩

section Power

variable {a b : Int64}

/-- Below `2 ^ 32` no exponent is refused. -/
theorem power_isExactly_of_lt (hb : 0 ≤ b.toInt) (hlt : b.toInt < 2 ^ 32) :
    IsExactly (power (int a) (int b)) .exponentiation (a.toInt ^ b.toInt.toNat) := by
  have hpow : Int.pow 2 32 = 2 ^ 32 := rfl
  rw [power, if_neg (by omega), if_neg (by omega)]
  rcases wholePower?_cases a.toInt b.toInt.toNat with hsome | ⟨hnone, hfits⟩
  · rw [hsome]
    exact checked_isExactly _ _
  · rw [hnone]
    rw [fits_iff] at hfits
    exact ⟨fun h => absurd h hfits, fun _ => rfl⟩

theorem power_eq_overflow (hle : 2 ^ 32 ≤ b.toInt) :
    power (int a) (int b) = .error (.overflow .exponentiation) := by
  have hpow : Int.pow 2 32 = 2 ^ 32 := rfl
  rw [power, if_neg (by omega), if_pos (by omega)]

/-- An overflow is what is to be reported, unless the power fits. -/
theorem isExactly_overflow_iff {operation : Operation} {i : Int} :
    IsExactly (.error (.overflow operation)) operation i ↔ ¬Fits i := by
  rw [IsExactly, ← fits_iff]
  constructor
  · rintro ⟨hvalue, -⟩ hfits
    obtain ⟨c, -, hc⟩ := hvalue hfits
    cases hc
  · intro hfits
    exact ⟨fun h => absurd h hfits, fun _ => rfl⟩

/-- The power is the exact integer or an overflow, with the exception of the exponents from
`2 ^ 32` on, where `0`, `1` and `-1` have powers that fit and an overflow is reported
nevertheless. -/
theorem power_isExactly_iff (hb : 0 ≤ b.toInt) :
    (IsExactly (power (int a) (int b)) .exponentiation (a.toInt ^ b.toInt.toNat) ↔
      ¬(2 ^ 32 ≤ b.toInt ∧ a.toInt.natAbs ≤ 1)) ∧
    (2 ^ 32 ≤ b.toInt ∧ a.toInt.natAbs ≤ 1 →
      power (int a) (int b) = .error (.overflow .exponentiation)) := by
  refine ⟨?_, fun h => power_eq_overflow h.1⟩
  by_cases hle : 2 ^ 32 ≤ b.toInt
  · rw [power_eq_overflow hle, isExactly_overflow_iff]
    apply not_congr
    refine ⟨?_, fun h => fits_pow h.2 _⟩
    intro hfits
    refine ⟨hle, ?_⟩
    by_contra hbase
    exact not_fits_pow (by omega) (by omega) hfits
  · exact iff_of_true (power_isExactly_of_lt hb (by omega)) fun h => hle h.1

end Power

/-- The least integer is the power `(-2) ^ 63`, and the next power of that base overflows. -/
theorem power_isExactly_iff_minusTwo :
    0 ≤ (63 : Int64).toInt ∧ 0 ≤ (64 : Int64).toInt ∧
    power (int (-2)) (int 63) = .ok (int Int64.minValue) ∧
    power (int (-2)) (int 64) = .error (.overflow .exponentiation) := by
  have hlast := (power_isExactly_iff (a := -2) (b := 63) (by decide)).1.2 (by decide)
  have hnext := (power_isExactly_iff (a := -2) (b := 64) (by decide)).1.2 (by decide)
  refine ⟨by decide, by decide, ?_, hnext.2 (by decide)⟩
  obtain ⟨c, hc, hpower⟩ := hlast.1 (by decide)
  rw [hpower, Int64.toInt_inj.1 (hc.trans (by decide : _ = Int64.minValue.toInt))]

/-- The power `1 ^ (2 ^ 32)` is `1`, and an overflow is reported. -/
theorem not_power_isExactly_one :
    0 ≤ (4294967296 : Int64).toInt ∧
    power (int 1) (int 4294967296) = .error (.overflow .exponentiation) ∧
    ¬IsExactly (power (int 1) (int 4294967296)) .exponentiation
      ((1 : Int64).toInt ^ (4294967296 : Int64).toInt.toNat) := by
  have hle : 2 ^ 32 ≤ (4294967296 : Int64).toInt := by decide
  refine ⟨by decide, power_eq_overflow hle, ?_⟩
  rw [power_eq_overflow hle, isExactly_overflow_iff, not_not]
  exact fits_pow (by decide) _

end Song.Number
