import Song.Proofs.Evaluation.Application
import Song.Proofs.Value.Arithmetic

/-!
# Integers as text

A string is read as an integer if it is a numeral with blanks around it and the value fits in 64
bits. A numeral that does not fit is no number at all. What an integer is written as is such a
numeral, so it is read back.
-/
namespace Song

open Decimal (natural)

namespace Text

def Pads (padded text : List Char) : Prop :=
  ∃ left right, (∀ c ∈ left, isBlank c = true) ∧ (∀ c ∈ right, isBlank c = true) ∧
    padded = left ++ text ++ right

theorem dropWhile_isBlank {text : List Char} (h : ∀ c ∈ text, isBlank c = false)
    (hne : text ≠ []) (rest : List Char) :
    (text ++ rest).dropWhile isBlank = text ++ rest := by
  cases text with
  | nil => exact absurd rfl hne
  | cons c text =>
    rw [List.cons_append, List.dropWhile_cons_of_neg]
    rw [h c List.mem_cons_self]
    exact nofun

theorem Pads.trim_eq {padded text : List Char} (h : Pads padded text)
    (htext : ∀ c ∈ text, isBlank c = false) (hne : text ≠ []) : trim padded = text := by
  obtain ⟨left, right, hleft, hright, rfl⟩ := h
  have hreverse : ∀ c ∈ text.reverse, isBlank c = false := fun c hc =>
    htext c (List.mem_reverse.1 hc)
  have hlast := dropWhile_isBlank hreverse (by simpa using hne) []
  rw [List.append_nil] at hlast
  rw [trim, List.append_assoc, List.dropWhile_append_of_pos hleft, dropWhile_isBlank htext hne,
    List.reverse_append, List.dropWhile_append_of_pos (by simpa using hright), hlast,
    List.reverse_reverse]

theorem pads_self (text : List Char) : Pads text text :=
  ⟨[], [], List.forall_mem_nil _, List.forall_mem_nil _, by simp⟩

theorem pads_trim (text : List Char) : Pads text (trim text) := by
  have hleft : ∀ c ∈ text.takeWhile isBlank, isBlank c = true := fun c => List.mem_takeWhile_imp
  have hright : ∀ c ∈ ((text.dropWhile isBlank).reverse.takeWhile isBlank).reverse,
      isBlank c = true := by
    intro c hc
    rw [List.mem_reverse] at hc
    exact List.mem_takeWhile_imp hc
  refine ⟨_, _, hleft, hright, ?_⟩
  rw [trim, List.append_assoc, ← List.reverse_append, List.takeWhile_append_dropWhile,
    List.reverse_reverse, List.takeWhile_append_dropWhile]

end Text

/-- The text is an optional minus sign and at least one digit, with this value. -/
inductive IsNumeral : List Char → Int → Prop
  | digits {text : List Char} (hne : text ≠ []) (h : ∀ c ∈ text, c.isDigit = true) :
    IsNumeral text (Nat.ofDigitChars 10 text 0)
  | minus {text : List Char} (hne : text ≠ []) (h : ∀ c ∈ text, c.isDigit = true) :
    IsNumeral ('-' :: text) (-(Nat.ofDigitChars 10 text 0 : Int))

theorem isBlank_eq_false_of_isDigit {c : Char} (h : c.isDigit = true) : Text.isBlank c = false := by
  have hbounds : 48 ≤ c.toNat ∧ c.toNat ≤ 57 := by
    simpa [Char.isDigit, UInt32.le_iff_toNat_le] using h
  simp only [Text.isBlank]
  grind

namespace IsNumeral

variable {text : List Char} {i : Int}

theorem ne_nil (h : IsNumeral text i) : text ≠ [] := by
  cases h with
  | digits hne => exact hne
  | minus => exact nofun

theorem isBlank_eq_false (h : IsNumeral text i) : ∀ c ∈ text, Text.isBlank c = false := by
  cases h with
  | digits _ h => exact fun c hc => isBlank_eq_false_of_isDigit (h c hc)
  | minus _ h =>
    exact List.forall_mem_cons.2 ⟨rfl, fun c hc => isBlank_eq_false_of_isDigit (h c hc)⟩

theorem trim_eq {padded : List Char} (hpads : Text.Pads padded text) (h : IsNumeral text i) :
    Text.trim padded = text :=
  hpads.trim_eq h.isBlank_eq_false h.ne_nil

end IsNumeral

/-- Only a numeral passes the test that stands before reading an integer. -/
theorem isInteger_iff {text : List Char} :
    BuiltIn.isInteger text = true ↔ ∃ i, IsNumeral text i := by
  constructor
  · intro h
    rw [BuiltIn.isInteger] at h
    split at h
    case isTrue hminus =>
      obtain ⟨rest, rfl⟩ := List.head?_eq_some_iff.1 hminus
      have hrest : rest ≠ [] ∧ ∀ c ∈ rest, Decimal.isDigit c = true := by simpa using h
      exact ⟨_, .minus hrest.1 hrest.2⟩
    case isFalse =>
      have htext : text ≠ [] ∧ ∀ c ∈ text, Decimal.isDigit c = true := by simpa using h
      exact ⟨_, .digits htext.1 htext.2⟩
  · rintro ⟨i, h⟩
    cases h with
    | digits hne h =>
      have hminus : ¬text.head? = some '-' := fun hhead =>
        absurd (h '-' (List.mem_of_head? hhead)) (by decide)
      have hall : text.all Decimal.isDigit = true := List.all_eq_true.2 h
      simp [BuiltIn.isInteger, hminus, hne, hall]
    | @minus rest hne h =>
      have hall : rest.all Decimal.isDigit = true := List.all_eq_true.2 h
      simp [BuiltIn.isInteger, hne, hall]

theorem natural_eq_ofDigitChars (text : List Char) :
    natural text = Nat.ofDigitChars 10 text 0 := by
  rw [natural, Nat.ofDigitChars_eq_foldl]

theorem splitSign_digits {text : List Char} (h : ∀ c ∈ text, c.isDigit = true) :
    Decimal.splitSign text = (false, text) := by
  unfold Decimal.splitSign
  split
  · exact absurd (h '-' List.mem_cons_self) (by decide)
  · exact absurd (h '+' List.mem_cons_self) (by decide)
  · rfl

theorem IsNumeral.integer? {text : List Char} {i : Int} (h : IsNumeral text i) :
    BuiltIn.integer? text = (Number.checked .negation i).toOption := by
  cases h with
  | digits _ h => simp [BuiltIn.integer?, splitSign_digits h, natural_eq_ofDigitChars]
  | minus => simp [BuiltIn.integer?, Decimal.splitSign, natural_eq_ofDigitChars]

/-- A numeral is read as an integer if its value fits, and not at all otherwise. -/
theorem IsNumeral.number? {text : List Char} {i : Int} (h : IsNumeral text i) :
    BuiltIn.number? text = (Number.checked .negation i).toOption := by
  rw [BuiltIn.number?, if_pos (isInteger_iff.2 ⟨i, h⟩), h.integer?]

theorem number?_eq_int_iff {text : List Char} {i : Int64} :
    BuiltIn.number? text = some (.int i) ↔ IsNumeral text i.toInt := by
  constructor
  · intro h
    by_cases hinteger : BuiltIn.isInteger text = true
    · obtain ⟨value, hvalue⟩ := isInteger_iff.1 hinteger
      rw [hvalue.number?, Number.checked] at h
      split at h
      case isTrue hfits =>
        have hi : Int64.ofInt value = i := by simpa [Except.toOption] using h
        rwa [← hi, Number.toInt_ofInt_of_fits hfits]
      case isFalse => cases h
    · -- What is no numeral can only be read as a double.
      rw [BuiltIn.number?, if_neg hinteger] at h
      split at h
      case isTrue =>
        obtain ⟨x, -, hx⟩ := Option.map_eq_some_iff.1 h
        cases hx
      case isFalse => cases h
  · intro h
    rw [h.number?, Number.checked, if_pos (Number.fits_toInt i), Int64.ofInt_toInt]
    rfl

theorem Expr.text?_text (chars : List Char) : (text chars).text? = some chars := by
  rw [text, text?]
  induction chars with
  | nil => rfl
  | cons c chars ih => rw [List.map_cons, characters?, ih, Option.map_some]

namespace BuiltIn

theorem toNumberValue_text (s : List Char) :
    toNumberValue (.text s) =
      match number? (Text.trim s) with
      | some n => .ok (.number n)
      | none => .error (.notANumber (.text s)) := by
  have htext := Expr.text?_text s
  rw [Expr.text] at htext ⊢
  cases hread : number? (Text.trim s) with
  | some n => simp only [toNumberValue, htext, Option.bind_some, hread]
  | none => simp only [toNumberValue, htext, Option.bind_some, hread]

theorem toNumberValue_eq_int_iff {s : List Char} {i : Int64} :
    toNumberValue (.text s) = .ok (.int i) ↔
      ∃ text, Text.Pads s text ∧ IsNumeral text i.toInt := by
  have hread : toNumberValue (.text s) = .ok (.int i) ↔ number? (Text.trim s) = some (.int i) := by
    rw [toNumberValue_text]
    cases number? (Text.trim s) <;> simp [Expr.int]
  rw [hread, number?_eq_int_iff]
  constructor
  · intro h
    exact ⟨_, Text.pads_trim s, h⟩
  · rintro ⟨text, hpads, h⟩
    rwa [h.trim_eq hpads]

theorem toNumberValue_of_not_fits {s text : List Char} {i : Int} (hpads : Text.Pads s text)
    (h : IsNumeral text i) (hfits : ¬Number.Fits i) :
    toNumberValue (.text s) = .error (.notANumber (.text s)) := by
  have hnone : number? (Text.trim s) = none := by
    rw [h.trim_eq hpads, h.number?, Number.checked, if_neg hfits]
    rfl
  rw [toNumberValue_text, hnone]

theorem toTextValue_int (i : Int64) :
    toTextValue (.int i) = .text (Decimal.Layout.integer i.toInt) := by
  change Expr.text (String.ofList (Decimal.Layout.integer i.toInt)).toList = _
  rw [String.toList_ofList]

end BuiltIn

/-- An integer is written as a numeral of its value. -/
theorem isNumeral_integer (i : Int) : IsNumeral (Decimal.Layout.integer i) i := by
  have hdigits (n : Nat) : ∀ c ∈ Nat.toDigits 10 n, c.isDigit = true :=
    fun c hc => Nat.isDigit_of_mem_toDigits (by decide) (Nat.le_refl 10) hc
  cases i with
  | ofNat n =>
    have h := IsNumeral.digits Nat.toDigits_ne_nil (hdigits n)
    rwa [Nat.ofDigitChars_ten_toDigits] at h
  | negSucc n =>
    have h := IsNumeral.minus Nat.toDigits_ne_nil (hdigits (n + 1))
    rwa [Nat.ofDigitChars_ten_toDigits] at h

section Call

variable {context : Bindings} {args : List Expr} {start streams : Streams} {v : Expr}

theorem isDeferred_of_toNumberValue {w : Expr} (h : BuiltIn.toNumberValue v = .ok w) :
    w.isDeferred = false := by
  unfold BuiltIn.toNumberValue at h
  split at h
  · cases h
    rfl
  · split at h <;> cases h
    rfl

theorem ends_number (hnumber : context.get? "number" = some (.builtIn .toNumber))
    (hargs : EvaluatesAll context args start [v] streams) :
    Ends (.call "number" args) context start (.ofExcept (BuiltIn.toNumberValue v) streams) := by
  cases hvalue : BuiltIn.toNumberValue v with
  | ok w =>
    have hmeaning : BuiltIn.meaning .toNumber [v] streams = .value w streams := by
      simp only [BuiltIn.meaning, BuiltIn.result, hvalue, Outcome.ofExcept]
    exact (Returns.of_meaning rfl rfl hmeaning (isDeferred_of_toNumberValue hvalue)).call hnumber
      rfl rfl hargs
  | error cause =>
    have hmeaning : BuiltIn.meaning .toNumber [v] streams = .fail cause streams := by
      simp only [BuiltIn.meaning, BuiltIn.result, hvalue, Outcome.ofExcept]
    exact (Returns.of_meaning_failure rfl rfl hmeaning).call hnumber rfl rfl hargs

/-- A call ends in one outcome only. -/
theorem ends_number_iff (hnumber : context.get? "number" = some (.builtIn .toNumber))
    (hargs : EvaluatesAll context args start [v] streams) {outcome : Outcome Expr} :
    Ends (.call "number" args) context start outcome ↔
      outcome = .ofExcept (BuiltIn.toNumberValue v) streams := by
  have hends := ends_number hnumber hargs
  constructor
  · intro h
    exact (evaluate_stable _ _ _).endsAs_unique h hends
  · rintro rfl
    exact hends

/-- The built-in `number` reads a string as an integer if and only if that is, with blanks around
it, an optional minus sign and digits whose value fits in 64 bits; where the value does not fit, the
call fails and ends in no other way. Every integer is read back from the string that `string` makes
of it. -/
theorem number_ends_int_iff (hnumber : context.get? "number" = some (.builtIn .toNumber))
    (hstring : context.get? "string" = some (.builtIn .toText)) :
    (∀ s, EvaluatesAll context args start [.text s] streams →
      (∀ i : Int64, Ends (.call "number" args) context start (.value (.int i) streams) ↔
        ∃ text, Text.Pads s text ∧ IsNumeral text i.toInt) ∧
      ∀ text i, Text.Pads s text → IsNumeral text i → ¬(-2 ^ 63 ≤ i ∧ i ≤ 2 ^ 63 - 1) →
        ∀ outcome, Ends (.call "number" args) context start outcome ↔
          outcome = .fail (.notANumber (.text s)) streams) ∧
    ∀ i : Int64, EvaluatesAll context args start [.int i] streams →
      Ends (.call "number" [.call "string" args]) context start (.value (.int i) streams) := by
  refine ⟨fun s hargs => ⟨fun i => ?_, fun text i hpads h hrange outcome => ?_⟩, fun i hargs => ?_⟩
  · rw [ends_number_iff hnumber hargs, ← BuiltIn.toNumberValue_eq_int_iff]
    cases BuiltIn.toNumberValue (.text s) with
    | ok v => simp only [Outcome.ofExcept, Outcome.value.injEq, and_true, Except.ok.injEq, eq_comm]
    | error cause => simp [Outcome.ofExcept, Outcome.fail]
  · rw [ends_number_iff hnumber hargs,
      BuiltIn.toNumberValue_of_not_fits hpads h (mt (Number.fits_iff i).1 hrange)]
    rfl
  · have hstrings : Returns (.builtIn .toText) [.int i] streams
        (.value (.text (Decimal.Layout.integer i.toInt)) streams) :=
      .of_meaning rfl rfl (by rw [← BuiltIn.toTextValue_int]; rfl) rfl
    have hends := hstrings.call hstring rfl rfl hargs
    have hback : BuiltIn.toNumberValue (.text (Decimal.Layout.integer i.toInt)) = .ok (.int i) :=
      BuiltIn.toNumberValue_eq_int_iff.2 ⟨_, Text.pads_self _, isNumeral_integer _⟩
    rw [ends_number_iff hnumber (.cons (ends_value_iff.1 hends) (.nil _)), hback]
    rfl

end Call

/-- The least integer with blanks around it, and the integer before it. -/
theorem number_ends_int_iff_least :
    Ends (.call "number" [.text (' ' :: "-9223372036854775808".toList ++ ['\n'])])
      BuiltIn.startingContext (.ofText "") (.value (.int Int64.minValue) (.ofText "")) ∧
    Ends (.call "number" [.text "-9223372036854775809".toList]) BuiltIn.startingContext (.ofText "")
      (.fail (.notANumber (.text "-9223372036854775809".toList)) (.ofText "")) ∧
    Ends (.call "number" [.call "string" [.int Int64.minValue]]) BuiltIn.startingContext
      (.ofText "") (.value (.int Int64.minValue) (.ofText "")) := by
  have hnumber : BuiltIn.startingContext.get? "number" = some (.builtIn .toNumber) := rfl
  have hstring : BuiltIn.startingContext.get? "string" = some (.builtIn .toText) := rfl
  have htext (s : List Char) : EvaluatesAll BuiltIn.startingContext [.text s] (.ofText "") [.text s]
      (.ofText "") := .cons (Expr.isValue_text s).evaluates (.nil _)
  have hleast : IsNumeral "-9223372036854775808".toList Int64.minValue.toInt := by
    have htoInt : Decimal.Layout.integer Int64.minValue.toInt = "-9223372036854775808".toList := by
      decide +kernel
    exact htoInt ▸ isNumeral_integer Int64.minValue.toInt
  have hbelow : IsNumeral "-9223372036854775809".toList (-9223372036854775809) := by
    have hdigits : Decimal.Layout.integer (-9223372036854775809) =
        "-9223372036854775809".toList := by decide +kernel
    exact hdigits ▸ isNumeral_integer (-9223372036854775809)
  have hpads : Text.Pads (' ' :: "-9223372036854775808".toList ++ ['\n'])
      "-9223372036854775808".toList :=
    ⟨[' '], ['\n'], List.forall_mem_singleton.2 rfl, List.forall_mem_singleton.2 rfl, rfl⟩
  refine ⟨?_, ?_, ?_⟩
  · obtain ⟨hint, -⟩ := (number_ends_int_iff hnumber hstring).1 _ (htext _)
    exact (hint _).2 ⟨_, hpads, hleast⟩
  · obtain ⟨-, hfails⟩ := (number_ends_int_iff hnumber hstring).1 _ (htext _)
    exact (hfails _ _ (Text.pads_self _) hbelow (by decide) _).2 rfl
  · exact (number_ends_int_iff hnumber hstring).2 _ (.cons (.atom rfl) (.nil _))

end Song
