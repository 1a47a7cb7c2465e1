import Mathlib
import Song.Proofs.Value.Destructuring

/-!
# Comparing values

`Eq` compares two values of one kind, and lists item by item up to the first difference. Where it
answers at all, the answer is structural equality. The other way round it gives the same answer,
or fails at the same place for the same cause, with the two sides exchanged.
-/
namespace Song

open Filter

/-- Equality of doubles does not depend on which of them comes first. -/
theorem float_beq_comm (x y : Float) : (x == y) = (y == x) := by
  rw [Bool.eq_iff_iff, Float.beq_iff_ne_nan_and_eq, Float.beq_iff_ne_nan_and_eq]
  grind

namespace Number

theorem equal_comm (m n : Number) : n.equal m = m.equal n := by
  cases m <;> cases n <;> simp only [equal]
  case int.int i j => rw [Bool.beq_comm]
  case float.float x y => rw [float_beq_comm]

/-- Numbers of one kind are compared, and those of two kinds are not. -/
theorem equal_eq (m n : Number) : m.equal n = .ok (m.same n) ∨ m.equal n = .error .mismatch := by
  cases m <;> cases n
  · exact Or.inl rfl
  · exact Or.inr rfl
  · exact Or.inr rfl
  · exact Or.inl rfl

end Number

/-- The cause as it is when the two sides are exchanged. -/
def Cause.mirrored : Cause → Cause
  | notComparable left right => notComparable right left
  | other => other

inductive Cause.IsIncomparable : Cause → Prop
  | kinds (left right : Expr) : IsIncomparable (.notComparable left right)
  | numbers : IsIncomparable .numericMismatch

theorem Cause.mirrored_injective : Function.Injective Cause.mirrored := by
  have hinvolutive (cause : Cause) : cause.mirrored.mirrored = cause := by cases cause <;> rfl
  exact Function.LeftInverse.injective hinvolutive

/-- A result is known from what it is the other way round. -/
theorem mapError_mirrored_eq_iff {first : Except Cause Bool} (result : Except Cause Bool) :
    first.mapError Cause.mirrored = result.mapError Cause.mirrored ↔ first = result := by
  cases first <;> cases result <;> simp [Except.mapError, Cause.mirrored_injective.eq_iff]

namespace Expr

theorem sameItems_of_length_ne {xs ys : List Expr} (h : xs.length ≠ ys.length) :
    sameItems xs ys = false := by
  induction xs generalizing ys with
  | nil =>
    cases ys with
    | nil => exact absurd rfl h
    | cons => rfl
  | cons x xs ih =>
    cases ys with
    | nil => rfl
    | cons y ys =>
      rw [sameItems, ih fun hlength => h (congrArg Nat.succ hlength), Bool.and_false]

end Expr

namespace BuiltIn

mutual
/-- Comparing the other way round mirrors the cause of a failure and changes nothing else. -/
theorem equal_swap (a b : Expr) : equal b a = (equal a b).mapError Cause.mirrored := by
  cases a with
  | bool x =>
    cases b with
    | bool y => rw [equal, equal, Bool.beq_comm]; rfl
    | _ => rfl
  | number m =>
    cases b with
    | number n =>
      rw [equal, equal, Number.equal_comm m n]
      rcases m.equal_eq n with h | h <;> rw [h] <;> rfl
    | _ => rfl
  | char x =>
    cases b with
    | char y => rw [equal, equal, Bool.beq_comm]; rfl
    | _ => rfl
  | list xs =>
    cases b with
    | list ys =>
      rw [equal, equal]
      by_cases hlength : xs.length = ys.length
      · rw [if_neg (not_not_intro hlength), if_neg (not_not_intro hlength.symm)]
        exact equalItems_swap xs ys
      · rw [if_pos hlength, if_pos (Ne.symm hlength)]
        rfl
    | _ => rfl
  | _ => cases b <;> rfl

theorem equalItems_swap (xs ys : List Expr) :
    equalItems ys xs = (equalItems xs ys).mapError Cause.mirrored := by
  match xs, ys with
  | [], [] | [], _ :: _ | _ :: _, [] => rfl
  | x :: xs, y :: ys =>
    rw [equalItems, equalItems, equal_swap x y]
    rcases equal x y with cause | _ | _
    · rfl
    · rfl
    · exact equalItems_swap xs ys
end

mutual
/-- Where values can be compared, the answer is structural equality. -/
theorem equal_answers (a b : Expr) :
    equal a b = .ok (a.same b) ∨ ∃ cause, equal a b = .error cause ∧ cause.IsIncomparable := by
  cases a with
  | bool x =>
    cases b with
    | bool y => exact Or.inl rfl
    | _ => exact Or.inr ⟨_, rfl, .kinds _ _⟩
  | number m =>
    cases b with
    | number n =>
      rw [equal]
      rcases m.equal_eq n with h | h <;> rw [h]
      · exact Or.inl rfl
      · exact Or.inr ⟨_, rfl, .numbers⟩
    | _ => exact Or.inr ⟨_, rfl, .kinds _ _⟩
  | char x =>
    cases b with
    | char y => exact Or.inl rfl
    | _ => exact Or.inr ⟨_, rfl, .kinds _ _⟩
  | list xs =>
    cases b with
    | list ys =>
      rw [equal]
      by_cases hlength : xs.length = ys.length
      · rw [if_neg (not_not_intro hlength)]
        exact equalItems_answers xs ys hlength
      · have hsame : (Expr.list xs).same (.list ys) = Expr.sameItems xs ys := rfl
        rw [if_pos hlength, hsame, Expr.sameItems_of_length_ne hlength]
        exact Or.inl rfl
    | _ => exact Or.inr ⟨_, rfl, .kinds _ _⟩
  | _ => cases b <;> exact Or.inr ⟨_, rfl, .kinds _ _⟩

theorem equalItems_answers (xs ys : List Expr) (hlength : xs.length = ys.length) :
    equalItems xs ys = .ok (Expr.sameItems xs ys) ∨
      ∃ cause, equalItems xs ys = .error cause ∧ cause.IsIncomparable := by
  match xs, ys with
  | [], [] => exact Or.inl rfl
  | x :: xs, y :: ys =>
    rw [equalItems, Expr.sameItems]
    rcases equal_answers x y with h | ⟨cause, h, hcause⟩
    · rw [h]
      cases x.same y with
      | false => exact Or.inl rfl
      | true => exact equalItems_answers xs ys (Nat.succ.inj hlength)
    · rw [h]
      exact Or.inr ⟨cause, rfl, hcause⟩
end

end BuiltIn

/-- Truth values, numbers and characters, and lists of these to any depth. -/
inductive Expr.IsData : Expr → Prop
  | bool (b : Bool) : IsData (.bool b)
  | number (n : Number) : IsData (.number n)
  | char (c : Char) : IsData (.char c)
  | list {items : List Expr} (h : ∀ v ∈ items, IsData v) : IsData (.list items)

namespace BuiltIn

theorem equalItems_self {items : List Expr} (h : ∀ v ∈ items, equal v v = .ok true) :
    equalItems items items = .ok true := by
  induction items with
  | nil => rfl
  | cons v rest ih =>
    obtain ⟨hfirst, hrest⟩ := List.forall_mem_cons.1 h
    rw [equalItems, hfirst]
    exact ih hrest

/-- Data without not-a-number is equal to itself. -/
theorem equal_self {v : Expr} (h : v.IsData) (hnan : v.Everywhere fun part => part.isNaN = false) :
    equal v v = .ok true := by
  induction h with
  | bool b => simp [equal]
  | char c => simp [equal]
  | number n =>
    cases n with
    | int i => simp [equal, Number.equal]
    | float x => simpa [equal, Number.equal, Expr.isNaN] using hnan.here
  | list _ ih =>
    rw [equal, if_neg (not_not_intro rfl)]
    exact equalItems_self fun v hv => ih v hv (hnan.part hv)

end BuiltIn

theorem Evaluates.unique {e : Expr} {context : Bindings} {streams : Streams}
    {first second : Outcome Expr} (h : Evaluates e context streams first)
    (h' : Evaluates e context streams second) : first = second := by
  obtain ⟨hended, n, rfl⟩ := h
  obtain ⟨hended', m, rfl⟩ := h'
  exact evaluate_unique hended hended'

/-- The outcome of an expression that comes to a truth value or fails itself for a cause. -/
def verdict (e : Expr) (streams : Streams) : Except Cause Bool → Outcome Expr
  | .ok r => .value (.bool r) streams
  | .error cause => .failure ⟨[e], cause⟩ streams

theorem verdict_injective (e : Expr) (streams : Streams) :
    Function.Injective (verdict e streams) := by
  intro first second h
  cases first <;> cases second <;> cases h <;> rfl

/-- The call with two operands comes to a truth value or fails for a cause, and the streams stay as
they are. -/
def Compares (callee : String) (a b : Expr) (context : Bindings) (streams : Streams)
    (result : Except Cause Bool) : Prop :=
  Evaluates (.call callee [a, b]) context streams (verdict (.call callee [a, b]) streams result)

section Call

variable {C : Clause Expr → Prop} {a b : Expr} (ha : a.IsValue C) (hb : b.IsValue C)
  {context : Bindings} (streams : Streams)

include ha hb

/-- A call of a built-in function that evaluates both operands. -/
theorem compares_of_result {callee : String} {f : BuiltIn} {result : Except Cause Bool}
    (hget : context.get? callee = some (.builtIn f))
    (hcall : ∀ eval : Reduction, Reduction.callBuiltIn eval f [a, b] context streams =
      (Reduction.all eval [a, b] context streams).andThen fun values streams =>
        .ofExcept (f.result values) streams)
    (hresult : f.result [a, b] = result.map .bool) :
    Compares callee a b context streams result := by
  refine .of_eventually (by cases result <;> simp [verdict]) (eventually_of_succ ?_)
  filter_upwards [ha.evaluate_eventually context streams, hb.evaluate_eventually context streams,
    eventually_ge_atTop 1] with n hleft hright hn
  have hresume (r : Bool) : resume n (.bool r) streams = .value (.bool r) streams := by
    obtain ⟨m, rfl⟩ := Nat.exists_eq_add_of_le' hn
    exact resume_eq_value rfl m streams
  simp only [evaluate, Reduction.located, Reduction.step, hget, Reduction.callTarget, hcall,
    Reduction.all, hleft, hright, Outcome.andThen, hresult]
  cases result with
  | error cause => rfl
  | ok r => exact congrArg (Outcome.inside _) (hresume r)

variable (heq : context.get? "Eq" = some (.builtIn (.operator .equal)))

include heq

theorem compares_equal : Compares "Eq" a b context streams (BuiltIn.equal a b) :=
  compares_of_result ha hb streams heq (fun _ => rfl) rfl

/-- The result of a comparison is the one that is computed. -/
theorem compares_equal_iff (result : Except Cause Bool) :
    Compares "Eq" a b context streams result ↔ BuiltIn.equal a b = result := by
  have h := compares_equal ha hb streams heq
  constructor
  · intro h'
    exact verdict_injective _ streams (h.unique h')
  · rintro rfl
    exact h

end Call

/-- A comparison of two value forms ends. If it answers, the answer is structural equality, and
`Neq` answers the contrary; if it fails, the values, or two of their parts, are of different kinds.
The other way round it answers the same or fails with the two sides exchanged. Data without
not-a-number is equal to itself. -/
theorem eq_call_answers_same {C : Clause Expr → Prop} {a b : Expr} (ha : a.IsValue C)
    (hb : b.IsValue C) {context : Bindings}
    (heq : context.get? "Eq" = some (.builtIn (.operator .equal)))
    (hneq : context.get? "Neq" = some (.builtIn (.operator .notEqual))) (streams : Streams) :
    (∃ result, Compares "Eq" a b context streams result) ∧
    (∀ r, Compares "Eq" a b context streams (.ok r) →
      r = a.same b ∧ Compares "Neq" a b context streams (.ok !r)) ∧
    (∀ r, Compares "Eq" a b context streams (.ok r) ↔
      Compares "Eq" b a context streams (.ok r)) ∧
    (∀ x y, Compares "Eq" a b context streams (.error (.notComparable x y)) ↔
      Compares "Eq" b a context streams (.error (.notComparable y x))) ∧
    (Compares "Eq" a b context streams (.error .numericMismatch) ↔
      Compares "Eq" b a context streams (.error .numericMismatch)) ∧
    (∀ f after, Evaluates (.call "Eq" [a, b]) context streams (.failure f after) →
      after = streams ∧ f.cause.IsIncomparable) ∧
    (a.IsData → (a.Everywhere fun part => part.isNaN = false) →
      Compares "Eq" a a context streams (.ok true)) := by
  simp only [compares_equal_iff ha hb streams heq, compares_equal_iff hb ha streams heq,
    compares_equal_iff ha ha streams heq, BuiltIn.equal_swap a b]
  have hanswers := BuiltIn.equal_answers a b
  have hnotEqual : Compares "Neq" a b context streams ((BuiltIn.equal a b).map not) := by
    apply compares_of_result ha hb streams hneq (fun _ => rfl)
    change (BuiltIn.equal a b).map (fun r => Expr.bool !r) = _
    cases BuiltIn.equal a b <;> rfl
  refine ⟨⟨_, rfl⟩, ?_, ?_, ?_, ?_, ?_, fun hdata hnan => BuiltIn.equal_self hdata hnan⟩
  · intro r hr
    rw [hr] at hanswers hnotEqual
    refine ⟨?_, hnotEqual⟩
    rcases hanswers with h | ⟨cause, h, -⟩ <;> cases h
    rfl
  · intro r
    exact (mapError_mirrored_eq_iff (.ok r)).symm
  · intro x y
    exact (mapError_mirrored_eq_iff (.error (.notComparable x y))).symm
  · exact (mapError_mirrored_eq_iff (.error .numericMismatch)).symm
  · intro f after hfails
    have houtcome := (compares_equal ha hb streams heq).unique hfails
    rcases hanswers with h | ⟨cause, h, hcause⟩ <;> rw [h] at houtcome <;> cases houtcome
    exact ⟨rfl, hcause⟩

def comparing : Bindings :=
  .ofList [("Eq", .builtIn (.operator .equal)), ("Neq", .builtIn (.operator .notEqual))]

def nested (item : Expr) : Expr :=
  .list [.int 1, .list [.bool true, item]]

/-- The lists `[1, [true, 'x']]` and `[1, [true, 2]]` differ in a part that cannot be compared. -/
theorem eq_call_answers_same_nested :
    Compares "Eq" (nested (.char 'x')) (nested (.int 2)) comparing (.ofText "")
      (.error (.notComparable (.char 'x') (.int 2))) ∧
    Compares "Eq" (nested (.int 2)) (nested (.char 'x')) comparing (.ofText "")
      (.error (.notComparable (.int 2) (.char 'x'))) ∧
    Compares "Eq" (nested (.char 'x')) (nested (.char 'x')) comparing (.ofText "") (.ok true) := by
  have hvalue {item : Expr} (h : item.IsValue fun _ => True) :
      (nested item).IsValue fun _ => True :=
    .list (List.forall_mem_cons.2 ⟨.number _, List.forall_mem_singleton.2
      (.list (List.forall_mem_cons.2 ⟨.bool true, List.forall_mem_singleton.2 h⟩))⟩)
  have hdata : (nested (.char 'x')).IsData :=
    .list (List.forall_mem_cons.2 ⟨.number _, List.forall_mem_singleton.2
      (.list (List.forall_mem_cons.2 ⟨.bool true, List.forall_mem_singleton.2 (.char 'x')⟩))⟩)
  have hnan : (nested (.char 'x')).Everywhere fun part => part.isNaN = false := by
    simp [nested, Expr.everywhere_iff, Expr.parts, Expr.isNaN, Expr.int]
  have heq : comparing.get? "Eq" = some (.builtIn (.operator .equal)) := rfl
  obtain ⟨-, -, -, hswap, -, -, hself⟩ := eq_call_answers_same (hvalue (.char 'x'))
    (hvalue (.number (.int 2))) heq rfl (.ofText "")
  have hfirst : Compares "Eq" (nested (.char 'x')) (nested (.int 2)) comparing (.ofText "")
      (.error (.notComparable (.char 'x') (.int 2))) := ⟨by simp [verdict], 4, rfl⟩
  exact ⟨hfirst, (hswap _ _).1 hfirst, hself hdata hnan⟩

end Song
