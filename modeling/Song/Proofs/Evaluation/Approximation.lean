import Mathlib.Order.Filter.AtTopBot.Basic
import Song.Outcome

/-!
# Outcomes approximated by a family of outcomes

An evaluator is a family of outcomes, one for each number of steps it may take. An
outcome approximates such a family if all late members of the family agree with
it; an outcome that used up its steps says nothing and approximates every family.
Results on values and results on failures are told apart by a property of values
and a relation between failures.
-/
namespace Song

open Filter

/-- What holds from some number on also does if zero is left out. -/
theorem eventually_of_succ {p : Nat → Prop} (h : ∀ᶠ n in atTop, p (n + 1)) :
    ∀ᶠ n in atTop, p n := by
  rw [← map_add_atTop_eq_nat 1]
  exact h

namespace Outcome

variable {α β : Type}

/-- The same value, which has the property, or related failures, after the same streams. -/
inductive Agrees (P : α → Prop) (R : Failure → Failure → Prop) : Outcome α → Outcome α → Prop
  | value {result : α} {streams : Streams} (h : P result) :
    Agrees P R (.value result streams) (.value result streams)
  | failure {f g : Failure} {streams : Streams} (h : R f g) :
    Agrees P R (.failure f streams) (.failure g streams)

/-- All late members of the family agree with the outcome, unless that is exhausted. -/
def Approximates (P : α → Prop) (R : Failure → Failure → Prop) (outcome : Outcome α)
    (family : Nat → Outcome α) : Prop :=
  outcome = .exhausted ∨ ∀ᶠ n in atTop, Agrees P R outcome (family n)

/-- A relation between an outcome and a family that looks at late members only and that holds
wherever both end in the same value with the property or in related failures. -/
structure Observation (P : α → Prop) (R : Failure → Failure → Prop)
    (T : Outcome α → (Nat → Outcome α) → Prop) : Prop where
  exhausted (family : Nat → Outcome α) : T .exhausted family
  value {result : α} (streams : Streams) (h : P result) :
    T (.value result streams) fun _ => .value result streams
  failure {f : Failure} {streams : Streams} {family : Nat → Outcome α}
    (h : ∀ᶠ n in atTop, ∃ g, family n = .failure g streams ∧ R f g) :
    T (.failure f streams) family
  congr {outcome : Outcome α} {family other : Nat → Outcome α}
    (h : ∀ᶠ n in atTop, family n = other n) (ht : T outcome other) : T outcome family

def mapFailure (change : Failure → Failure) : Outcome α → Outcome α
  | .failure f streams => .failure (change f) streams
  | other => other

theorem mapFailure_id (outcome : Outcome α) : outcome.mapFailure id = outcome := by
  cases outcome <;> rfl

theorem inside_eq_mapFailure (e : Expr) (outcome : Outcome α) :
    outcome.inside e = outcome.mapFailure (Failure.inside e) := by
  cases outcome <;> rfl

variable {P : α → Prop} {Q : β → Prop} {R : Failure → Failure → Prop}
  {T : Outcome β → (Nat → Outcome β) → Prop}

namespace Approximates

theorem exhausted (family : Nat → Outcome α) : Approximates P R .exhausted family :=
  Or.inl rfl

theorem value {result : α} {streams : Streams} {family : Nat → Outcome α} (hP : P result)
    (h : ∀ᶠ n in atTop, family n = .value result streams) :
    Approximates P R (.value result streams) family := by
  right
  apply h.mono
  intro n hn
  rw [hn]
  exact .value hP

theorem failure {f : Failure} {streams : Streams} {family : Nat → Outcome α}
    (h : ∀ᶠ n in atTop, ∃ g, family n = .failure g streams ∧ R f g) :
    Approximates P R (.failure f streams) family := by
  right
  apply h.mono
  intro n hn
  obtain ⟨g, hg, hR⟩ := hn
  rw [hg]
  exact .failure hR

theorem congr {outcome : Outcome α} {family other : Nat → Outcome α}
    (h : ∀ᶠ n in atTop, family n = other n) (ha : Approximates P R outcome other) :
    Approximates P R outcome family := by
  apply ha.imp_right
  intro ha
  filter_upwards [h, ha] with n hn hagree
  rw [hn]
  exact hagree

/-- It is enough to carry agreement over from each member to a member of another family. -/
theorem transfer {outcome other : Outcome α} {family families : Nat → Outcome α}
    (h : Approximates P R outcome family) (hother : outcome = .exhausted → other = .exhausted)
    (hn : ∀ n, Agrees P R outcome (family n) → Agrees P R other (families n)) :
    Approximates P R other families :=
  h.imp hother fun h => h.mono hn

/-- What the late members are when the outcome is a value. -/
theorem of_value {result : α} {streams : Streams} {family : Nat → Outcome α}
    (h : Approximates P R (.value result streams) family) :
    P result ∧ ∀ᶠ n in atTop, family n = .value result streams := by
  rcases h with h | h
  · cases h
  · have hlate (n : Nat) (hn : Agrees P R (.value result streams) (family n)) :
        P result ∧ family n = .value result streams := by
      generalize family n = late at hn
      cases hn with
      | value hP => exact ⟨hP, rfl⟩
    obtain ⟨n, hn⟩ := h.exists
    exact ⟨(hlate n hn).1, h.mono fun n hn => (hlate n hn).2⟩

/-- What the late members are when the outcome is a failure. -/
theorem of_failure {f : Failure} {streams : Streams} {family : Nat → Outcome α}
    (h : Approximates P R (.failure f streams) family) :
    ∀ᶠ n in atTop, ∃ g, family n = .failure g streams ∧ R f g := by
  rcases h with h | h
  · cases h
  · apply h.mono
    intro n hn
    generalize family n = late at hn
    cases hn with
    | failure hR => exact ⟨_, rfl, hR⟩

/-- A first step that approximates and, for each of its values, a second step that is observed
give an observation of both steps together. -/
theorem andThen (hT : Observation Q R T) {first : Outcome α} {family : Nat → Outcome α}
    {next : α → Streams → Outcome β} {nexts : Nat → α → Streams → Outcome β}
    (hf : Approximates P R first family)
    (hn : ∀ result streams, P result →
      T (next result streams) fun n => nexts n result streams) :
    T (first.andThen next) fun n => (family n).andThen (nexts n) := by
  cases first with
  | exhausted => exact hT.exhausted _
  | value result streams =>
    obtain ⟨hP, hlate⟩ := hf.of_value
    refine hT.congr ?_ (hn result streams hP)
    apply hlate.mono
    intro n h
    rw [h]
    rfl
  | failure f streams =>
    apply hT.failure
    apply hf.of_failure.mono
    intro n h
    obtain ⟨g, hg, hR⟩ := h
    exact ⟨g, by rw [hg]; rfl, hR⟩

theorem observation : Observation P R (Approximates P R) where
  exhausted := Approximates.exhausted
  value _ h := value h (Eventually.of_forall fun _ => rfl)
  failure := Approximates.failure
  congr := Approximates.congr

theorem observed (hT : Observation Q R T) {outcome : Outcome β} {family : Nat → Outcome β}
    (h : Approximates Q R outcome family) : T outcome family := by
  cases outcome with
  | exhausted => exact hT.exhausted _
  | value result streams =>
    obtain ⟨hQ, hlate⟩ := h.of_value
    exact hT.congr hlate (hT.value streams hQ)
  | failure f streams => exact hT.failure h.of_failure

/-- Late members are late in the family without its first member. -/
theorem shift {outcome : Outcome α} {family : Nat → Outcome α}
    (h : Approximates P R outcome fun n => family (n + 1)) : Approximates P R outcome family :=
  h.imp_right eventually_of_succ

theorem succ {outcome : Outcome α} {family : Nat → Outcome α}
    (h : Approximates P R outcome family) : Approximates P R outcome fun n => family (n + 1) :=
  h.imp_right fun h => (tendsto_add_atTop_nat 1).eventually h

/-- Failures may be changed on both sides as far as the relation allows. -/
theorem mapFailure {u v : Failure → Failure} (hR : ∀ f g, R f g → R (u f) (v g))
    {outcome : Outcome α} {family : Nat → Outcome α} (h : Approximates P R outcome family) :
    Approximates P R (outcome.mapFailure u) fun n => (family n).mapFailure v := by
  cases outcome with
  | exhausted => exact exhausted _
  | value result streams =>
    obtain ⟨hP, hlate⟩ := h.of_value
    exact value hP (hlate.mono fun n hn => by rw [hn]; rfl)
  | failure f streams =>
    apply failure
    apply h.of_failure.mono
    intro n hn
    obtain ⟨g, hg, hfg⟩ := hn
    exact ⟨v g, by rw [hg]; rfl, hR f g hfg⟩

theorem inside (e : Expr) (hR : ∀ f g, R f g → R (f.inside e) (g.inside e))
    {outcome : Outcome α} {family : Nat → Outcome α} (h : Approximates P R outcome family) :
    Approximates P R (outcome.inside e) fun n => (family n).inside e := by
  simpa only [inside_eq_mapFailure] using h.mapFailure hR

theorem inside_family (e : Expr) (hR : ∀ f g, R f g → R f (g.inside e))
    {outcome : Outcome α} {family : Nat → Outcome α} (h : Approximates P R outcome family) :
    Approximates P R outcome fun n => (family n).inside e := by
  simpa only [inside_eq_mapFailure, mapFailure_id] using h.mapFailure (u := id) hR

/-- It is enough that late members are the outcome itself, once that has ended. -/
theorem of_eventually_eq (hR : ∀ f, R f f) {outcome : Outcome α} {family : Nat → Outcome α}
    (h : outcome ≠ .exhausted → ∀ᶠ n in atTop, family n = outcome) :
    Approximates (fun _ => True) R outcome family := by
  cases outcome with
  | exhausted => exact exhausted _
  | value result streams => exact value True.intro (h nofun)
  | failure f streams => exact failure ((h nofun).mono fun n hn => ⟨f, hn, hR f⟩)

/-- The members may have the expression around the failure of a first step only. -/
theorem inside_first (e : Expr) (hboth : ∀ f g, R f g → R (f.inside e) (g.inside e))
    (hleft : ∀ f g, R f g → R (f.inside e) g) {outcome : Outcome α} {family : Nat → Outcome β}
    {next : Nat → β → Streams → Outcome α}
    (h : Approximates P R outcome fun n => (family n).andThen (next n)) :
    Approximates P R (outcome.inside e) fun n => ((family n).inside e).andThen (next n) := by
  apply transfer h (fun ho => by rw [ho]; rfl)
  intro n hn
  generalize family n = member at hn ⊢
  cases member with
  | value v streams =>
    simp only [Outcome.andThen, Outcome.inside] at hn ⊢
    generalize next n v streams = last at hn ⊢
    cases hn with
    | value hv => exact .value hv
    | failure hR => exact .failure (hleft _ _ hR)
  | failure g streams =>
    cases hn with
    | failure hR => exact .failure (hboth _ _ hR)
  | exhausted => cases hn

end Approximates

namespace Observation

theorem fail (hT : Observation Q R T) (hR : ∀ f, R f f) (cause : Cause) (streams : Streams) :
    T (.fail cause streams) fun _ => .fail cause streams :=
  hT.failure (Eventually.of_forall fun _ => ⟨_, rfl, hR _⟩)

theorem ofExcept (hT : Observation Q R T) (hR : ∀ f, R f f) {result : Except Cause β}
    (hQ : ∀ value, result = .ok value → Q value) (streams : Streams) :
    T (.ofExcept result streams) fun _ => .ofExcept result streams := by
  cases result with
  | ok value => exact hT.value streams (hQ value rfl)
  | error cause => exact hT.fail hR cause streams

end Observation

@[simp] theorem andThen_value (outcome : Outcome α) : outcome.andThen .value = outcome := by
  cases outcome <;> rfl

theorem andThen_assoc {γ : Type} (outcome : Outcome α) (next : α → Streams → Outcome β)
    (last : β → Streams → Outcome γ) :
    (outcome.andThen next).andThen last =
      outcome.andThen fun result streams => (next result streams).andThen last := by
  cases outcome <;> rfl

theorem inside_andThen (e : Expr) (outcome : Outcome α) (next : α → Streams → Outcome β) :
    (outcome.andThen next).inside e =
      (outcome.inside e).andThen fun result streams => (next result streams).inside e := by
  cases outcome <;> rfl

end Outcome
end Song
