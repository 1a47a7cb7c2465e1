import Mathlib.Data.List.Forall2
import Mathlib.Data.List.Induction
import Song.Expr.Equality
import Song.Proofs.Context

/-!
# Histories of contexts

Contexts are made from contexts that were made before them. Whatever the operations are, a context
looks up each name as the function on names does that the same operations make, its keys are the
bound names in ascending order, and it equals another exactly if the two bind the same names to
equal values. Nothing else of its history is left in a context.
-/
namespace Song.Context

variable {α : Type}

/-- How a context is made. Operands are contexts made before, each by its place among them; a place
at which there is none stands for the empty context. -/
inductive Edit (α : Type) where
  | extend (operand : Nat) (name : String) (value : α)
  | without (operand : Nat) (name : String)
  | merge (ours theirs : Nat) (precedence : Precedence)
  | ofList (bindings : List (String × α))

abbrev Lookup (α : Type) :=
  String → Option α

namespace Lookup

def empty : Lookup α :=
  fun _ => none

/-- The first value where there is one, and elsewhere the second. -/
def orElse (winner loser : Lookup α) : Lookup α :=
  fun name => (winner name).or (loser name)

def ofList (bindings : List (String × α)) : Lookup α :=
  bindings.foldl (fun lookup binding => Function.update lookup binding.1 (some binding.2)) empty

end Lookup

namespace Edit

def context (before : List (Context α)) : Edit α → Context α
  | extend operand name value => (before.getD operand .empty).insert name value
  | without operand name => (before.getD operand .empty).erase name
  | merge ours theirs precedence =>
    (before.getD ours .empty).merge (before.getD theirs .empty) precedence
  | ofList bindings => .ofList bindings

def lookup (before : List (Lookup α)) : Edit α → Lookup α
  | extend operand name value =>
    Function.update (before.getD operand .empty) name (some value)
  | without operand name => Function.update (before.getD operand .empty) name none
  | merge ours theirs .ours => (before.getD ours .empty).orElse (before.getD theirs .empty)
  | merge ours theirs .theirs => (before.getD theirs .empty).orElse (before.getD ours .empty)
  | ofList bindings => .ofList bindings

/-- All that is made, each from what was made before it. -/
def replay {β : Type} (make : List β → Edit α → β) (history : List (Edit α)) : List β :=
  history.foldl (fun before edit => before ++ [make before edit]) []

theorem replay_append_singleton {β : Type} (make : List β → Edit α → β)
    (history : List (Edit α)) (edit : Edit α) :
    replay make (history ++ [edit]) =
      replay make history ++ [make (replay make history) edit] := by
  simp [replay]

theorem replay_isPrefix {β : Type} (make : List β → Edit α → β) (history later : List (Edit α)) :
    replay make history <+: replay make (history ++ later) := by
  induction later using List.reverseRecOn with
  | nil => simp
  | append_singleton later edit ih =>
    rw [← List.append_assoc, replay_append_singleton]
    exact ih.trans (List.prefix_append _ _)

end Edit

def contexts (history : List (Edit α)) : List (Context α) :=
  Edit.replay Edit.context history

def contextAt (history : List (Edit α)) (place : Nat) : Context α :=
  (contexts history).getD place .empty

def lookupAt (history : List (Edit α)) (place : Nat) : Lookup α :=
  (Edit.replay Edit.lookup history).getD place .empty

/-- The context is in order and binds each name as the function says. -/
structure Represents (context : Context α) (lookup : Lookup α) : Prop where
  ordered : context.Ordered
  get?_eq : ∀ name, context.get? name = lookup name

section Represents

variable {context other : Context α} {lookup others : Lookup α}

theorem represents_empty : Represents (empty : Context α) .empty :=
  ⟨ordered_empty, fun _ => rfl⟩

theorem Represents.insert (h : Represents context lookup) (name : String) (value : α) :
    Represents (context.insert name value) (Function.update lookup name (some value)) := by
  refine ⟨h.ordered.insert name value, ?_⟩
  intro n
  simp only [get?_insert, h.get?_eq, Function.update_apply, eq_comm]

theorem Represents.erase (h : Represents context lookup) (name : String) :
    Represents (context.erase name) (Function.update lookup name none) := by
  refine ⟨h.ordered.erase name, ?_⟩
  intro n
  simp only [get?_erase, h.get?_eq, Function.update_apply, eq_comm]

theorem Represents.mergeFavouring (h : Represents context lookup) (ho : Represents other others) :
    Represents (context.mergeFavouring other) (lookup.orElse others) := by
  refine ⟨ho.ordered.mergeFavouring context, ?_⟩
  intro n
  simp only [get?_mergeFavouring, h.get?_eq, ho.get?_eq, Lookup.orElse]

theorem ofList_append_singleton (bindings : List (String × α)) (binding : String × α) :
    ofList (bindings ++ [binding]) = (ofList bindings).insert binding.1 binding.2 := by
  simp [ofList, insertAll]

theorem represents_ofList (bindings : List (String × α)) :
    Represents (ofList bindings) (.ofList bindings) := by
  induction bindings using List.reverseRecOn with
  | nil => exact represents_empty
  | append_singleton bindings binding ih =>
    rw [ofList_append_singleton, Lookup.ofList, List.foldl_append]
    exact ih.insert binding.1 binding.2

theorem represents_getD {before : List (Context α)} {lookups : List (Lookup α)}
    (h : List.Forall₂ Represents before lookups) (place : Nat) :
    Represents (before.getD place .empty) (lookups.getD place .empty) := by
  induction h generalizing place with
  | nil => exact represents_empty
  | cons hfirst _ ih =>
    cases place with
    | zero => exact hfirst
    | succ place => exact ih place

/-- An operation keeps to the functions that its operands represent. -/
theorem Edit.represents {before : List (Context α)} {lookups : List (Lookup α)}
    (h : List.Forall₂ Represents before lookups) (edit : Edit α) :
    Represents (edit.context before) (edit.lookup lookups) := by
  cases edit with
  | extend operand name value => exact (represents_getD h operand).insert name value
  | without operand name => exact (represents_getD h operand).erase name
  | merge ours theirs precedence =>
    have hours := represents_getD h ours
    have htheirs := represents_getD h theirs
    cases precedence with
    | ours => exact hours.mergeFavouring htheirs
    | theirs => exact htheirs.mergeFavouring hours
  | ofList bindings => exact represents_ofList bindings

/-- All contexts of a history represent the functions that are made beside them. -/
theorem forall₂_represents (history : List (Edit α)) :
    List.Forall₂ Represents (contexts history) (Edit.replay Edit.lookup history) := by
  induction history using List.reverseRecOn with
  | nil => exact .nil
  | append_singleton history edit ih =>
    rw [contexts, Edit.replay_append_singleton, Edit.replay_append_singleton]
    exact List.rel_append ih (.cons (edit.represents ih) .nil)

theorem contextAt_represents (history : List (Edit α)) (place : Nat) :
    Represents (contextAt history place) (lookupAt history place) :=
  represents_getD (forall₂_represents history) place

/-- The preferred context counts, also if it binds fewer names. -/
example : (contextAt [.ofList [("x", 1), ("y", 2), ("x", 3)], .extend 9 "x" 4,
    .merge 0 1 .theirs] 2).bindings = [("x", 4), ("y", 2)] := rfl

end Represents

theorem mem_keys_iff {context : Context α} {name : String} :
    name ∈ context.keys ↔ (context.get? name).isSome := by
  obtain ⟨bindings⟩ := context
  rw [Context.keys, List.mem_mergeSort]
  change name ∈ bindings.map Prod.fst ↔ (find? name bindings).isSome
  induction bindings with
  | nil => simp [find?]
  | cons binding rest ih =>
    by_cases hname : binding.1 = name
    · simp [find?, hname]
    · simp [find?, hname, Ne.symm hname, ih]

theorem Ordered.keys {context : Context α} (h : context.Ordered) :
    context.keys.Pairwise (· < ·) := by
  rw [h.keys_eq]
  exact List.pairwise_map.2 h

theorem sameBindings_iff {bindings others : List (String × Expr)} :
    Expr.sameBindings bindings others = true ↔
      List.Forall₂ (fun first second => first.1 = second.1 ∧ first.2.same second.2 = true) bindings
        others := by
  induction bindings generalizing others with
  | nil => cases others <;> simp [Expr.sameBindings]
  | cons first rest ih =>
    cases others with
    | nil => simp [Expr.sameBindings]
    | cons second others => simp [Expr.sameBindings, ih]

/-- Contexts in order are equal exactly if they bind the same names to equal values. -/
theorem Ordered.sameContext_iff {context other : Context Expr} (h : context.Ordered)
    (ho : other.Ordered) :
    Expr.sameContext context other = true ↔
      ∀ name, Option.Rel (fun v w => v.same w = true) (context.get? name) (other.get? name) := by
  rw [← h.forall₂_iff ho, ← sameBindings_iff]
  obtain ⟨bindings⟩ := context
  obtain ⟨others⟩ := other
  rw [Expr.sameContext]

/-- Whatever operations made a context, it looks up as they say, it contains the names that it
finds, and its keys are these names in ascending order. It equals a context of any history exactly
if both bind the same names to equal values. What is made later leaves all contexts before as they
are. -/
theorem contextAt_extensional (history : List (Edit Expr)) (place : Nat) :
    (∀ name, (contextAt history place).get? name = lookupAt history place name) ∧
    (∀ name, (contextAt history place).contains name = (lookupAt history place name).isSome) ∧
    (contextAt history place).keys.Pairwise (· < ·) ∧
    (∀ name, name ∈ (contextAt history place).keys ↔ (lookupAt history place name).isSome) ∧
    (contextAt history place).size = (contextAt history place).keys.length ∧
    (∀ other otherPlace,
      Expr.sameContext (contextAt history place) (contextAt other otherPlace) = true ↔
        ∀ name, Option.Rel (fun v w => v.same w = true) (lookupAt history place name)
          (lookupAt other otherPlace name)) ∧
    ∀ later, contexts history <+: contexts (history ++ later) := by
  have hplace := contextAt_represents history place
  refine ⟨hplace.get?_eq, ?_, hplace.ordered.keys, ?_, ?_, ?_, ?_⟩
  · intro name
    simp [contains, hplace.get?_eq]
  · intro name
    simp [mem_keys_iff, hplace.get?_eq]
  · simp [size, keys]
  · intro other otherPlace
    have hother := contextAt_represents other otherPlace
    simp only [hplace.ordered.sameContext_iff hother.ordered, hplace.get?_eq, hother.get?_eq]
  · exact Edit.replay_isPrefix _ history

end Song.Context
