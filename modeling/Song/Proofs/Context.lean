import Mathlib.Data.List.Forall2
import Song.Context

/-!
# Properties of contexts

A property that holds of every value bound in a context is kept by each way of
building one context from others, so is one of the names, and so is the order of the
bindings. In order, the bindings are determined by what is found under each name.
-/
namespace Song.Context

variable {α : Type} {P : α → Prop}

def All (P : α → Prop) (context : Context α) : Prop :=
  ∀ binding ∈ context.bindings, P binding.2

theorem all_empty : (empty : Context α).All P := by
  intro binding h
  cases h

theorem All.mono {Q : α → Prop} {context : Context α} (h : context.All P)
    (hPQ : ∀ value, P value → Q value) : context.All Q :=
  fun binding hb => hPQ _ (h binding hb)

private theorem find?_mem {name : String} {value : α} {bindings : List (String × α)}
    (h : find? name bindings = some value) : (name, value) ∈ bindings := by
  induction bindings with
  | nil => cases h
  | cons binding rest ih =>
    rw [find?] at h
    split at h
    case isTrue hk =>
      cases h
      subst hk
      exact List.mem_cons_self
    case isFalse => exact List.mem_cons_of_mem _ (ih h)

theorem All.get? {context : Context α} {name : String} {value : α} (h : context.All P)
    (hv : context.get? name = some value) : P value :=
  h _ (find?_mem hv)

private theorem mem_place {name : String} {value : α} {binding : String × α}
    {bindings : List (String × α)} (h : binding ∈ place name value bindings) :
    binding = (name, value) ∨ binding ∈ bindings := by
  induction bindings with
  | nil => exact Or.inl (List.mem_singleton.1 h)
  | cons first rest ih =>
    rw [place] at h
    split at h
    · exact (List.mem_cons.1 h).imp_right (List.mem_cons_of_mem _)
    · split at h
      · exact List.mem_cons.1 h
      · rcases List.mem_cons.1 h with rfl | h
        · exact Or.inr List.mem_cons_self
        · exact (ih h).imp_right (List.mem_cons_of_mem _)

theorem All.insert {context : Context α} (h : context.All P) (name : String) {value : α}
    (hv : P value) : (context.insert name value).All P := by
  intro binding hb
  rcases mem_place hb with rfl | hb
  · exact hv
  · exact h binding hb

theorem All.erase {context : Context α} (h : context.All P) (name : String) :
    (context.erase name).All P :=
  fun binding hb => h binding (List.mem_filter.1 hb).1

theorem All.insertAll {context : Context α} (h : context.All P) {bindings : List (String × α)}
    (hb : ∀ binding ∈ bindings, P binding.2) : (context.insertAll bindings).All P := by
  induction bindings with
  | nil => exact h
  | cons binding rest ih =>
    have hrest : (context.insertAll rest).All P :=
      ih fun b hmem => hb b (List.mem_cons_of_mem _ hmem)
    exact hrest.insert binding.1 (hb binding List.mem_cons_self)

theorem all_ofList {bindings : List (String × α)} (h : ∀ binding ∈ bindings, P binding.2) :
    (ofList bindings).All P :=
  all_empty.insertAll fun binding hb => h binding (List.mem_reverse.1 hb)

theorem All.mergeFavouring {winner loser : Context α} (hw : winner.All P) (hl : loser.All P) :
    (winner.mergeFavouring loser).All P :=
  hl.insertAll hw

def Names (Q : String → Prop) (context : Context α) : Prop :=
  ∀ binding ∈ context.bindings, Q binding.1

section Names

variable {Q : String → Prop}

theorem names_empty : (empty : Context α).Names Q := by
  intro binding h
  cases h

theorem Names.insert {context : Context α} (h : context.Names Q) {name : String} (hn : Q name)
    (value : α) : (context.insert name value).Names Q := by
  intro binding hb
  rcases mem_place hb with rfl | hb
  · exact hn
  · exact h binding hb

theorem Names.insertAll {context : Context α} (h : context.Names Q)
    {bindings : List (String × α)} (hb : ∀ binding ∈ bindings, Q binding.1) :
    (context.insertAll bindings).Names Q := by
  induction bindings with
  | nil => exact h
  | cons binding rest ih =>
    obtain ⟨hfirst, hrest⟩ := List.forall_mem_cons.1 hb
    exact (ih hrest).insert hfirst binding.2

theorem names_ofList {bindings : List (String × α)} (h : ∀ binding ∈ bindings, Q binding.1) :
    (ofList bindings).Names Q :=
  names_empty.insertAll fun binding hb => h binding (List.mem_reverse.1 hb)

theorem Names.mergeFavouring {winner loser : Context α} (hw : winner.Names Q)
    (hl : loser.Names Q) : (winner.mergeFavouring loser).Names Q :=
  hl.insertAll hw

theorem Names.get?_eq_none {context : Context α} {name : String} (h : context.Names (· ≠ name)) :
    context.get? name = none := by
  cases hget : context.get? name with
  | none => rfl
  | some value => exact absurd rfl (h _ (find?_mem hget))

end Names

/-- The names ascend along the bindings. -/
def Ordered (context : Context α) : Prop :=
  context.bindings.Pairwise fun first second => first.1 < second.1

theorem ordered_empty : (empty : Context α).Ordered :=
  .nil

theorem Ordered.insert {context : Context α} (h : context.Ordered) (name : String) (value : α) :
    (context.insert name value).Ordered := by
  obtain ⟨bindings⟩ := context
  change (place name value bindings).Pairwise _
  induction bindings with
  | nil => exact List.pairwise_singleton _ _
  | cons first rest ih =>
    obtain ⟨hfirst, hrest⟩ := List.pairwise_cons.1 h
    rw [place]
    split
    case isTrue hname => exact List.pairwise_cons.2 ⟨hname ▸ hfirst, hrest⟩
    case isFalse hname =>
      split
      case isTrue hlt =>
        rw [List.pairwise_cons]
        refine ⟨?_, h⟩
        rw [List.forall_mem_cons]
        refine ⟨hlt, ?_⟩
        intro binding hmem
        exact String.lt_trans hlt (hfirst binding hmem)
      case isFalse hlt =>
        have hgt : first.1 < name := Std.lt_of_le_of_ne (String.not_lt.1 hlt) hname
        rw [List.pairwise_cons]
        refine ⟨?_, ih hrest⟩
        intro binding hmem
        rcases mem_place hmem with rfl | hmem
        · exact hgt
        · exact hfirst binding hmem

theorem Ordered.insertAll {context : Context α} (h : context.Ordered)
    (bindings : List (String × α)) : (context.insertAll bindings).Ordered := by
  induction bindings with
  | nil => exact h
  | cons binding rest ih => exact ih.insert binding.1 binding.2

theorem ordered_ofList (bindings : List (String × α)) : (ofList bindings).Ordered :=
  ordered_empty.insertAll bindings.reverse

theorem Ordered.erase {context : Context α} (h : context.Ordered) (name : String) :
    (context.erase name).Ordered :=
  List.Pairwise.filter _ h

theorem Ordered.keys_eq {context : Context α} (h : context.Ordered) :
    context.keys = context.bindings.map Prod.fst := by
  refine List.mergeSort_of_pairwise (List.pairwise_map.2 (h.imp fun hlt => ?_))
  exact decide_eq_true (String.not_lt.1 (String.lt_asymm hlt))

theorem Ordered.mergeFavouring (winner : Context α) {loser : Context α} (h : loser.Ordered) :
    (winner.mergeFavouring loser).Ordered :=
  h.insertAll winner.bindings

private theorem find?_eq_none {name : String} {bindings : List (String × α)}
    (h : ∀ binding ∈ bindings, name < binding.1) : find? name bindings = none := by
  cases hfind : find? name bindings with
  | none => rfl
  | some value => exact absurd (h _ (find?_mem hfind)) (String.lt_irrefl name)

theorem Ordered.mem_bindings_iff {context : Context α} (h : context.Ordered) {name : String}
    {value : α} : (name, value) ∈ context.bindings ↔ context.get? name = some value := by
  obtain ⟨bindings⟩ := context
  refine ⟨?_, find?_mem⟩
  intro hmem
  change find? name bindings = some value
  induction bindings with
  | nil => cases hmem
  | cons binding rest ih =>
    obtain ⟨hfirst, hrest⟩ := List.pairwise_cons.1 h
    rw [find?]
    rcases List.mem_cons.1 hmem with rfl | hmem
    · rw [if_pos rfl]
    · have hlt : binding.1 < name := hfirst _ hmem
      have hne : binding.1 ≠ name := by
        rintro rfl
        exact String.lt_irrefl _ hlt
      rw [if_neg hne]
      exact ih hrest hmem

section Correspondence

variable {β : Type} {R : α → β → Prop} {first : String × α} {second : String × β}
  {rest bindings : List (String × α)} {others : List (String × β)}

-- A name before the first of some ordered bindings is not found among them.
private theorem find?_of_before
    (h : (second :: others).Pairwise fun a b => a.1 < b.1) {name : String}
    (hlt : name < second.1) : find? name (second :: others) = none :=
  find?_eq_none (List.forall_mem_cons.2
    ⟨hlt, fun binding hmem => String.lt_trans hlt ((List.pairwise_cons.1 h).1 binding hmem)⟩)

private theorem name_eq_of_rel_find? (h : (first :: rest).Pairwise fun a b => a.1 < b.1)
    (ho : (second :: others).Pairwise fun a b => a.1 < b.1)
    (hrel : ∀ name, Option.Rel R (find? name (first :: rest)) (find? name (second :: others))) :
    first.1 = second.1 := by
  refine String.le_antisymm (String.not_lt.1 fun hlt => ?_) (String.not_lt.1 fun hlt => ?_)
  · have hsecond := hrel second.1
    rw [find?_of_before h hlt, find?, if_pos rfl] at hsecond
    cases hsecond
  · have hfirst := hrel first.1
    rw [find?_of_before ho hlt, find?, if_pos rfl] at hfirst
    cases hfirst

private theorem forall₂_of_rel_find? (h : bindings.Pairwise fun a b => a.1 < b.1)
    (ho : others.Pairwise fun a b => a.1 < b.1)
    (hrel : ∀ name, Option.Rel R (find? name bindings) (find? name others)) :
    List.Forall₂ (fun first second => first.1 = second.1 ∧ R first.2 second.2) bindings others := by
  induction bindings generalizing others with
  | nil =>
    cases others with
    | nil => exact .nil
    | cons second others =>
      have hsecond := hrel second.1
      rw [find?, find?, if_pos rfl] at hsecond
      cases hsecond
  | cons first rest ih =>
    cases others with
    | nil =>
      have hfirst := hrel first.1
      rw [find?, find?, if_pos rfl] at hfirst
      cases hfirst
    | cons second others =>
      have hname := name_eq_of_rel_find? h ho hrel
      obtain ⟨hbefore, hrest⟩ := List.pairwise_cons.1 h
      obtain ⟨hother, hothers⟩ := List.pairwise_cons.1 ho
      have hvalue : R first.2 second.2 := by
        have hfirst := hrel first.1
        rw [find?, if_pos rfl, find?, if_pos hname.symm] at hfirst
        cases hfirst
        assumption
      refine .cons ⟨hname, hvalue⟩ (ih hrest hothers fun name => ?_)
      by_cases hn : first.1 = name
      · rw [find?_eq_none (hn ▸ hbefore), find?_eq_none (hn ▸ hname ▸ hother)]
        exact .none
      · have htails := hrel name
        rwa [find?, if_neg hn, find?, if_neg (hname ▸ hn)] at htails

private theorem rel_find?_of_forall₂
    (h : List.Forall₂ (fun first second => first.1 = second.1 ∧ R first.2 second.2) bindings others)
    (name : String) : Option.Rel R (find? name bindings) (find? name others) := by
  induction h with
  | nil => exact .none
  | cons hfirst _ ih =>
    obtain ⟨hname, hvalue⟩ := hfirst
    rw [find?, find?, hname]
    split
    · exact .some hvalue
    · exact ih

/-- Contexts in order have corresponding bindings, one after the other, exactly if what they bind
to each name corresponds. -/
theorem Ordered.forall₂_iff {context : Context α} {other : Context β} (h : context.Ordered)
    (ho : other.Ordered) :
    List.Forall₂ (fun first second => first.1 = second.1 ∧ R first.2 second.2) context.bindings
      other.bindings ↔ ∀ name, Option.Rel R (context.get? name) (other.get? name) :=
  ⟨rel_find?_of_forall₂, forall₂_of_rel_find? h ho⟩

end Correspondence

/-- Contexts in order that bind the same are equal. -/
theorem Ordered.ext {context other : Context α} (h : context.Ordered) (ho : other.Ordered)
    (hget : ∀ name, context.get? name = other.get? name) : context = other := by
  have hbindings : List.Forall₂ (fun first second => first.1 = second.1 ∧ first.2 = second.2)
      context.bindings other.bindings := by
    apply (h.forall₂_iff ho).2
    intro name
    rw [hget]
    cases other.get? name with
    | none => exact .none
    | some value => exact .some rfl
  simp only [← Prod.ext_iff, List.forall₂_eq_eq_eq] at hbindings
  exact congrArg mk hbindings

def IsPartOf (part whole : Context α) : Prop :=
  ∀ name value, part.get? name = some value → whole.get? name = some value

theorem isPartOf_empty (whole : Context α) : (empty : Context α).IsPartOf whole := by
  intro name value h
  cases h

end Song.Context
