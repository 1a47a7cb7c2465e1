import Mathlib.Data.List.Forall2
import Song.Proofs.Value

/-!
# Values that differ in one unmentioned binding

Two runs of a program whose contexts differ in the binding of one name carry that
difference through every closure that captures it. Values are alike if they differ
in nothing else, and not even there in closures that mention the name. Alike values
have the same text.
-/
namespace Song

namespace Expr

/-- The name that the expression itself refers to or declares. -/
def ownName? : Expr → Option String
  | name n => some n
  | call callee _ => some callee
  | function clause => clause.name
  | closure c => c.name
  | _ => none

/-- The name occurs nowhere in the expression: not as a name or the name of a call, not as a
variable of a pattern and not as the name of a function. -/
def Lacks (z : String) (e : Expr) : Prop :=
  e.Everywhere fun part => part.ownName? ≠ some z

mutual
/-- The names that a pattern binds, as often as they occur. -/
def boundNames (pattern : Expr) : List String :=
  match pattern with
  | name n => [n]
  | list patterns => boundNamesAmong patterns
  | cons heads tail => boundNamesAmong heads ++ boundNames tail
  | _ => []
termination_by structural pattern

def boundNamesAmong (patterns : List Expr) : List String :=
  match patterns with
  | [] => []
  | pattern :: rest => boundNames pattern ++ boundNamesAmong rest
termination_by structural patterns
end

/-- The parameters of a clause, or the target of an assignment, hold no variable twice. -/
def IsLinear : Expr → Prop
  | function clause => (boundNamesAmong clause.patterns).Nodup
  | assign target _ => target.boundNames.Nodup
  | _ => True

/-- The statement cannot bind the name to a function that it finds elsewhere: it is a declaration
of a function or an assignment to other names, or its value binds nothing. -/
def Keeps (f : String) : Expr → Prop
  | assign target _ => f ∉ target.boundNames
  | name _ | block _ | call .. | apply .. => False
  | _ => True

/-- In a block, a clause that mentions the name `z` joins only a function that the same block
declares: all statements between an earlier clause of that function and this one keep to it. -/
def OwnClauses (z : String) : Expr → Prop
  | block statements => ∀ before first between clause after f,
    statements = before ++ first :: between ++ clause :: after →
      declaredName? first = some f → declaredName? clause = some f → ¬clause.Lacks z →
        ∀ s ∈ between, s.Keeps f
  | _ => True

/-- The expression and all its parts are linear, and blocks in it have clauses that mention the
name `z` only for functions of their own. -/
def IsSafe (z : String) (e : Expr) : Prop :=
  e.Everywhere fun part => part.IsLinear ∧ part.OwnClauses z

theorem Lacks.ownClauses {z : String} {e : Expr} (h : e.Lacks z) : e.OwnClauses z := by
  cases e with
  | block statements =>
    intro before first between clause after f hsplit _ _ hmentions
    exact absurd (h.part (by simp [parts, hsplit])) hmentions
  | _ => trivial

/-- Nothing can come between the clauses of a block of declarations and a last expression. -/
theorem OwnClauses.of_dropLast {z : String} {statements : List Expr}
    (h : ∀ s ∈ statements.dropLast, ∀ f, s.Keeps f) : (block statements).OwnClauses z := by
  rintro before first between clause after f rfl _ _ _ s hs
  refine h s ?_ f
  rw [List.dropLast_append_of_ne_nil (List.cons_ne_nil _ _)]
  exact List.mem_append_left _ (List.mem_append_right _ (List.mem_cons_of_mem _ hs))

/-- Only what mentions the name can be unsafe. -/
theorem Lacks.isSafe {z : String} {e : Expr} (h : e.Lacks z) (hlinear : e.Everywhere IsLinear) :
    e.IsSafe z := by
  induction hlinear with
  | intro hhere _ ih =>
    apply Everywhere.intro ⟨hhere, h.ownClauses⟩
    intro part hpart
    exact ih part hpart (h.part hpart)

end Expr

def Clause.IsSafe (z : String) (clause : Clause Expr) : Prop :=
  clause.IsGrammatical ∧ (Expr.function clause).IsSafe z

/-- The values are equal, except that their closures may have captured different bindings of the
name. -/
inductive Expr.EqualUpTo (z : String) : Expr → Expr → Prop
  | bool (b : Bool) : EqualUpTo z (.bool b) (.bool b)
  | number (n : Number) : EqualUpTo z (.number n) (.number n)
  | char (c : Char) : EqualUpTo z (.char c) (.char c)
  | wildcard : EqualUpTo z .wildcard .wildcard
  | builtIn (b : BuiltIn) : EqualUpTo z (.builtIn b) (.builtIn b)
  | list {xs ys : List Expr} (hlength : xs.length = ys.length)
    (h : ∀ pair ∈ xs.zip ys, EqualUpTo z pair.1 pair.2) : EqualUpTo z (.list xs) (.list ys)
  | assign {target v w : Expr} (h : EqualUpTo z v w) :
    EqualUpTo z (.assign target v) (.assign target w)
  | closure {name : Option String} {clauses : List (Clause Expr)} {captured other : Bindings}
    (hbound : ∀ n, n ≠ z → captured.contains n = other.contains n)
    (h : ∀ n v w, n ≠ z → captured.get? n = some v → other.get? n = some w → EqualUpTo z v w) :
    EqualUpTo z (.closure ⟨name, clauses, captured⟩) (.closure ⟨name, clauses, other⟩)

/-- The names whose bindings the clauses may look up, which are all but `z`, and `z` too if one
of them mentions it. -/
def Sees (z : String) (clauses : List (Clause Expr)) (n : String) : Prop :=
  n ≠ z ∨ ∃ clause ∈ clauses, ¬(Expr.function clause).Lacks z

/-- What two runs have in place of each other. Closures that mention the name captured alike
bindings of it, and an assignment has a target that no name occurs twice in, unless the values
are even equal. -/
inductive Expr.Alike (z : String) : Expr → Expr → Prop
  | bool (b : Bool) : Alike z (.bool b) (.bool b)
  | number (n : Number) : Alike z (.number n) (.number n)
  | char (c : Char) : Alike z (.char c) (.char c)
  | wildcard : Alike z .wildcard .wildcard
  | builtIn (b : BuiltIn) : Alike z (.builtIn b) (.builtIn b)
  | list {xs ys : List Expr} (hlength : xs.length = ys.length)
    (h : ∀ pair ∈ xs.zip ys, Alike z pair.1 pair.2) : Alike z (.list xs) (.list ys)
  | assign {target v w : Expr}
    (ht : Expr.nonPattern? target = none ∧ target.boundNames.Nodup ∨ v = w) (h : Alike z v w) :
    Alike z (.assign target v) (.assign target w)
  | closure {name : Option String} {clauses : List (Clause Expr)} {captured other : Bindings}
    (hsafe : ∀ clause ∈ clauses, clause.IsSafe z)
    (hbound : ∀ n, Sees z clauses n → captured.contains n = other.contains n)
    (h : ∀ n v w, Sees z clauses n → captured.get? n = some v → other.get? n = some w →
      Alike z v w) :
    Alike z (.closure ⟨name, clauses, captured⟩) (.closure ⟨name, clauses, other⟩)

/-- Bindings that are alike for some names: bound in both contexts or in none. -/
def Context.AlikeOn (z : String) (names : String → Prop) (c d : Bindings) : Prop :=
  ∀ n, names n → Option.Rel (Expr.Alike z) (c.get? n) (d.get? n)

namespace Expr.Alike

variable {z : String} {v w : Expr} {xs ys : List Expr}

theorem list_iff : Alike z (.list xs) (.list ys) ↔ List.Forall₂ (Alike z) xs ys := by
  rw [List.forall₂_iff_zip]
  constructor
  · rintro ⟨⟩
    exact ⟨‹_›, fun hpair => ‹∀ pair ∈ xs.zip ys, Alike z pair.1 pair.2› _ hpair⟩
  · rintro ⟨hlength, h⟩
    exact .list hlength fun pair hpair => h hpair

theorem rel_iff {o p : Option Expr} : Option.Rel (Alike z) o p ↔
    o.isSome = p.isSome ∧ ∀ v w, o = some v → p = some w → Alike z v w := by
  constructor
  · rintro (h | _)
    · exact ⟨rfl, by rintro _ _ ⟨⟩ ⟨⟩; exact h⟩
    · exact ⟨rfl, nofun⟩
  · rintro ⟨hsome, h⟩
    cases o <;> cases p <;> first | exact .none | exact .some (h _ _ rfl rfl) | cases hsome

theorem closure_iff {c d : Closure Expr} : Alike z (.closure c) (.closure d) ↔
    c.name = d.name ∧ c.clauses = d.clauses ∧ (∀ clause ∈ c.clauses, clause.IsSafe z) ∧
      Context.AlikeOn z (Sees z c.clauses) c.captured d.captured := by
  constructor
  · intro h
    cases h with
    | closure hsafe hbound h =>
      exact ⟨rfl, rfl, hsafe, fun n hn => rel_iff.2 ⟨hbound n hn, fun v w => h n v w hn⟩⟩
  · obtain ⟨name, clauses, captured⟩ := c
    obtain ⟨other, others, otherCaptured⟩ := d
    rintro ⟨rfl, rfl, hsafe, h⟩
    apply closure hsafe (fun n hn => (rel_iff.1 (h n hn)).1)
    intro n v w hn hv hw
    exact (rel_iff.1 (h n hn)).2 v w hv hw

theorem exists_closure {c : Closure Expr} (h : Alike z (.closure c) w) :
    ∃ d, w = .closure d := by
  cases h
  exact ⟨_, rfl⟩

/-- A clause that mentions the name may join functions that captured alike bindings of it. -/
theorem withClause {c d : Closure Expr} {clause : Clause Expr}
    (h : Alike z (.closure c) (.closure d)) (hs : clause.IsSafe z)
    (hz : ¬(Expr.function clause).Lacks z → Context.AlikeOn z (· = z) c.captured d.captured) :
    Alike z (.closure (c.withClause clause)) (.closure (d.withClause clause)) := by
  obtain ⟨hname, hclauses, hsafe, hcaptured⟩ := closure_iff.1 h
  rw [closure_iff]
  refine ⟨hname, congrArg (· ++ [clause]) hclauses,
    List.forall_mem_append.2 ⟨hsafe, List.forall_mem_singleton.2 hs⟩, ?_⟩
  intro n hn
  by_cases hnz : n = z
  · rcases hn with hn | ⟨k, hk, hmentions⟩
    · exact absurd hnz hn
    · rcases List.mem_append.1 hk with hk | hk
      · exact hcaptured n (Or.inr ⟨k, hk, hmentions⟩)
      · cases List.mem_singleton.1 hk
        exact hz hmentions n hnz
  · exact hcaptured n (Or.inl hnz)

/-- A value form is alike to itself. -/
theorem refl {v : Expr} (h : v.IsValue (Clause.IsSafe z)) : Alike z v v := by
  induction h with
  | bool b => exact .bool b
  | number n => exact .number n
  | char c => exact .char c
  | wildcard => exact .wildcard
  | builtIn b => exact .builtIn b
  | list _ ih => exact list_iff.2 (List.forall₂_same.2 ih)
  | assign _ ih => exact .assign (Or.inr rfl) ih
  | @closure c _ hclauses _ ih =>
    apply closure hclauses (fun _ _ => rfl)
    intro n v w _ hv hw
    rw [hv] at hw
    cases hw
    exact Context.All.get? (P := fun v => Alike z v v) ih hv

theorem symm (h : Alike z v w) : Alike z w v := by
  induction h with
  | bool b => exact .bool b
  | number n => exact .number n
  | char c => exact .char c
  | wildcard => exact .wildcard
  | builtIn b => exact .builtIn b
  | @list xs ys hlength _ ih =>
    refine list_iff.2 (List.Forall₂.flip (List.forall₂_iff_zip.2 ⟨hlength, fun hpair => ?_⟩))
    exact ih _ hpair
  | assign ht _ ih => exact .assign (ht.imp_right Eq.symm) ih
  | closure hsafe hbound _ ih =>
    apply closure hsafe (fun n hn => (hbound n hn).symm)
    intro n v w hn hv hw
    exact ih n w v hn hw hv

theorem equalUpTo (h : Alike z v w) : EqualUpTo z v w := by
  induction h with
  | bool b => exact .bool b
  | number n => exact .number n
  | char c => exact .char c
  | wildcard => exact .wildcard
  | builtIn b => exact .builtIn b
  | list hlength _ ih => exact .list hlength ih
  | assign _ _ ih => exact .assign ih
  | closure _ hbound _ ih =>
    apply EqualUpTo.closure (fun n hn => hbound n (Or.inl hn))
    intro n v w hn
    exact ih n v w (Or.inl hn)

theorem characters?_eq (h : List.Forall₂ (Alike z) xs ys) : characters? xs = characters? ys := by
  induction h with
  | nil => rfl
  | cons h _ ih =>
    cases h with
    | char c => rw [characters?, characters?, ih]
    | _ => rfl

theorem items?_rel (h : Alike z v w) : Option.Rel (List.Forall₂ (Alike z)) v.items? w.items? := by
  cases h with
  | list hlength h => exact .some (list_iff.1 (.list hlength h))
  | _ => exact .none

theorem text?_eq (h : Alike z v w) : v.text? = w.text? := by
  cases h with
  | list hlength h => exact characters?_eq (list_iff.1 (.list hlength h))
  | _ => rfl

end Alike

theorem renderItems_eq_map (items : List Expr) : renderItems items = items.map render := by
  induction items with
  | nil => rfl
  | cons item rest ih => rw [renderItems, ih, List.map_cons]

namespace Alike

variable {z : String} {v w : Expr} {xs ys : List Expr}

theorem render_eq (h : Alike z v w) : v.render = w.render := by
  induction h with
  | @list xs ys hlength h ih =>
    have hitems : renderItems xs = renderItems ys := by
      rw [renderItems_eq_map, renderItems_eq_map, ← List.forall₂_eq_eq_eq,
        List.forall₂_map_left_iff, List.forall₂_map_right_iff, List.forall₂_iff_zip]
      exact ⟨hlength, fun hpair => ih _ hpair⟩
    rw [render, render, hitems, renderList, renderList,
      characters?_eq (list_iff.1 (.list hlength h))]
  | assign _ _ ih => rw [render, render, ih]
  | _ => rfl

theorem renderItems_eq (h : List.Forall₂ (Alike z) xs ys) : renderItems xs = renderItems ys := by
  induction h with
  | nil => rfl
  | cons h _ ih => rw [renderItems, renderItems, h.render_eq, ih]

theorem toText_eq (h : Alike z v w) : v.toText = w.toText := by
  rw [toText, toText, h.text?_eq, h.render_eq]

end Expr.Alike

namespace Context.AlikeOn

variable {z : String} {names others : String → Prop} {c d : Bindings} {v w : Expr}

theorem mono (h : AlikeOn z names c d) (hsub : ∀ n, others n → names n) : AlikeOn z others c d :=
  fun n hn => h n (hsub n hn)

theorem empty : AlikeOn z names .empty .empty :=
  fun _ _ => .none

theorem insert (h : AlikeOn z names c d) (n : String) (hv : v.Alike z w) :
    AlikeOn z names (c.insert n v) (d.insert n w) := by
  intro m hm
  rw [get?_insert, get?_insert]
  split
  · exact .some hv
  · exact h m hm

theorem erase (h : AlikeOn z names c d) (n : String) :
    AlikeOn z names (c.erase n) (d.erase n) := by
  intro m hm
  rw [get?_erase, get?_erase]
  split
  · exact .none
  · exact h m hm

theorem mergeFavouring {winner other : Bindings} (hw : AlikeOn z (fun _ => True) winner other)
    (h : AlikeOn z names c d) :
    AlikeOn z names (winner.mergeFavouring c) (other.mergeFavouring d) := by
  intro n hn
  rw [get?_mergeFavouring, get?_mergeFavouring]
  have hrel := hw n trivial
  generalize winner.get? n = first, other.get? n = second at hrel
  cases hrel with
  | some hv => exact .some hv
  | none => exact h n hn

/-- What is bound in neither or in both. -/
theorem get?_eq_none (h : AlikeOn z names c d) {n : String} (hn : names n)
    (hc : c.get? n = none) : d.get? n = none := by
  have hrel := h n hn
  rw [hc] at hrel
  cases hd : d.get? n with
  | none => rfl
  | some w =>
    rw [hd] at hrel
    cases hrel

theorem of_all (h : c.All fun v => v.Alike z v) : AlikeOn z names c c := by
  intro n _
  cases hv : c.get? n with
  | none => exact .none
  | some v => exact .some (h.get? hv)

end Context.AlikeOn
end Song
