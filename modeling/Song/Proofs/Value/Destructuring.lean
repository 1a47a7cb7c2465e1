import Song.Proofs.Expr.Pattern
import Song.Proofs.Unmentioned.Likeness
import Song.Proofs.Value.Clauses

/-!
# Taking a value apart and putting it together

A pattern is read in two ways: matching takes a value apart and binds names to the
pieces, and evaluation puts the pieces together again. Evaluating the target of an
assignment where the assignment is installed therefore gives the assigned value, as
far as structural equality can tell. A match keeps the names that were bound before,
binds those of the pattern and no others.
-/
namespace Song

open Filter

namespace Expr

/-- Whether the expression is the double that differs from itself. -/
def isNaN : Expr → Bool
  | number (.float x) => !(x == x)
  | _ => false

theorem sameItems_self {items : List Expr} (h : ∀ e ∈ items, same e e = true) :
    sameItems items items = true := by
  induction items with
  | nil => rfl
  | cons e rest ih =>
    obtain ⟨hfirst, hrest⟩ := List.forall_mem_cons.1 h
    rw [sameItems, hfirst, ih hrest, Bool.and_self]

/-- Everything without not-a-number is equal to itself; closures are so in any case. -/
theorem same_self {e : Expr} (h : e.Everywhere fun part => part.isNaN = false) :
    same e e = true := by
  induction h with
  | @intro e hnumber _ ih =>
    cases e with
    | bool b => exact beq_self_eq_true b
    | char c => exact beq_self_eq_true c
    | name n => exact beq_self_eq_true n
    | builtIn f => exact beq_self_eq_true f
    | wildcard => rfl
    | closure c =>
      change (decide (c = c) || sameClosure c c) = true
      rw [decide_eq_true rfl, Bool.true_or]
    | number n =>
      change n.same n = true
      cases n with
      | int i => simp [Number.same]
      | float x => simpa [Number.same, isNaN] using hnumber
    | list items | block items => exact sameItems_self ih
    | cons heads tail =>
      obtain ⟨hheads, htail⟩ := List.forall_mem_append.1 ih
      exact Bool.and_eq_true_iff.2 ⟨sameItems_self hheads, htail tail (List.mem_singleton_self _)⟩
    | function clause =>
      obtain ⟨n, patterns, guard, body⟩ := clause
      obtain ⟨hpatterns, hrest⟩ := List.forall_mem_append.1 ih
      obtain ⟨hguard, hbody⟩ := List.forall_mem_cons.1 hrest
      change sameClause ⟨n, patterns, guard, body⟩ ⟨n, patterns, guard, body⟩ = true
      simp [sameClause, sameItems_self hpatterns, hguard, List.forall_mem_singleton.1 hbody]
    | assign target value =>
      obtain ⟨htarget, hvalue⟩ := List.forall_mem_cons.1 ih
      exact Bool.and_eq_true_iff.2 ⟨htarget, hvalue value (List.mem_singleton_self _)⟩
    | call callee args =>
      exact Bool.and_eq_true_iff.2 ⟨beq_self_eq_true callee, sameItems_self ih⟩
    | apply target args | deferred target args =>
      obtain ⟨htarget, hargs⟩ := List.forall_mem_cons.1 ih
      exact Bool.and_eq_true_iff.2 ⟨htarget, sameItems_self hargs⟩

theorem sameItems_append {xs ys others more : List Expr} (h : sameItems xs others = true)
    (hmore : sameItems ys more = true) : sameItems (xs ++ ys) (others ++ more) = true := by
  induction xs generalizing others with
  | nil =>
    cases others with
    | nil => exact hmore
    | cons => cases h
  | cons x xs ih =>
    cases others with
    | nil => cases h
    | cons y others =>
      rw [sameItems, Bool.and_eq_true] at h
      rw [List.cons_append, List.cons_append, sameItems, h.1, ih h.2, Bool.and_self]

theorem exists_of_same_list {e : Expr} {items : List Expr} (h : same e (.list items) = true) :
    ∃ others, e = .list others ∧ sameItems others items = true := by
  cases e with
  | list others => exact ⟨others, rfl, h⟩
  | _ => cases h

end Expr

/-- The later bindings are the earlier ones and bindings of these names. -/
structure Context.Extends {α : Type} (names : List String) (bound after : Context α) : Prop where
  kept : bound.IsPartOf after
  binds : ∀ n ∈ names, after.contains n = true
  others : ∀ n, n ∉ names → after.get? n = bound.get? n

namespace Context.Extends

variable {α : Type} {bound middle after : Context α}

theorem refl (bound : Context α) : Extends [] bound bound :=
  ⟨fun _ _ h => h, nofun, fun _ _ => rfl⟩

theorem trans {names more : List String} (h : Extends names bound middle)
    (hmore : Extends more middle after) : Extends (names ++ more) bound after where
  kept n v hv := hmore.kept n v (h.kept n v hv)
  binds n hn := by
    rcases List.mem_append.1 hn with hn | hn
    · obtain ⟨v, hv⟩ := Option.isSome_iff_exists.1 (h.binds n hn)
      exact Option.isSome_iff_exists.2 ⟨v, hmore.kept n v hv⟩
    · exact hmore.binds n hn
  others n hn := by
    rw [List.mem_append, not_or] at hn
    rw [hmore.others n hn.2, h.others n hn.1]

theorem isPartOf {names : List String} {whole : Context α} (h : Extends names bound after)
    (hafter : after.IsPartOf whole) : bound.IsPartOf whole :=
  fun n v hv => hafter n v (h.kept n v hv)

theorem bound_name {n : String} {v : α} (h : bound.get? n = some v) : Extends [n] bound bound where
  kept _ _ hv := hv
  binds := List.forall_mem_singleton.2 (by rw [contains, h]; rfl)
  others _ _ := rfl

theorem insert {n : String} (h : bound.get? n = none) (v : α) :
    Extends [n] bound (bound.insert n v) where
  kept m w hw := by
    rw [get?_insert, if_neg]
    · exact hw
    · rintro rfl
      rw [h] at hw
      cases hw
  binds := List.forall_mem_singleton.2 (by rw [contains, get?_insert, if_pos rfl]; rfl)
  others m hm := by
    rw [get?_insert, if_neg]
    rintro rfl
    exact hm (List.mem_singleton_self n)

end Context.Extends

namespace Expr

section Matching

variable {v : Expr} {bound after : Bindings}

theorem matchPattern_name {n : String}
    (h : matchPattern (.name n) v bound = .ok (some after)) :
    (bound.get? n = none ∧ after = bound.insert n v) ∨
      ∃ w, bound.get? n = some w ∧ same w v = true ∧ after = bound := by
  rw [matchPattern] at h
  split at h
  · cases h
  case h_2 w _ hw =>
    split at h <;> cases h
    exact Or.inr ⟨w, hw, ‹_›, rfl⟩
  case h_3 hnone =>
    cases h
    exact Or.inl ⟨hnone, rfl⟩

theorem matchPattern_atom {p : Expr} (hp : p.isAtom = true)
    (h : matchPattern p v bound = .ok (some after)) : same p v = true ∧ after = bound := by
  have hliteral : matchPattern p v bound = .ok (if same p v then some bound else none) := by
    cases p with
    | bool | char => rfl
    | number n =>
      cases n with
      | int i => rfl
      | float x => cases h
    | _ => cases hp
  rw [hliteral] at h
  split at h <;> cases h
  exact ⟨‹_›, rfl⟩

theorem eq_list_of_items? {items : List Expr} (h : v.items? = some items) : v = .list items := by
  cases v with
  | list => cases h; rfl
  | _ => cases h

theorem matchPattern_list {patterns : List Expr}
    (h : matchPattern (.list patterns) v bound = .ok (some after)) :
    ∃ items, v = .list items ∧ patterns.length = items.length ∧
      matchItems patterns items bound = .ok (some after) := by
  rw [matchPattern] at h
  split at h
  · cases h
  case h_2 items hitems =>
    split at h
    case isTrue hlength => exact ⟨items, eq_list_of_items? hitems, sameLength_iff.1 hlength, h⟩
    case isFalse => cases h

theorem matchPattern_cons {heads : List Expr} {tail : Expr}
    (h : matchPattern (.cons heads tail) v bound = .ok (some after)) :
    ∃ items middle, v = .list items ∧ heads.length ≤ items.length ∧
      matchItems heads items bound = .ok (some middle) ∧
      matchPattern tail (.list (items.drop heads.length)) middle = .ok (some after) := by
  rw [matchPattern] at h
  split at h
  · cases h
  case h_2 items hitems =>
    split at h
    · cases h
    case isFalse hlength =>
      rw [List.length_take] at hlength
      split at h
      case h_1 middle hmiddle =>
        exact ⟨items, middle, eq_list_of_items? hitems, by omega, hmiddle, h⟩
      case h_2 hother => exact absurd h (hother after)

theorem matchItems_cons {p : Expr} {patterns values : List Expr}
    (h : matchItems (p :: patterns) values bound = .ok (some after)) :
    ∃ first rest middle, values = first :: rest ∧
      matchPattern p first bound = .ok (some middle) ∧
      matchItems patterns rest middle = .ok (some after) := by
  cases values with
  | nil => cases h
  | cons first rest =>
    rw [matchItems] at h
    split at h
    case h_1 middle hmiddle => exact ⟨first, rest, middle, rfl, hmiddle, h⟩
    case h_2 hother => exact absurd h (hother after)

theorem matchItems_extends {patterns : List Expr}
    (hp : ∀ p ∈ patterns, ∀ v bound after, matchPattern p v bound = .ok (some after) →
      Context.Extends p.boundNames bound after)
    {values : List Expr} (h : matchItems patterns values bound = .ok (some after)) :
    Context.Extends (boundNamesAmong patterns) bound after := by
  induction patterns generalizing values bound with
  | nil =>
    cases h
    exact .refl after
  | cons p patterns ih =>
    obtain ⟨hfirst, hrest⟩ := List.forall_mem_cons.1 hp
    obtain ⟨first, rest, middle, rfl, hmatch, hmore⟩ := matchItems_cons h
    exact (hfirst first bound middle hmatch).trans (ih hrest hmore)

/-- A match keeps what is bound, binds the names of the pattern and no others. -/
theorem matchPattern_extends {p : Expr} (hp : p.IsPattern)
    (h : matchPattern p v bound = .ok (some after)) :
    Context.Extends p.boundNames bound after := by
  induction hp generalizing v bound after with
  | name n =>
    rcases matchPattern_name h with ⟨hnone, rfl⟩ | ⟨w, hw, -, rfl⟩
    · exact .insert hnone v
    · exact .bound_name hw
  | wildcard =>
    cases h
    exact .refl _
  | bool | number | char =>
    obtain ⟨-, rfl⟩ := matchPattern_atom rfl h
    exact .refl after
  | list _ ih =>
    obtain ⟨items, -, -, hitems⟩ := matchPattern_list h
    exact matchItems_extends (fun p hp v bound after => ih p hp) hitems
  | cons _ _ ihh iht =>
    obtain ⟨items, middle, -, -, hheads, htail⟩ := matchPattern_cons h
    exact (matchItems_extends (fun p hp v bound after => ihh p hp) hheads).trans (iht htail)

end Matching
end Expr

theorem all_of_isAtom {items : List Expr} (h : items.all Expr.isAtom = true) (n : Nat)
    (context : Bindings) (streams : Streams) :
    Reduction.all (evaluate (n + 1)) items context streams = .value items streams := by
  induction items with
  | nil => rfl
  | cons e rest ih =>
    rw [List.all_cons, Bool.and_eq_true] at h
    have hfirst : evaluate (n + 1) e context streams = .value e streams := by
      cases e <;> first | rfl | cases h.1
    rw [Reduction.all, hfirst, Outcome.andThen, ih h.2]
    rfl

section Evaluates

variable {context : Bindings} {streams after : Streams}

theorem Evaluates.atom {e : Expr} (h : e.isAtom = true) :
    Evaluates e context streams (.value e streams) :=
  ⟨nofun, 1, by cases e <;> first | rfl | cases h⟩

theorem Evaluates.name {n : String} {v : Expr} (h : context.get? n = some v) :
    Evaluates (.name n) context streams (.value v streams) :=
  ⟨nofun, 1, by simp only [evaluate, Reduction.located, Reduction.step, h]⟩

/-- A list of literals is taken as it is, which comes to the same as evaluating them. -/
theorem EvaluatesAll.list {es values : List Expr}
    (h : EvaluatesAll context es streams values after) :
    Evaluates (.list es) context streams (.value (.list values) after) := by
  refine .of_eventually nofun (eventually_of_succ ?_)
  filter_upwards [h.eventually, eventually_ge_atTop 1] with n hall hn
  simp only [evaluate, Reduction.located, Reduction.step]
  split
  case isTrue hatoms =>
    obtain ⟨m, rfl⟩ := Nat.exists_eq_add_of_le' hn
    rw [all_of_isAtom hatoms] at hall
    cases hall
    rfl
  case isFalse =>
    rw [hall]
    rfl

theorem EvaluatesAll.cons_list {heads values items : List Expr} {tail : Expr} {middle : Streams}
    (h : EvaluatesAll context heads streams values middle)
    (ht : Evaluates tail context middle (.value (.list items) after)) :
    Evaluates (.cons heads tail) context streams (.value (.list (values ++ items)) after) := by
  refine .of_eventually nofun (eventually_of_succ ?_)
  filter_upwards [h.eventually, ht.eventually] with n hall htail
  simp only [evaluate, Reduction.located, Reduction.step, hall, htail, Outcome.andThen,
    Expr.items?]
  rfl

end Evaluates

/-- In the context the pattern evaluates, without any effect, to something equal to the value. -/
def Expr.Rebuilds (p : Expr) (context : Bindings) (v : Expr) : Prop :=
  ∃ rebuilt, rebuilt.same v = true ∧
    ∀ streams, Evaluates p context streams (.value rebuilt streams)

namespace Expr

variable {context bound after : Bindings}

/-- The matched values are rebuilt from what the later patterns leave bound. -/
theorem matchItems_rebuilds {patterns values : List Expr} (hpattern : ∀ p ∈ patterns, p.IsPattern)
    (hp : ∀ p ∈ patterns, ∀ v ∈ values, ∀ bound after,
      matchPattern p v bound = .ok (some after) → after.IsPartOf context → p.Rebuilds context v)
    (h : matchItems patterns values bound = .ok (some after)) (hafter : after.IsPartOf context) :
    ∃ rebuilt, sameItems rebuilt (values.take patterns.length) = true ∧
      ∀ streams, EvaluatesAll context patterns streams rebuilt streams := by
  induction patterns generalizing values bound with
  | nil => exact ⟨[], rfl, fun streams => .nil streams⟩
  | cons p patterns ih =>
    obtain ⟨-, hpatterns⟩ := List.forall_mem_cons.1 hpattern
    obtain ⟨v, rest, middle, rfl, hmatch, hmore⟩ := matchItems_cons h
    have hlater : Context.Extends (boundNamesAmong patterns) middle after :=
      matchItems_extends (fun q hq _ _ _ => matchPattern_extends (hpatterns q hq)) hmore
    obtain ⟨r, hr, hevaluates⟩ :=
      hp p List.mem_cons_self v List.mem_cons_self bound middle hmatch (hlater.isPartOf hafter)
    obtain ⟨rs, hrs, hall⟩ := ih hpatterns (fun q hq w hw =>
      hp q (List.mem_cons_of_mem _ hq) w (List.mem_cons_of_mem _ hw)) hmore
    refine ⟨r :: rs, ?_, fun streams => .cons (hevaluates streams) (hall streams)⟩
    rw [List.length_cons, List.take_succ_cons, sameItems, hr, hrs, Bool.and_self]

/-- What a pattern without wildcards was matched with is rebuilt wherever the match is bound. -/
theorem matchPattern_rebuilds {p v : Expr} (hp : p.IsPattern) (hw : p.Everywhere (· ≠ .wildcard))
    (hv : v.Everywhere fun e => e.isNaN = false)
    (h : matchPattern p v bound = .ok (some after)) (hafter : after.IsPartOf context) :
    p.Rebuilds context v := by
  induction hp generalizing v bound after with
  | name n =>
    rcases matchPattern_name h with ⟨-, rfl⟩ | ⟨w, hbound, hsame, rfl⟩
    · have hget : context.get? n = some v :=
        hafter n v (by rw [Context.get?_insert, if_pos rfl])
      exact ⟨v, same_self hv, fun streams => .name hget⟩
    · exact ⟨w, hsame, fun streams => .name (hafter n w hbound)⟩
  | wildcard => exact absurd rfl hw.here
  | bool | number | char =>
    obtain ⟨hsame, -⟩ := matchPattern_atom rfl h
    exact ⟨_, hsame, fun streams => .atom rfl⟩
  | @list patterns hpatterns ih =>
    obtain ⟨items, rfl, hlength, hitems⟩ := matchPattern_list h
    have hparts : ∀ e ∈ items, e.Everywhere fun e => e.isNaN = false := fun e he => hv.part he
    obtain ⟨rs, hrs, hall⟩ := matchItems_rebuilds hpatterns
      (fun p hp e he _ _ => ih p hp (hw.part hp) (hparts e he)) hitems hafter
    rw [hlength, List.take_length] at hrs
    exact ⟨.list rs, hrs, fun streams => (hall streams).list⟩
  | @cons heads tail hheads htail ihh iht =>
    obtain ⟨items, middle, rfl, -, hmatch, hrest⟩ := matchPattern_cons h
    have hparts : ∀ e ∈ items, e.Everywhere fun e => e.isNaN = false := fun e he => hv.part he
    obtain ⟨rs, hrs, hall⟩ := matchItems_rebuilds hheads
      (fun p hp e he _ _ => ihh p hp (hw.part (List.mem_append_left _ hp)) (hparts e he))
      hmatch ((matchPattern_extends htail hrest).isPartOf hafter)
    have hdrop : (Expr.list (items.drop heads.length)).Everywhere fun e => e.isNaN = false :=
      .intro rfl fun e he => hparts e (List.mem_of_mem_drop he)
    obtain ⟨t, ht, htail⟩ := iht (hw.part (List.mem_append_right _ (List.mem_singleton_self _)))
      hdrop hrest hafter
    -- the tail was matched with a list, so what it evaluates to is one
    obtain ⟨others, rfl, hothers⟩ := exists_of_same_list ht
    refine ⟨.list (rs ++ others), ?_, fun streams => (hall streams).cons_list (htail streams)⟩
    have hsame := sameItems_append hrs hothers
    rwa [List.take_append_drop] at hsame

end Expr

/-- Where an assignment is installed its target evaluates to the assigned value, up to structural
equality and without any effect, provided that it has no wildcard and the value no not-a-number.
The names of the target are bound and all others are as before. -/
theorem rebuilds_of_install {p v : Expr} {context installed : Bindings} (hp : p.IsPattern)
    (hw : p.Everywhere (· ≠ .wildcard)) (hv : v.Everywhere fun e => e.isNaN = false)
    (h : install (.assign p v) context = .ok installed) :
    p.Rebuilds installed v ∧ (∀ n ∈ p.boundNames, installed.contains n = true) ∧
      ∀ n, n ∉ p.boundNames → installed.get? n = context.get? n := by
  rw [install] at h
  split at h
  case h_1 bound hmatch =>
    cases h
    have hpart : bound.IsPartOf (bound.mergeFavouring context) := fun n w hw => by
      rw [Context.get?_mergeFavouring, hw, Option.some_or]
    have hextends := Expr.matchPattern_extends hp hmatch
    refine ⟨Expr.matchPattern_rebuilds hp hw hv hmatch hpart, ?_, ?_⟩
    · intro n hn
      obtain ⟨w, hw⟩ := Option.isSome_iff_exists.1 (hextends.binds n hn)
      exact Option.isSome_iff_exists.2 ⟨w, hpart n w hw⟩
    · intro n hn
      rw [Context.get?_mergeFavouring, hextends.others n hn, Context.get?_empty, Option.none_or]
  · cases h
  · cases h

/-- The pattern `[x, [1, x] | t]`. -/
def pairedHeads : Expr :=
  .cons [.name "x", .list [.int 1, .name "x"]] (.name "t")

def pairedItems : Expr :=
  .list [.char 'a', .list [.int 1, .char 'a'], .bool true]

theorem rebuilds_of_install_paired :
    ∃ installed, install (.assign pairedHeads pairedItems) BuiltIn.startingContext = .ok installed ∧
      pairedHeads.Rebuilds installed pairedItems ∧ installed.contains "t" = true ∧
      installed.get? "in" = BuiltIn.startingContext.get? "in" := by
  have hp : pairedHeads.IsPattern := Expr.isPattern_of_nonPattern? _ rfl
  have hw : pairedHeads.Everywhere (· ≠ .wildcard) := by
    simp [pairedHeads, Expr.everywhere_iff, Expr.parts, Expr.int]
  have hv : pairedItems.Everywhere fun e => e.isNaN = false := by
    simp [pairedItems, Expr.everywhere_iff, Expr.parts, Expr.isNaN, Expr.int]
  have hinstall : ∃ installed, install (.assign pairedHeads pairedItems) BuiltIn.startingContext =
      .ok installed := ⟨_, rfl⟩
  obtain ⟨installed, hinstall⟩ := hinstall
  obtain ⟨hrebuilds, hbinds, hothers⟩ := rebuilds_of_install hp hw hv hinstall
  exact ⟨installed, hinstall, hrebuilds, hbinds "t" (by decide), hothers "in" (by decide)⟩

end Song
