import Song.Proofs.Value.Destructuring

/-!
# Instances of patterns

A value is an instance of a pattern under a substitution if the pattern with its
names replaced is the value, where structural equality is enough for literals and
for a name that occurs again. Matching finds the substitution if there is one. It
fails only where a name that stands for a double occurs again, and nothing before
that place is a mismatch.
-/
namespace Song

def Context.HasNames {α : Type} (context : Context α) (names : List String) : Prop :=
  ∀ n, context.contains n = true ↔ n ∈ names

namespace Context.HasNames

variable {α : Type} {context : Context α} {names : List String}

theorem empty : (Context.empty : Context α).HasNames [] :=
  fun n => by simp [contains, get?_empty]

theorem get?_eq_none (h : context.HasNames names) {n : String} (hn : n ∉ names) :
    context.get? n = none := by
  rw [← Option.not_isSome_iff_eq_none]
  intro hsome
  exact hn ((h n).1 hsome)

theorem exists_get? (h : context.HasNames names) {n : String} (hn : n ∈ names) :
    ∃ v, context.get? n = some v :=
  Option.isSome_iff_exists.1 ((h n).2 hn)

theorem extend {after : Context α} {more : List String} (h : context.HasNames names)
    (hafter : Extends more context after) : after.HasNames (names ++ more) := by
  intro n
  rw [List.mem_append]
  by_cases hn : n ∈ more
  · simp [hn, hafter.binds n hn]
  · simp only [hn, or_false, contains, hafter.others n hn]
    exact h n

/-- Of two contexts with the same names one is part of the other only if they are equal. -/
theorem eq_of_isPartOf {other : Context α} (h : context.HasNames names)
    (ho : other.HasNames names) (hordered : context.Ordered) (hother : other.Ordered)
    (hpart : context.IsPartOf other) : context = other := by
  apply hordered.ext hother
  intro n
  by_cases hn : n ∈ names
  · obtain ⟨v, hv⟩ := h.exists_get? hn
    rw [hv, hpart n v hv]
  · rw [h.get?_eq_none hn, ho.get?_eq_none hn]

end Context.HasNames

namespace Expr

mutual
/-- The value is an instance of the pattern. The names in `seen` occurred before the pattern; for
one of them an equal value is enough, unless it stands for a double. -/
inductive IsInstance (s : Bindings) : List String → Expr → Expr → Prop
  | wildcard {seen : List String} (v : Expr) : IsInstance s seen .wildcard v
  | literal {seen : List String} {p v : Expr} (hp : p.isAtom = true) (h : same p v = true) :
    IsInstance s seen p v
  | first {seen : List String} {n : String} {v : Expr} (hn : n ∉ seen) (h : s.get? n = some v) :
    IsInstance s seen (.name n) v
  | again {seen : List String} {n : String} {w v : Expr} (hn : n ∈ seen) (hw : s.get? n = some w)
    (hfloat : w.isFloat = false) (h : same w v = true) : IsInstance s seen (.name n) v
  | list {seen : List String} {patterns items : List Expr}
    (h : AreInstances s seen patterns items) : IsInstance s seen (.list patterns) (.list items)
  | cons {seen : List String} {heads items : List Expr} {tail : Expr}
    (hl : heads.length ≤ items.length) (hh : AreInstances s seen heads (items.take heads.length))
    (ht : IsInstance s (seen ++ boundNamesAmong heads) tail (.list (items.drop heads.length))) :
    IsInstance s seen (.cons heads tail) (.list items)

/-- There are as many values as patterns, and each is an instance of its pattern. -/
inductive AreInstances (s : Bindings) : List String → List Expr → List Expr → Prop
  | nil {seen : List String} : AreInstances s seen [] []
  | cons {seen : List String} {p v : Expr} {patterns values : List Expr} (h : IsInstance s seen p v)
    (hrest : AreInstances s (seen ++ p.boundNames) patterns values) :
    AreInstances s seen (p :: patterns) (v :: values)
end

mutual
/-- In the pattern a name occurs again that stands for this double, and everything before that
place is an instance. Whether a value is a list, and of a length that fits, comes before its
items. -/
inductive MeetsFloat (s : Bindings) (x : Float) : List String → Expr → Expr → Prop
  | again {seen : List String} {n : String} {v : Expr} (hn : n ∈ seen)
    (h : s.get? n = some (.float x)) : MeetsFloat s x seen (.name n) v
  | list {seen : List String} {patterns items : List Expr} (hl : patterns.length = items.length)
    (h : SomeMeetsFloat s x seen patterns items) :
    MeetsFloat s x seen (.list patterns) (.list items)
  | heads {seen : List String} {heads items : List Expr} {tail : Expr}
    (hl : heads.length ≤ items.length)
    (h : SomeMeetsFloat s x seen heads (items.take heads.length)) :
    MeetsFloat s x seen (.cons heads tail) (.list items)
  | tail {seen : List String} {heads items : List Expr} {tail : Expr}
    (hl : heads.length ≤ items.length) (hh : AreInstances s seen heads (items.take heads.length))
    (h : MeetsFloat s x (seen ++ boundNamesAmong heads) tail (.list (items.drop heads.length))) :
    MeetsFloat s x seen (.cons heads tail) (.list items)

/-- The double is met in one of the patterns, after instances of those before it. -/
inductive SomeMeetsFloat (s : Bindings) (x : Float) : List String → List Expr → List Expr → Prop
  | here {seen : List String} {p v : Expr} {patterns values : List Expr}
    (h : MeetsFloat s x seen p v) : SomeMeetsFloat s x seen (p :: patterns) (v :: values)
  | later {seen : List String} {p v : Expr} {patterns values : List Expr}
    (hp : IsInstance s seen p v) (h : SomeMeetsFloat s x (seen ++ p.boundNames) patterns values) :
    SomeMeetsFloat s x seen (p :: patterns) (v :: values)
end

theorem AreInstances.length_eq {s : Bindings} {seen : List String} {patterns values : List Expr}
    (h : AreInstances s seen patterns values) : patterns.length = values.length := by
  induction patterns generalizing seen values with
  | nil => cases h; rfl
  | cons p patterns ih =>
    cases h with
    | cons _ hrest => simp [ih hrest]

def thenMatch (first second : Bindings → Except Cause (Option Bindings)) (bound : Bindings) :
    Except Cause (Option Bindings) :=
  match first bound with
  | .ok (some bound) => second bound
  | other => other

section ThenMatch

variable {first second : Bindings → Except Cause (Option Bindings)} {bound : Bindings}

theorem thenMatch_eq_some_iff {after : Bindings} :
    thenMatch first second bound = .ok (some after) ↔
      ∃ middle, first bound = .ok (some middle) ∧ second middle = .ok (some after) := by
  rw [thenMatch]
  rcases first bound with cause | _ | middle <;> simp

theorem thenMatch_eq_error_iff {cause : Cause} :
    thenMatch first second bound = .error cause ↔
      first bound = .error cause ∨
        ∃ middle, first bound = .ok (some middle) ∧ second middle = .error cause := by
  rw [thenMatch]
  rcases first bound with cause | _ | middle <;> simp

end ThenMatch

/-- After the names in `seen` are bound, the match binds `names`, and it decides a property of
substitutions: it finds the least one that has the property and agrees with what is bound. It
fails where a double is met. -/
structure Decides (seen names : List String) (m : Bindings → Except Cause (Option Bindings))
    (instances : Bindings → Prop) (floats : Bindings → Float → Prop) : Prop where
  extend {bound after : Bindings} (h : m bound = .ok (some after)) :
    Context.Extends names bound after
  ordered {bound after : Bindings} (h : m bound = .ok (some after)) (hbound : bound.Ordered) :
    after.Ordered
  sound {bound after s : Bindings} (hseen : bound.HasNames seen) (h : m bound = .ok (some after))
    (hs : after.IsPartOf s) : instances s
  complete {bound s : Bindings} (hseen : bound.HasNames seen) (hs : bound.IsPartOf s)
    (h : instances s) : ∃ after, m bound = .ok (some after) ∧ after.IsPartOf s
  meets {bound : Bindings} {cause : Cause} (hseen : bound.HasNames seen)
    (h : m bound = .error cause) :
    ∃ x s, cause = .floatPattern (.float x) ∧ bound.IsPartOf s ∧ floats s x
  fails {bound s : Bindings} {x : Float} (hseen : bound.HasNames seen) (hs : bound.IsPartOf s)
    (h : floats s x) : m bound = .error (.floatPattern (.float x))

namespace Decides

variable {seen names more : List String} {m k : Bindings → Except Cause (Option Bindings)}
  {instances others : Bindings → Prop} {floats moreFloats : Bindings → Float → Prop}

theorem congr (h : Decides seen names m instances floats) (hm : ∀ bound, k bound = m bound)
    (hinstances : ∀ s, others s ↔ instances s) (hfloats : ∀ s x, moreFloats s x ↔ floats s x) :
    Decides seen names k others moreFloats := by
  obtain rfl : k = m := funext hm
  obtain rfl : others = instances := funext fun s => propext (hinstances s)
  obtain rfl : moreFloats = floats := funext fun s => funext fun x => propext (hfloats s x)
  exact h

theorem never : Decides seen names (fun _ => .ok none) (fun _ => False) fun _ _ => False where
  extend h := by cases h
  ordered h := by cases h
  sound _ h := by cases h
  complete _ _ h := h.elim
  meets _ h := by cases h
  fails _ _ h := h.elim

/-- A condition that does not look at the bindings. -/
theorem test (c : Bool) :
    Decides seen [] (fun bound => .ok (if c then some bound else none)) (fun _ => c = true)
      fun _ _ => False := by
  cases c with
  | false => exact never.congr (fun _ => rfl) (fun _ => by simp) fun _ _ => Iff.rfl
  | true =>
    exact {
      extend := by rintro bound _ ⟨⟩; exact .refl bound
      ordered := by rintro bound _ ⟨⟩ hbound; exact hbound
      sound := fun _ _ _ => rfl
      complete := fun {bound s} _ hs _ => ⟨bound, rfl, hs⟩
      meets := fun _ h => by cases h
      fails := fun _ _ h => h.elim }

/-- One decision after the other. -/
theorem seq (h : Decides seen names m instances floats)
    (hk : Decides (seen ++ names) more k others moreFloats) :
    Decides seen (names ++ more) (thenMatch m k) (fun s => instances s ∧ others s)
      fun s x => floats s x ∨ instances s ∧ moreFloats s x where
  extend hmatch := by
    obtain ⟨middle, hm, hmore⟩ := thenMatch_eq_some_iff.1 hmatch
    exact (h.extend hm).trans (hk.extend hmore)
  ordered hmatch hbound := by
    obtain ⟨middle, hm, hmore⟩ := thenMatch_eq_some_iff.1 hmatch
    exact hk.ordered hmore (h.ordered hm hbound)
  sound hseen hmatch hs := by
    obtain ⟨middle, hm, hmore⟩ := thenMatch_eq_some_iff.1 hmatch
    have hmiddle := (hk.extend hmore).isPartOf hs
    exact ⟨h.sound hseen hm hmiddle, hk.sound (hseen.extend (h.extend hm)) hmore hs⟩
  complete hseen hs hboth := by
    obtain ⟨middle, hm, hmiddle⟩ := h.complete hseen hs hboth.1
    obtain ⟨after, hmore, hafter⟩ :=
      hk.complete (hseen.extend (h.extend hm)) hmiddle hboth.2
    exact ⟨after, thenMatch_eq_some_iff.2 ⟨middle, hm, hmore⟩, hafter⟩
  meets hseen hmatch := by
    rcases thenMatch_eq_error_iff.1 hmatch with hm | ⟨middle, hm, hmore⟩
    · obtain ⟨x, s, hcause, hs, hfloats⟩ := h.meets hseen hm
      exact ⟨x, s, hcause, hs, .inl hfloats⟩
    · obtain ⟨x, s, hcause, hs, hfloats⟩ := hk.meets (hseen.extend (h.extend hm)) hmore
      exact ⟨x, s, hcause, (h.extend hm).isPartOf hs, .inr ⟨h.sound hseen hm hs, hfloats⟩⟩
  fails hseen hs hmeets := by
    rw [thenMatch_eq_error_iff]
    rcases hmeets with hfloats | ⟨hfirst, hfloats⟩
    · exact .inl (h.fails hseen hs hfloats)
    · obtain ⟨middle, hm, hmiddle⟩ := h.complete hseen hs hfirst
      exact .inr ⟨middle, hm, hk.fails (hseen.extend (h.extend hm)) hmiddle hfloats⟩

end Decides

/-! ### Patterns -/

/-- Matching the pattern decides which values are instances of it. -/
def IsDecided (p : Expr) : Prop :=
  ∀ seen v, Decides seen p.boundNames (matchPattern p v) (fun s => IsInstance s seen p v)
    fun s x => MeetsFloat s x seen p v

theorem matchPattern_first {n : String} {v : Expr} {bound : Bindings} (h : bound.get? n = none) :
    matchPattern (.name n) v bound = .ok (some (bound.insert n v)) := by
  simp only [matchPattern, h]

theorem matchPattern_again {n : String} {v w : Expr} {bound : Bindings}
    (h : bound.get? n = some w) :
    matchPattern (.name n) v bound =
      if w.isFloat then .error (.floatPattern w)
      else .ok (if same w v then some bound else none) := by
  simp only [matchPattern, h]
  cases w with
  | number number => cases number <;> rfl
  | _ => rfl

private theorem exists_float {w : Expr} (h : w.isFloat = true) : ∃ x, w = .float x := by
  cases w with
  | number number =>
    cases number with
    | int i => cases h
    | float x => exact ⟨x, rfl⟩
  | _ => cases h

/-- The first occurrence of a name binds it, a later one compares. -/
private theorem name_decides (seen : List String) (n : String) (v : Expr) :
    Decides seen [n] (matchPattern (.name n) v) (fun s => IsInstance s seen (.name n) v)
      fun s x => MeetsFloat s x seen (.name n) v where
  extend h := matchPattern_extends (.name n) h
  ordered h hbound := by
    rcases matchPattern_name h with ⟨-, rfl⟩ | ⟨-, -, -, rfl⟩
    · exact hbound.insert n v
    · exact hbound
  sound {bound after s} hseen h hs := by
    cases hget : bound.get? n with
    | none =>
      rw [matchPattern_first hget] at h
      cases h
      refine .first ?_ (hs n v (by simp [Context.get?_insert]))
      intro hn
      obtain ⟨w, hw⟩ := hseen.exists_get? hn
      simp [hget] at hw
    | some w =>
      rw [matchPattern_again hget] at h
      split at h
      · cases h
      case isFalse hfloat =>
        split at h <;> cases h
        have hn : n ∈ seen := (hseen n).1 (by simp [Context.contains, hget])
        exact .again hn (hs n w hget) (Bool.eq_false_of_not_eq_true hfloat) ‹_›
  complete {bound s} hseen hs h := by
    -- Whether the name occurred before is whether it is bound.
    cases h with
    | literal hp => cases hp
    | first hn hv =>
      have hget := hseen.get?_eq_none hn
      refine ⟨_, matchPattern_first hget, ?_⟩
      intro other w hw
      rw [Context.get?_insert] at hw
      split at hw
      case isTrue heq =>
        cases hw
        exact heq ▸ hv
      case isFalse => exact hs other w hw
    | again hn hw hfloat hsame =>
      obtain ⟨u, hu⟩ := hseen.exists_get? hn
      obtain rfl : u = _ := Option.some.inj ((hs n u hu).symm.trans hw)
      exact ⟨bound, by simp [matchPattern_again hu, hfloat, hsame], hs⟩
  meets {bound cause} hseen h := by
    cases hget : bound.get? n with
    | none =>
      rw [matchPattern_first hget] at h
      cases h
    | some w =>
      rw [matchPattern_again hget] at h
      split at h
      case isTrue hfloat =>
        cases h
        obtain ⟨x, rfl⟩ := exists_float hfloat
        have hn : n ∈ seen := (hseen n).1 (by simp [Context.contains, hget])
        exact ⟨x, bound, rfl, fun _ _ hv => hv, .again hn hget⟩
      case isFalse => cases h
  fails {bound s x} hseen hs h := by
    cases h with
    | again hn hx =>
      obtain ⟨u, hu⟩ := hseen.exists_get? hn
      obtain rfl : u = _ := Option.some.inj ((hs n u hu).symm.trans hx)
      rw [matchPattern_again hu]
      rfl

private theorem literal_decides {p : Expr} (hp : p.isAtom = true) (hfloat : p.isFloat = false)
    (seen : List String) (v : Expr) :
    Decides seen [] (matchPattern p v) (fun s => IsInstance s seen p v)
      fun s x => MeetsFloat s x seen p v := by
  refine (Decides.test (same p v)).congr (fun bound => ?_) (fun s => ⟨?_, .literal hp⟩)
    fun s x => ⟨?_, False.elim⟩
  · cases p with
    | bool | char => rfl
    | number n =>
      cases n with
      | int i => rfl
      | float x => cases hfloat
    | _ => cases hp
  · intro h
    cases h with
    | literal _ h => exact h
    | _ => cases hp
  · intro h
    cases h <;> cases hp

/-- Matching as many values as there are patterns decides whether they are instances. -/
theorem items_decide {patterns : List Expr} (hp : ∀ p ∈ patterns, p.IsDecided)
    (seen : List String) {values : List Expr} (hl : patterns.length ≤ values.length) :
    Decides seen (boundNamesAmong patterns) (matchItems patterns values)
      (fun s => AreInstances s seen patterns (values.take patterns.length))
      fun s x => SomeMeetsFloat s x seen patterns (values.take patterns.length) := by
  induction patterns generalizing seen values with
  | nil =>
    apply (Decides.test true).congr (fun _ => rfl)
    · intro s
      exact ⟨fun _ => rfl, fun _ => .nil⟩
    · intro s x
      exact ⟨fun h => (by cases h), False.elim⟩
  | cons p patterns ih =>
    obtain ⟨hfirst, hrest⟩ := List.forall_mem_cons.1 hp
    cases values with
    | nil => simp at hl
    | cons v values =>
      have hmore := ih hrest (seen ++ p.boundNames) (Nat.le_of_succ_le_succ hl)
      apply ((hfirst seen v).seq hmore).congr (fun _ => rfl)
      · intro s
        constructor
        · rintro (_ | ⟨h, hrest⟩)
          exact ⟨h, hrest⟩
        · intro h
          exact .cons h.1 h.2
      · intro s x
        constructor
        · rintro (h | ⟨hp, h⟩)
          · exact .inl h
          · exact .inr ⟨hp, h⟩
        · rintro (h | ⟨hp, h⟩)
          · exact .here h
          · exact .later hp h

section Lists

variable {s : Bindings} {x : Float} {seen : List String} {patterns heads items : List Expr}
  {tail : Expr}

theorem isInstance_list_iff :
    IsInstance s seen (.list patterns) (.list items) ↔ AreInstances s seen patterns items := by
  refine ⟨?_, .list⟩
  intro h
  cases h with
  | literal hp => cases hp
  | list h => exact h

theorem meetsFloat_list_iff :
    MeetsFloat s x seen (.list patterns) (.list items) ↔
      patterns.length = items.length ∧ SomeMeetsFloat s x seen patterns items := by
  refine ⟨?_, fun h => .list h.1 h.2⟩
  intro h
  cases h with
  | list hl h => exact ⟨hl, h⟩

theorem isInstance_cons_iff :
    IsInstance s seen (.cons heads tail) (.list items) ↔
      heads.length ≤ items.length ∧ AreInstances s seen heads (items.take heads.length) ∧
        IsInstance s (seen ++ boundNamesAmong heads) tail (.list (items.drop heads.length)) := by
  refine ⟨?_, fun h => .cons h.1 h.2.1 h.2.2⟩
  intro h
  cases h with
  | literal hp => cases hp
  | cons hl hh ht => exact ⟨hl, hh, ht⟩

theorem meetsFloat_cons_iff :
    MeetsFloat s x seen (.cons heads tail) (.list items) ↔
      heads.length ≤ items.length ∧ (SomeMeetsFloat s x seen heads (items.take heads.length) ∨
        AreInstances s seen heads (items.take heads.length) ∧
          MeetsFloat s x (seen ++ boundNamesAmong heads) tail
            (.list (items.drop heads.length))) := by
  constructor
  · intro h
    cases h with
    | heads hl h => exact ⟨hl, .inl h⟩
    | tail hl hh h => exact ⟨hl, .inr ⟨hh, h⟩⟩
  · rintro ⟨hl, h | ⟨hh, h⟩⟩
    · exact .heads hl h
    · exact .tail hl hh h

end Lists

/-- What is no list is no instance of a pattern for lists. -/
private theorem decides_of_not_list {names seen : List String} {p v : Expr}
    (hp : (∃ patterns, p = .list patterns) ∨ ∃ heads tail, p = .cons heads tail)
    (hv : v.items? = none) :
    Decides seen names (matchPattern p v) (fun s => IsInstance s seen p v)
      fun s x => MeetsFloat s x seen p v := by
  refine Decides.never.congr (fun bound => ?_) (fun s => ⟨fun h => ?_, False.elim⟩)
    fun s x => ⟨fun h => ?_, False.elim⟩
  · obtain ⟨patterns, rfl⟩ | ⟨heads, tail, rfl⟩ := hp <;> rw [matchPattern, hv]
  · obtain ⟨patterns, rfl⟩ | ⟨heads, tail, rfl⟩ := hp <;> cases h <;> simp_all [isAtom, items?]
  · obtain ⟨patterns, rfl⟩ | ⟨heads, tail, rfl⟩ := hp <;> cases h <;> simp [items?] at hv

private theorem list_isDecided {patterns : List Expr} (hp : ∀ p ∈ patterns, p.IsDecided) :
    (list patterns).IsDecided := by
  intro seen v
  cases hv : v.items? with
  | none => exact decides_of_not_list (.inl ⟨patterns, rfl⟩) hv
  | some items =>
    obtain rfl := eq_list_of_items? hv
    by_cases hl : patterns.length = items.length
    · apply (items_decide hp seen hl.le).congr
      · intro bound
        rw [matchPattern, hv]
        simp only [sameLength_iff.2 hl, if_true]
      · intro s
        rw [isInstance_list_iff, List.take_of_length_le hl.ge]
      · intro s x
        rw [meetsFloat_list_iff, List.take_of_length_le hl.ge]
        exact and_iff_right hl
    · apply Decides.never.congr
      · intro bound
        rw [matchPattern, hv]
        simp [sameLength_iff, hl]
      · intro s
        rw [isInstance_list_iff]
        exact ⟨fun h => hl h.length_eq, False.elim⟩
      · intro s x
        rw [meetsFloat_list_iff]
        exact ⟨fun h => hl h.1, False.elim⟩

private theorem cons_isDecided {heads : List Expr} {tail : Expr} (hh : ∀ p ∈ heads, p.IsDecided)
    (ht : tail.IsDecided) : (cons heads tail).IsDecided := by
  intro seen v
  cases hv : v.items? with
  | none => exact decides_of_not_list (.inr ⟨heads, tail, rfl⟩) hv
  | some items =>
    obtain rfl := eq_list_of_items? hv
    by_cases hl : heads.length ≤ items.length
    · have hboth := (items_decide hh seen hl).seq (ht _ (.list (items.drop heads.length)))
      apply hboth.congr
      · intro bound
        rw [matchPattern, hv]
        simp only [List.length_take, Nat.min_eq_left hl, Nat.lt_irrefl, if_false]
        rfl
      · intro s
        rw [isInstance_cons_iff]
        exact and_iff_right hl
      · intro s x
        rw [meetsFloat_cons_iff]
        exact and_iff_right hl
    · apply Decides.never.congr
      · intro bound
        rw [matchPattern, hv]
        simp [List.length_take, Nat.lt_of_not_le hl]
      · intro s
        rw [isInstance_cons_iff]
        exact ⟨fun h => hl h.1, False.elim⟩
      · intro s x
        rw [meetsFloat_cons_iff]
        exact ⟨fun h => hl h.1, False.elim⟩

theorem IsPattern.isDecided {p : Expr} (hp : p.IsPattern)
    (hfloat : p.Everywhere fun part => part.isFloat = false) : p.IsDecided := by
  induction hp with
  | name n => exact fun seen v => name_decides seen n v
  | wildcard =>
    intro seen v
    apply (Decides.test true).congr (fun _ => rfl)
    · intro s
      exact ⟨fun _ => rfl, fun _ => .wildcard v⟩
    · intro s x
      exact ⟨fun h => (by cases h), False.elim⟩
  | bool | number | char => exact literal_decides rfl hfloat.here
  | list _ ih => exact list_isDecided fun p hp => ih p hp (hfloat.part hp)
  | cons _ _ ihh iht =>
    apply cons_isDecided (fun p hp => ihh p hp (hfloat.part (List.mem_append_left _ hp)))
    exact iht (hfloat.part (List.mem_append_right _ List.mem_cons_self))

theorem matchParameters_eq_matchItems {patterns args : List Expr}
    (h : patterns.length = args.length) :
    matchParameters patterns args = matchItems patterns args .empty := by
  simp only [matchParameters, sameLength_iff.2 h, if_true]

theorem matchParameters_eq_none {patterns args : List Expr} (h : patterns.length ≠ args.length) :
    matchParameters patterns args = .ok none := by
  simp [matchParameters, sameLength_iff, h]

/-- Matching finds the substitution that binds just the names of the patterns and under which the
arguments are instances. It fails exactly if some name that stands for a double is met again
before a mismatch. -/
theorem matchParameters_decides_instances {patterns : List Expr}
    (hp : ∀ p ∈ patterns, p.IsPattern)
    (hfloat : ∀ p ∈ patterns, p.Everywhere fun part => part.isFloat = false) (args : List Expr) :
    (∀ s, matchParameters patterns args = .ok (some s) ↔
      patterns.length = args.length ∧ s.Ordered ∧ s.HasNames (boundNamesAmong patterns) ∧
        AreInstances s [] patterns args) ∧
    ∀ cause, matchParameters patterns args = .error cause ↔
      patterns.length = args.length ∧
        ∃ x s, cause = .floatPattern (.float x) ∧ SomeMeetsFloat s x [] patterns args := by
  by_cases hl : patterns.length = args.length
  · rw [matchParameters_eq_matchItems hl]
    have hdecides := items_decide (fun p hmem => (hp p hmem).isDecided (hfloat p hmem)) [] hl.le
    simp only [List.take_of_length_le hl.ge] at hdecides
    have hempty : (Context.empty : Bindings).HasNames [] := .empty
    refine ⟨fun s => ⟨fun h => ?_, ?_⟩, fun cause => ⟨fun h => ?_, ?_⟩⟩
    · refine ⟨hl, hdecides.ordered h Context.ordered_empty, hempty.extend (hdecides.extend h), ?_⟩
      exact hdecides.sound hempty h fun _ _ hv => hv
    · -- The match finds a part of the substitution, and that has all its names.
      rintro ⟨-, hordered, hnames, h⟩
      obtain ⟨after, hafter, hpart⟩ := hdecides.complete hempty (Context.isPartOf_empty s) h
      have hafterNames := hempty.extend (hdecides.extend hafter)
      have hafterOrdered := hdecides.ordered hafter Context.ordered_empty
      rw [hafter, hafterNames.eq_of_isPartOf hnames hafterOrdered hordered hpart]
    · obtain ⟨x, s, hcause, -, hmeets⟩ := hdecides.meets hempty h
      exact ⟨hl, x, s, hcause, hmeets⟩
    · rintro ⟨-, x, s, rfl, hmeets⟩
      exact hdecides.fails hempty (Context.isPartOf_empty s) hmeets
  · rw [matchParameters_eq_none hl]
    simp [hl]

/-- The parameters `(x, [x, 1 | t])`. -/
def repeatedName : List Expr :=
  [.name "x", .cons [.name "x", .int 1] (.name "t")]

/-- With `(7, [7, 1, 2])` the name `x` stands for `7` and `t` for `[2]`. With a double for `x` the
second occurrence fails, whatever follows it. -/
theorem matchParameters_decides_instances_repeatedName :
    (∀ p ∈ repeatedName, p.IsPattern) ∧
    (∀ p ∈ repeatedName, p.Everywhere fun part => part.isFloat = false) ∧
    AreInstances ((Context.empty.insert "t" (.list [.int 2])).insert "x" (.int 7)) [] repeatedName
      [.int 7, .list [.int 7, .int 1, .int 2]] ∧
    SomeMeetsFloat (Context.empty.insert "x" (.float 0.5)) 0.5 [] repeatedName
      [.float 0.5, .list [.int 7, .int 3]] ∧
    matchParameters repeatedName [.float 0.5, .list [.int 7, .int 3]] =
      .error (.floatPattern (.float 0.5)) := by
  have hp : ∀ p ∈ repeatedName, p.IsPattern := isPattern_of_nonPatternAmong? _ rfl
  have hfloat : ∀ p ∈ repeatedName, p.Everywhere fun part => part.isFloat = false := by
    simp [repeatedName, everywhere_iff, parts, isFloat, int]
  obtain ⟨hinstances, -⟩ := matchParameters_decides_instances hp hfloat
    [.int 7, .list [.int 7, .int 1, .int 2]]
  obtain ⟨-, hmeets⟩ := matchParameters_decides_instances hp hfloat
    [.float 0.5, .list [.int 7, .int 3]]
  have hfloatMet : SomeMeetsFloat (Context.empty.insert "x" (.float 0.5)) 0.5 [] repeatedName
      [.float 0.5, .list [.int 7, .int 3]] := by
    apply SomeMeetsFloat.later (.first (by simp) rfl)
    apply SomeMeetsFloat.here
    apply MeetsFloat.heads (by decide)
    apply SomeMeetsFloat.here
    refine .again ?_ rfl
    simp [boundNames]
  exact ⟨hp, hfloat, ((hinstances _).1 rfl).2.2.2, hfloatMet,
    (hmeets _).2 ⟨rfl, 0.5, _, rfl, hfloatMet⟩⟩

end Expr
end Song
