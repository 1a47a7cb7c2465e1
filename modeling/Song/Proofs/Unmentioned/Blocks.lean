import Song.Proofs.Unmentioned.Evaluation

/-!
# Blocks in contexts that differ in one binding

A clause that mentions the name may join a function only if that one captured alike
bindings of the name in both runs. In a block this holds of the functions that the
block itself declared and has kept since.
-/
namespace Song

open Song.Expr (Alike)

variable {z : String} {c d : Bindings}

section Statement

variable {limit : Nat} {f : String} {next : Bindings} {streams after : Streams} {v w : Expr}

theorem evaluate_assign {target e : Expr}
    (h : evaluate limit (.assign target e) c streams = .value v after) :
    ∃ w, v = .assign target w := by
  cases limit with
  | zero => cases h
  | succ limit =>
    simp only [evaluate, Reduction.located, Reduction.step] at h
    cases he : evaluate limit e c streams with
    | exhausted => simp [he, Outcome.andThen, Outcome.inside] at h
    | failure f streams => simp [he, Outcome.andThen, Outcome.inside] at h
    | value w streams =>
      simp only [he, Outcome.andThen, Outcome.inside, Outcome.value.injEq] at h
      exact ⟨w, h.1.symm⟩

/-- A statement that keeps to a function and declares no clause of it leaves it as it is. -/
theorem get?_of_keeps {s : Expr} (hg : Grammatical .statement s) (hs : s.IsLinear)
    (hk : s.Keeps f) (hf : declaredName? s ≠ some f)
    (hv : evaluate limit s c streams = .value v after) (hvw : Alike z v w)
    (hi : install v c = .ok next) : next.get? f = c.get? f := by
  have hplain (hd : s.isDeclaration = false) (hh : s.handsOn c = false) :
      next.get? f = c.get? f := by
    have hv := evaluate_isPlain hg hd hh limit streams v after hv
    rw [install_isPlain hv, Except.ok.injEq] at hi
    rw [hi]
  cases s with
  | function clause =>
    cases hname : clause.name with
    | none => exact hplain (by simp [Expr.isDeclaration, hname]) rfl
    | some g =>
      rw [install_declared hname (evaluate_function hv) hi, Context.get?_insert, if_neg]
      rintro rfl
      exact hf hname
  | assign target e =>
    obtain ⟨v, rfl⟩ := evaluate_assign hv
    have hpattern : Expr.nonPattern? target = none := by
      cases hg with
      | expression h => cases h
      | assign _ _ hpattern _ => exact hpattern
    cases hvw with
    | assign _ hvw =>
      simp only [install] at hi
      split at hi <;> cases hi
      case h_1 bound hbound =>
        rw [Context.get?_mergeFavouring,
          get?_of_matchTarget hpattern hs hvw hbound hk, Option.none_or]
  | name | block | call | apply => cases hk
  | _ => exact hplain rfl rfl

/-- Alike contexts bind the name to functions of that name both or neither. -/
theorem bound_iff {first second : Option Expr} (h : Option.Rel (Alike z) first second) :
    (∃ closure, first = some (.closure closure) ∧ closure.name = some f) ↔
      ∃ closure, second = some (.closure closure) ∧ closure.name = some f := by
  cases h with
  | none => simp
  | some h => cases h <;> simp

/-- A clause that joins a settled function, or starts one, leaves it settled. -/
theorem Settled.declared {clause : Clause Expr} {other : Bindings} (hname : clause.name = some f)
    (hf : Option.Rel (Alike z) (c.get? f) (d.get? f)) (hz : Context.AlikeOn z (· = z) c d)
    (h : Settled z f c d) (hv : declare clause c = .ok v) (hw : declare clause d = .ok w)
    (hi : install v c = .ok next) (hj : install w d = .ok other) : Settled z f next other := by
  rw [Settled, install_declared hname hv hi, install_declared hname hw hj, Context.get?_insert,
    Context.get?_insert, if_pos rfl, if_pos rfl]
  rintro _ _ ⟨⟩ ⟨⟩
  -- both runs join a function or both start one, since what they find is alike
  rcases declare_cases hname hv with ⟨existing, hexisting, hsame, ⟨⟩⟩ | ⟨hnew, ⟨⟩⟩ <;>
    rcases declare_cases hname hw with ⟨found, hfound, hfoundName, ⟨⟩⟩ | ⟨hnone, ⟨⟩⟩
  · exact h existing found hexisting hfound
  · obtain ⟨found, hfound, hfoundName⟩ := (bound_iff hf).1 ⟨existing, hexisting, hsame⟩
    exact absurd hfoundName (hnone found hfound)
  · obtain ⟨existing, hexisting, hsame⟩ := (bound_iff hf).2 ⟨found, hfound, hfoundName⟩
    exact absurd hsame (hnew existing hexisting)
  · exact hz.erase f

end Statement

theorem shadow_fst_eq (declared : List String) (s : Expr) (c d : Bindings) :
    (shadow declared s c).1 = (shadow declared s d).1 := by
  rw [shadow, shadow]
  split
  · split <;> rfl
  · rfl

theorem mem_shadow_fst {declared : List String} {s : Expr} {c : Bindings} {f : String} :
    f ∈ (shadow declared s c).1 ↔ f ∈ declared ∨ declaredName? s = some f := by
  rw [shadow]
  cases hname : declaredName? s with
  | none => simp
  | some g =>
    dsimp only
    split <;> grind

theorem shadow_alike {names : String → Prop} (h : Context.AlikeOn z names c d)
    (declared : List String) (s : Expr) :
    Context.AlikeOn z names (shadow declared s c).2 (shadow declared s d).2 := by
  rw [shadow, shadow]
  split
  · split
    · exact h
    · exact h.erase _
  · exact h

/-- The first clause of a name in a block finds nothing bound to it; otherwise the statement
finds what the ones before it left. -/
theorem get?_shadow (declared : List String) (s : Expr) (c : Bindings) (f : String) :
    (shadow declared s c).2.get? f =
      if declaredName? s = some f ∧ f ∉ declared then none else c.get? f := by
  rw [shadow]
  cases hname : declaredName? s with
  | none => simp
  | some g =>
    dsimp only
    split <;> grind [Context.get?_erase]

/-- The block declared the function and has kept it since its first clause. -/
def Owned (f : String) (done : List Expr) : Prop :=
  ∃ before first between, done = before ++ first :: between ∧ declaredName? first = some f ∧
    (∀ s ∈ before, declaredName? s ≠ some f) ∧ ∀ s ∈ between, s.Keeps f

theorem Owned.of_concat {f : String} {done : List Expr} {s : Expr} (h : Owned f (done ++ [s])) :
    declaredName? s = some f ∧ (∀ t ∈ done, declaredName? t ≠ some f) ∨
      Owned f done ∧ s.Keeps f := by
  obtain ⟨before, first, between, hsplit, hfirst, hbefore, hbetween⟩ := h
  rcases between.eq_nil_or_concat with rfl | ⟨between, last, rfl⟩
  · obtain ⟨rfl, hs⟩ := List.append_inj' hsplit rfl
    cases hs
    exact Or.inl ⟨hfirst, hbefore⟩
  · rw [List.concat_eq_append] at hsplit hbetween
    rw [← List.cons_append, ← List.append_assoc] at hsplit
    obtain ⟨rfl, hs⟩ := List.append_inj' hsplit rfl
    cases hs
    obtain ⟨hbetween, hlast⟩ := List.forall_mem_append.1 hbetween
    exact Or.inr ⟨⟨before, first, between, rfl, hfirst, hbefore, hbetween⟩,
      List.forall_mem_singleton.1 hlast⟩

/-- A clause that mentions `z`, and is not the first of its function, joins an owned one. -/
theorem Expr.OwnClauses.owned {statements done after : List Expr} {s : Expr} {f : String}
    (h : (Expr.block statements).OwnClauses z) (hsplit : statements = done ++ s :: after)
    (hs : declaredName? s = some f) (hz : ¬s.Lacks z)
    (hf : ∃ t ∈ done, declaredName? t = some f) : Owned f done := by
  obtain ⟨t, ht, hname⟩ := hf
  have hfind : (done.find? fun t => declaredName? t == some f).isSome = true := by
    rw [List.find?_isSome]
    exact ⟨t, ht, by simpa using hname⟩
  obtain ⟨first, hfound⟩ := Option.isSome_iff_exists.1 hfind
  obtain ⟨hfirst, before, between, rfl, hbefore⟩ := List.find?_eq_some_iff_append.1 hfound
  have hfirst : declaredName? first = some f := by simpa using hfirst
  refine ⟨before, first, between, rfl, hfirst, fun s hs => by simpa using hbefore s hs, ?_⟩
  exact h before first between s after f hsplit hfirst hs hz

/-- What a block starts a function for is not bound, so it is settled. -/
theorem Settled.shadow {f : String} {declared : List String} {s : Expr}
    (h : Settled z f c d ∨ declaredName? s = some f ∧ f ∉ declared) :
    Settled z f (shadow declared s c).2 (shadow declared s d).2 := by
  intro existing other
  rw [get?_shadow, get?_shadow]
  split
  · rintro ⟨⟩
  case isFalse hnew => exact h.resolve_right hnew existing other

/-- Where two runs of a block stand after some of its statements. -/
structure InBlock (z : String) (statements done : List Expr) (declared : List String)
    (c d : Bindings) : Prop where
  fits : Fits z .expression c d (.block statements)
  declared_iff (f : String) : f ∈ declared ↔ ∃ s ∈ done, declaredName? s = some f
  settled (hz : ¬(Expr.block statements).Lacks z) (f : String) (h : Owned f done) : Settled z f c d

namespace InBlock

variable {statements done rest : List Expr} {declared : List String} {s : Expr}

theorem start (h : Fits z .expression c d (.block statements)) :
    InBlock z statements [] [] c d := by
  refine ⟨h, by simp, ?_⟩
  rintro _ _ ⟨before, first, between, hsplit, -⟩
  simp at hsplit

/-- The next statement fits the contexts in which it is evaluated. -/
theorem statement (h : InBlock z statements done declared c d)
    (hsplit : statements = done ++ s :: rest) :
    Fits z .statement (shadow declared s c).2 (shadow declared s d).2 s := by
  have hfits : Fits z .expression (shadow declared s c).2 (shadow declared s d).2
      (.block statements) :=
    ⟨h.fits.grammatical, h.fits.safe, shadow_alike h.fits.context declared s⟩
  have hs : s ∈ statements := by simp [hsplit]
  apply hfits.part hs
  have hg := h.fits.grammatical
  cases hg with
  | block hstatements => exact hstatements s hs

theorem joins (h : InBlock z statements done declared c d)
    (hsplit : statements = done ++ s :: rest) :
    Joins z s (shadow declared s c).2 (shadow declared s d).2 := by
  intro f hf hz
  apply Settled.shadow
  by_cases hdeclared : f ∈ declared
  · have hs : s ∈ (Expr.block statements).parts := by simp [Expr.parts, hsplit]
    left
    apply h.settled (fun hlacks => hz (hlacks.part hs)) f
    exact h.fits.safe.here.2.owned hsplit hf hz ((h.declared_iff f).1 hdeclared)
  · exact Or.inr ⟨hf, hdeclared⟩

/-- What a statement declares, or keeps to, is settled after it. -/
theorem next {limit : Nat} {streams after : Streams} {v w : Expr} {next other : Bindings}
    (h : InBlock z statements done declared c d) (hsplit : statements = done ++ s :: rest)
    (hv : evaluate limit s (shadow declared s c).2 streams = .value v after)
    (hw : evaluate limit s (shadow declared s d).2 streams = .value w after)
    (hvw : Alike z v w) (hi : install v (shadow declared s c).2 = .ok next)
    (hj : install w (shadow declared s d).2 = .ok other)
    (hnext : Context.AlikeOn z ((Expr.block statements).Reads z) next other) :
    InBlock z statements (done ++ [s]) (shadow declared s c).1 next other := by
  refine ⟨⟨h.fits.grammatical, h.fits.safe, hnext⟩, ?_, ?_⟩
  · intro f
    rw [mem_shadow_fst, h.declared_iff f]
    simp [or_and_right, exists_or]
  · intro hz f howned
    have hs := h.statement hsplit
    have hcontext := shadow_alike h.fits.context declared s
    have hbefore : Settled z f (shadow declared s c).2 (shadow declared s d).2 := by
      apply Settled.shadow
      rcases howned.of_concat with ⟨hf, hfirst⟩ | ⟨hdone, -⟩
      · right
        refine ⟨hf, ?_⟩
        intro hdeclared
        obtain ⟨t, ht, hname⟩ := (h.declared_iff f).1 hdeclared
        exact hfirst t ht hname
      · exact Or.inl (h.settled hz f hdone)
    by_cases hf : declaredName? s = some f
    · cases s with
      | function clause =>
        exact hbefore.declared hf (hcontext f (Or.inr hz)) (hcontext.mono fun _ _ => Or.inr hz)
          (evaluate_function hv) (evaluate_function hw) hi hj
      | _ => cases hf
    · obtain ⟨hfirst, -⟩ | ⟨-, hkeeps⟩ := howned.of_concat
      · exact absurd hfirst hf
      · intro existing found
        rw [get?_of_keeps hs.grammatical hs.safe.here.1 hkeeps hf hv hvw hi,
          get?_of_keeps hs.grammatical hs.safe.here.1 hkeeps hf hw hvw.symm hj]
        exact hbefore existing found

end InBlock

/-- Two runs of the statements that are left. -/
theorem Reduction.block_alike {limit : Nat} {final : Reduction} {S : Expr → Expr → Prop}
    (he : Lockstep z (Alike z) (evaluate limit)) (hf : final.Lockstep z S)
    {statements done rest : List Expr} {declared : List String}
    (h : InBlock z statements done declared c d) (hsplit : statements = done ++ rest)
    (streams : Streams) :
    AlikeOutcome S (block (evaluate limit) final declared rest c streams)
      (block (evaluate limit) final declared rest d streams) := by
  induction rest generalizing done declared c d streams with
  | nil => exact .fail rfl streams
  | cons s rest ih =>
    have hs := h.statement hsplit
    have hjoins := h.joins hsplit
    cases rest with
    | nil => exact hf s _ _ streams hs hjoins
    | cons t rest =>
      simp only [block]
      have hout := he s _ _ streams hs hjoins
      generalize hv : evaluate limit s (shadow declared s c).2 streams = first,
        hw : evaluate limit s (shadow declared s d).2 streams = second at hout
      cases hout with
      | exhausted => exact .exhausted
      | failure hwithin hmessage streams => exact .failure hwithin hmessage streams
      | value hvw streams =>
        have hinstall := install_alike hvw (shadow_alike h.fits.context declared s)
        simp only [Outcome.andThen]
        generalize hi : install _ (shadow declared s c).2 = first,
          hj : install _ (shadow declared s d).2 = second at hinstall
        cases hinstall with
        | error hmessage => exact .fail hmessage streams
        | ok hnext =>
          dsimp only
          rw [← shadow_fst_eq declared s c d]
          exact ih (h.next hsplit hv hw hvw hi hj hnext) (by simp [hsplit]) streams

end Song
