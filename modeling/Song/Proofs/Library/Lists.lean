import Song.Proofs.Evaluation.Application
import Song.Proofs.Library.Provided

/-!
# Reversing, folding, mapping and filtering lists

The list functions of the library call their argument once for each item, from the first to the
last, and hand the streams on from call to call. Each has one lemma for a step of its recursion and
one for the run over some items that follows from it.
-/
namespace Song.Library

attribute [local simp] Expr.matchParameters sameLength Expr.matchItems Expr.matchPattern
  Expr.items? Context.get?_insert Closure.get?_scope

variable {captured context : Bindings} {x y a f p : Expr} {xs ys items before rest : List Expr}
  {streams middle after : Streams} {cause : Cause} {outcome : Outcome Expr}

def reverseClauses : List (Clause Expr) :=
  [⟨some "reverse", [.list [], .name "acc"], .bool true, .name "acc"⟩,
    ⟨some "reverse", [.cons [.name "x"] (.name "xs"), .name "acc"], .bool true,
      .call "reverse" [.name "xs", .cons [.name "x"] (.name "acc")]⟩,
    ⟨some "reverse", [.name "xs"], .bool true, .call "reverse" [.name "xs", .list []]⟩]

def reverse (captured : Bindings) : Expr :=
  .closure ⟨some "reverse", reverseClauses, captured⟩

theorem provides_reverse : Provides "reverse" reverseClauses [] :=
  provides_of_spelt (by repeat constructor) (by rfl) nofun (by decide) (by decide)

theorem reverse_step
    (h : Returns (reverse captured) [.list xs, .list (x :: items)] streams outcome) :
    Returns (reverse captured) [.list (x :: xs), .list items] streams outcome := by
  have hmatch : Expr.matchParameters [.cons [.name "x"] (.name "xs"), .name "acc"]
      [.list (x :: xs), .list items] = .ok (some (((Context.empty.insert "x" x).insert "xs"
        (.list xs)).insert "acc" (.list items))) := by
    simp
  apply Returns.of_dispatches
  apply Dispatches.skip (by simp)
  apply Dispatches.take hmatch
  rw [← call_ends_iff_endsInTail]
  exact h.call (by simp [reverse]) rfl rfl (by simp)

/-- The items come in front of what is there already, the last one first. -/
theorem reverse_onto (captured : Bindings) (xs items : List Expr) (streams : Streams) :
    Returns (reverse captured) [.list xs, .list items] streams
      (.value (.list (xs.reverse ++ items)) streams) := by
  induction xs generalizing items with
  | nil =>
    have hmatch : Expr.matchParameters [.list [], .name "acc"] [.list [], .list items] =
        .ok (some (Context.empty.insert "acc" (.list items))) := by
      simp
    apply Returns.of_dispatches
    apply Dispatches.take hmatch
    exact Evaluates.endsInTail (by simp) rfl
  | cons x xs ih =>
    rw [List.reverse_cons, List.append_assoc]
    exact reverse_step (ih (x :: items))

theorem reverse_returns (captured : Bindings) (xs : List Expr) (streams : Streams) :
    Returns (reverse captured) [.list xs] streams (.value (.list xs.reverse) streams) := by
  have hmatch : Expr.matchParameters [.name "xs"] [.list xs] =
      .ok (some (Context.empty.insert "xs" (.list xs))) := by
    simp
  have honto := reverse_onto captured xs [] streams
  rw [List.append_nil] at honto
  apply Returns.of_dispatches
  apply Dispatches.skip (by simp)
  apply Dispatches.skip (by simp)
  apply Dispatches.take hmatch
  rw [← call_ends_iff_endsInTail]
  exact honto.call (by simp [reverse]) rfl rfl (by simp)

/-- A call of `reverse` wherever it is bound as in the library. -/
theorem ends_reverse {e : Expr} (hbound : context.get? "reverse" = startup.get? "reverse")
    (he : Evaluates e context streams (.value (.list xs) after)) :
    Ends (.call "reverse" [e]) context streams (.value (.list xs.reverse) after) := by
  obtain ⟨captured, hget, -⟩ := provides_reverse
  rw [← hbound] at hget
  exact (reverse_returns captured xs after).call hget rfl rfl (by simpa using he)

/-! ### Accumulating functions

Some functions collect items in an accumulator, which a first clause puts in order in the end and
a last clause makes up at the start.
-/

/-- The clause `name([], _, acc) = reverse(acc)`. -/
def finishing (name : String) : Clause Expr :=
  ⟨some name, [.list [], .wildcard, .name "acc"], .bool true, .call "reverse" [.name "acc"]⟩

theorem returns_of_finishing {name : String} (hname : name ≠ "reverse")
    (hreverse : captured.get? "reverse" = startup.get? "reverse") (clauses : List (Clause Expr))
    (f : Expr) (items : List Expr) (streams : Streams) :
    Returns (.closure ⟨some name, finishing name :: clauses, captured⟩) [.list [], f, .list items]
      streams (.value (.list items.reverse) streams) := by
  have hmatch : Expr.matchParameters [.list [], .wildcard, .name "acc"]
      [.list [], f, .list items] = .ok (some (Context.empty.insert "acc" (.list items))) := by
    simp
  apply Returns.of_dispatches
  apply Dispatches.take hmatch
  rw [← call_ends_iff_endsInTail]
  apply ends_reverse
  · simpa [hname] using hreverse
  · simp

/-- The clause `name(a, b) = name(a, b, [])`. -/
def starting (name a b : String) : Clause Expr :=
  ⟨some name, [.name a, .name b], .bool true, .call name [.name a, .name b, .list []]⟩

/-- Clauses for another number of parameters are passed over. -/
theorem dispatches_of_skipped {closure : Closure Expr} {values : List Expr}
    {skipped clauses : List (Clause Expr)}
    (hskipped : ∀ clause ∈ skipped, clause.arity ≠ values.length)
    (h : Dispatches closure values clauses streams outcome) :
    Dispatches closure values (skipped ++ clauses) streams outcome := by
  induction skipped with
  | nil => exact h
  | cons clause rest ih =>
    obtain ⟨hclause, hrest⟩ := List.forall_mem_cons.1 hskipped
    have hm : Expr.matchParameters clause.patterns values = .ok none := by
      rw [Expr.matchParameters, if_neg (mt sameLength_iff.1 hclause)]
    exact Dispatches.skip hm (ih hrest)

theorem returns_of_starting {name a b : String} {others : List (Clause Expr)} {v w : Expr}
    (hnames : [a, b, name].Nodup) (hothers : ∀ clause ∈ others, clause.arity = 3)
    (hne : others ≠ [])
    (h : Returns (.closure ⟨some name, others ++ [starting name a b], captured⟩)
      [v, w, .list []] streams outcome) :
    Returns (.closure ⟨some name, others ++ [starting name a b], captured⟩) [v, w] streams
      outcome := by
  obtain ⟨⟨hab, ha⟩, hb⟩ : (a ≠ b ∧ a ≠ name) ∧ b ≠ name := by simpa using hnames
  have hmatch : Expr.matchParameters [.name a, .name b] [v, w] =
      .ok (some ((Context.empty.insert a v).insert b w)) := by
    simp [hab]
  have hskipped : ∀ clause ∈ others, clause.arity ≠ [v, w].length := by
    intro clause hclause
    simp [hothers clause hclause]
  obtain ⟨clause, hclause⟩ := List.exists_mem_of_ne_nil others hne
  have htakes : Expr.takes (.closure ⟨some name, others ++ [starting name a b], captured⟩) 3 =
      true :=
    List.any_eq_true.2 ⟨clause, List.mem_append_left _ hclause, by simp [hothers clause hclause]⟩
  apply Returns.of_dispatches
  apply dispatches_of_skipped hskipped
  apply Dispatches.take hmatch
  rw [← call_ends_iff_endsInTail]
  exact h.call (by simp [ha, hb]) htakes rfl (by simp [Ne.symm hab])

/-- Calling the function on one item after the other gives these values. -/
inductive CallsEach (f : Expr) : List Expr → Streams → List Expr → Streams → Prop
  | nil (streams : Streams) : CallsEach f [] streams [] streams
  | cons {x y : Expr} {xs ys : List Expr} {streams middle after : Streams}
    (h : Returns f [x] streams (.value y middle)) (hrest : CallsEach f xs middle ys after) :
    CallsEach f (x :: xs) streams (y :: ys) after

/-- Calling the function on a value and each item in turn, where the value is what the call before
gave, leads from the first value to the last. -/
inductive Folds (f : Expr) : Expr → List Expr → Streams → Expr → Streams → Prop
  | nil (a : Expr) (streams : Streams) : Folds f a [] streams a streams
  | cons {a b c x : Expr} {xs : List Expr} {streams middle after : Streams}
    (h : Returns f [a, x] streams (.value b middle)) (hrest : Folds f b xs middle c after) :
    Folds f a (x :: xs) streams c after

def mapClauses : List (Clause Expr) :=
  [finishing "map",
    ⟨some "map", [.cons [.name "x"] (.name "xs"), .name "f", .name "acc"], .bool true,
      .call "map" [.name "xs", .name "f", .cons [.call "f" [.name "x"]] (.name "acc")]⟩] ++
    [starting "map" "xs" "f"]

def map (captured : Bindings) : Expr :=
  .closure ⟨some "map", mapClauses, captured⟩

theorem provides_map : Provides "map" mapClauses ["reverse"] :=
  provides_of_spelt (by repeat constructor) (by rfl) nofun (by decide) (by decide)

abbrev mapScope (captured : Bindings) (x : Expr) (xs : List Expr) (f : Expr) (items : List Expr) :
    Bindings :=
  Closure.scope ⟨some "map", mapClauses, captured⟩ "map" ((((Context.empty.insert "x" x).insert "xs"
    (.list xs)).insert "f" f).insert "acc" (.list items))

/-- A list with a first item is taken by the clause that calls itself. -/
theorem map_of_ends (h : Ends (.call "map" [.name "xs", .name "f",
      .cons [.call "f" [.name "x"]] (.name "acc")]) (mapScope captured x xs f items) streams
      outcome) : Returns (map captured) [.list (x :: xs), f, .list items] streams outcome := by
  have hmatch : Expr.matchParameters [.cons [.name "x"] (.name "xs"), .name "f", .name "acc"]
      [.list (x :: xs), f, .list items] = .ok (some ((((Context.empty.insert "x" x).insert "xs"
        (.list xs)).insert "f" f).insert "acc" (.list items))) := by
    simp
  apply Returns.of_dispatches
  apply Dispatches.skip (by simp)
  apply Dispatches.take hmatch
  rw [← call_ends_iff_endsInTail]
  exact h

theorem map_item (hf : f.takes 1 = true) (h : Returns f [x] streams outcome) :
    Ends (.call "f" [.name "x"]) (mapScope captured x xs f items) streams outcome :=
  h.call_of_hasValue (by simp) hf (by simp [HasValue])

/-- The value of the first item is put in front of those before it. -/
theorem map_step (hf : f.takes 1 = true) (hx : Returns f [x] streams (.value y middle))
    (h : Returns (map captured) [.list xs, f, .list (y :: items)] middle outcome) :
    Returns (map captured) [.list (x :: xs), f, .list items] streams outcome := by
  have hitem : Evaluates (.call "f" [.name "x"]) (mapScope captured x xs f items) streams
      (.value y middle) := ends_value_iff.1 (map_item hf hx)
  have hargs : EvaluatesAll (mapScope captured x xs f items)
      [.name "xs", .name "f", .cons [.call "f" [.name "x"]] (.name "acc")] streams
      [.list xs, f, .list (y :: items)] middle := by
    simp [hitem]
  apply map_of_ends
  exact h.call (by simp [map]) rfl rfl hargs

theorem map_step_fails (hf : f.takes 1 = true) (hx : Returns f [x] streams (.fail cause after)) :
    Returns (map captured) [.list (x :: xs), f, .list items] streams (.fail cause after) := by
  have hbefore : EvaluatesAll (mapScope captured x xs f items) [.name "xs", .name "f"] streams
      [.list xs, f] streams := by
    simp
  have hget : (mapScope captured x xs f items).get? "map" = some (map captured) := by simp [map]
  have hfails : Ends (.cons [.call "f" [.name "x"]] (.name "acc")) (mapScope captured x xs f items)
      streams (.fail cause after) := ends_cons_of_fails (.nil streams) (map_item hf hx)
  apply map_of_ends
  exact ends_call_of_fails hget rfl rfl hbefore hfails

theorem map_run (hf : f.takes 1 = true) (h : CallsEach f before streams ys middle)
    (hrest : Returns (map captured) [.list rest, f, .list (ys.reverse ++ items)] middle outcome) :
    Returns (map captured) [.list (before ++ rest), f, .list items] streams outcome := by
  -- The accumulator holds the values so far, the last one first.
  induction h generalizing items with
  | nil => exact hrest
  | cons hx _ ih =>
    rw [List.reverse_cons, List.append_assoc] at hrest
    exact map_step hf hx (ih hrest)

theorem map_start (h : Returns (map captured) [.list xs, f, .list []] streams outcome) :
    Returns (map captured) [.list xs, f] streams outcome :=
  returns_of_starting (by decide) (by simp [finishing, Clause.arity]) (List.cons_ne_nil _ _) h

theorem map_returns (hreverse : captured.get? "reverse" = startup.get? "reverse")
    (hf : f.takes 1 = true) (h : CallsEach f xs streams ys after) :
    Returns (map captured) [.list xs, f] streams (.value (.list ys) after) := by
  have hend : Returns (map captured) [.list [], f, .list ys.reverse] after
      (.value (.list ys.reverse.reverse) after) :=
    returns_of_finishing (by decide) hreverse _ f ys.reverse after
  have hrun : Returns (map captured) [.list (xs ++ []), f, .list []] streams
      (.value (.list ys) after) := map_run hf h (by simpa using hend)
  rw [List.append_nil] at hrun
  exact map_start hrun

theorem map_fails (hf : f.takes 1 = true) (h : CallsEach f before streams ys middle)
    (hx : Returns f [x] middle (.fail cause after)) :
    Returns (map captured) [.list (before ++ x :: rest), f] streams (.fail cause after) :=
  map_start (map_run hf h (map_step_fails hf hx))

def filterClauses : List (Clause Expr) :=
  [finishing "filter",
    ⟨some "filter", [.cons [.name "x"] (.name "xs"), .name "p", .name "acc"],
      .call "p" [.name "x"],
      .call "filter" [.name "xs", .name "p", .cons [.name "x"] (.name "acc")]⟩,
    ⟨some "filter", [.cons [.wildcard] (.name "xs"), .name "p", .name "acc"], .bool true,
      .call "filter" [.name "xs", .name "p", .name "acc"]⟩] ++
    [starting "filter" "xs" "p"]

def filter (captured : Bindings) : Expr :=
  .closure ⟨some "filter", filterClauses, captured⟩

theorem provides_filter : Provides "filter" filterClauses ["reverse"] :=
  provides_of_spelt (by repeat constructor) (by rfl) nofun (by decide) (by decide)

abbrev filterScope (captured : Bindings) (x : Expr) (xs : List Expr) (p : Expr)
    (items : List Expr) : Bindings :=
  Closure.scope ⟨some "filter", filterClauses, captured⟩ "filter" ((((Context.empty.insert "x"
    x).insert "xs" (.list xs)).insert "p" p).insert "acc" (.list items))

theorem filter_item (hp : p.takes 1 = true) (h : Returns p [x] streams outcome) :
    Ends (.call "p" [.name "x"]) (filterScope captured x xs p items) streams outcome :=
  h.call_of_hasValue (by simp) hp (by simp [HasValue])

theorem filter_matches (x : Expr) (xs : List Expr) (p : Expr) (items : List Expr) :
    Expr.matchParameters [.cons [.name "x"] (.name "xs"), .name "p", .name "acc"]
      [.list (x :: xs), p, .list items] = .ok (some ((((Context.empty.insert "x" x).insert "xs"
        (.list xs)).insert "p" p).insert "acc" (.list items))) := by
  simp

/-- The first item is kept if the predicate holds of it. -/
theorem filter_step {holds : Bool} (hp : p.takes 1 = true)
    (hx : Returns p [x] streams (.value (.bool holds) middle))
    (h : Returns (filter captured) [.list xs, p, .list (if holds then x :: items else items)] middle
      outcome) : Returns (filter captured) [.list (x :: xs), p, .list items] streams outcome := by
  have hguard : Evaluates (.call "p" [.name "x"]) (filterScope captured x xs p items) streams
      (.value (.bool holds) middle) := ends_value_iff.1 (filter_item hp hx)
  apply Returns.of_dispatches
  apply Dispatches.skip (by simp)
  cases holds with
  | true =>
    apply Dispatches.take_if (filter_matches x xs p items) hguard
    rw [← call_ends_iff_endsInTail]
    exact h.call (by simp [filter]) rfl rfl (by simp)
  | false =>
    have hmatch : Expr.matchParameters [.cons [.wildcard] (.name "xs"), .name "p", .name "acc"]
        [.list (x :: xs), p, .list items] = .ok (some (((Context.empty.insert "xs"
          (.list xs)).insert "p" p).insert "acc" (.list items))) := by
      simp
    apply Dispatches.reject (filter_matches x xs p items) hguard
    apply Dispatches.take hmatch
    rw [← call_ends_iff_endsInTail]
    exact h.call (by simp [filter]) rfl rfl (by simp)

theorem filter_step_fails (hp : p.takes 1 = true) (hx : Returns p [x] streams (.fail cause after)) :
    Returns (filter captured) [.list (x :: xs), p, .list items] streams (.fail cause after) := by
  apply Returns.of_dispatches
  apply Dispatches.skip (by simp)
  exact Dispatches.fail (filter_matches x xs p items) (filter_item hp hx)

def kept (items : List Expr) (truths : List Bool) : List Expr :=
  ((items.zip truths).filter Prod.snd).map Prod.fst

theorem kept_cons (x : Expr) (xs : List Expr) (holds : Bool) (truths : List Bool) :
    kept (x :: xs) (holds :: truths) = if holds then x :: kept xs truths else kept xs truths := by
  cases holds <;> rfl

theorem filter_run {truths : List Bool} (hp : p.takes 1 = true)
    (h : CallsEach p before streams (truths.map .bool) middle)
    (hrest : Returns (filter captured)
      [.list rest, p, .list ((kept before truths).reverse ++ items)] middle outcome) :
    Returns (filter captured) [.list (before ++ rest), p, .list items] streams outcome := by
  generalize hys : truths.map Expr.bool = ys at h
  induction h generalizing truths items with
  | nil =>
    rw [List.map_eq_nil_iff.1 hys] at hrest
    exact hrest
  | cons hx _ ih =>
    obtain ⟨holds, truths, rfl, rfl, rfl⟩ := List.map_eq_cons_iff.1 hys
    rw [kept_cons] at hrest
    apply filter_step hp hx
    refine ih ?_ rfl
    cases holds <;> simpa using hrest

theorem filter_start (h : Returns (filter captured) [.list xs, p, .list []] streams outcome) :
    Returns (filter captured) [.list xs, p] streams outcome :=
  returns_of_starting (by decide) (by simp [finishing, Clause.arity]) (List.cons_ne_nil _ _) h

theorem filter_returns {truths : List Bool}
    (hreverse : captured.get? "reverse" = startup.get? "reverse") (hp : p.takes 1 = true)
    (h : CallsEach p xs streams (truths.map .bool) after) :
    Returns (filter captured) [.list xs, p] streams (.value (.list (kept xs truths)) after) := by
  have hend : Returns (filter captured) [.list [], p, .list (kept xs truths).reverse] after
      (.value (.list (kept xs truths).reverse.reverse) after) :=
    returns_of_finishing (by decide) hreverse _ p (kept xs truths).reverse after
  have hrun : Returns (filter captured) [.list (xs ++ []), p, .list []] streams
      (.value (.list (kept xs truths)) after) := filter_run hp h (by simpa using hend)
  rw [List.append_nil] at hrun
  exact filter_start hrun

theorem filter_fails {truths : List Bool} (hp : p.takes 1 = true)
    (h : CallsEach p before streams (truths.map .bool) middle)
    (hx : Returns p [x] middle (.fail cause after)) :
    Returns (filter captured) [.list (before ++ x :: rest), p] streams (.fail cause after) :=
  filter_start (filter_run hp h (filter_step_fails hp hx))

def foldClauses : List (Clause Expr) :=
  [⟨some "fold", [.list [], .name "acc", .wildcard], .bool true, .name "acc"⟩,
    ⟨some "fold", [.cons [.name "x"] (.name "xs"), .name "acc", .name "f"], .bool true,
      .call "fold" [.name "xs", .call "f" [.name "acc", .name "x"], .name "f"]⟩]

def fold (captured : Bindings) : Expr :=
  .closure ⟨some "fold", foldClauses, captured⟩

theorem provides_fold : Provides "fold" foldClauses [] :=
  provides_of_spelt (by repeat constructor) (by rfl) nofun (by decide) (by decide)

abbrev foldScope (captured : Bindings) (x : Expr) (xs : List Expr) (a f : Expr) : Bindings :=
  Closure.scope ⟨some "fold", foldClauses, captured⟩ "fold" ((((Context.empty.insert "x"
    x).insert "xs" (.list xs)).insert "acc" a).insert "f" f)

theorem fold_of_ends (h : Ends (.call "fold" [.name "xs", .call "f" [.name "acc", .name "x"],
      .name "f"]) (foldScope captured x xs a f) streams outcome) :
    Returns (fold captured) [.list (x :: xs), a, f] streams outcome := by
  have hmatch : Expr.matchParameters [.cons [.name "x"] (.name "xs"), .name "acc", .name "f"]
      [.list (x :: xs), a, f] = .ok (some ((((Context.empty.insert "x" x).insert "xs"
        (.list xs)).insert "acc" a).insert "f" f)) := by
    simp
  apply Returns.of_dispatches
  apply Dispatches.skip (by simp)
  apply Dispatches.take hmatch
  rw [← call_ends_iff_endsInTail]
  exact h

theorem fold_item (hf : f.takes 2 = true) (h : Returns f [a, x] streams outcome) :
    Ends (.call "f" [.name "acc", .name "x"]) (foldScope captured x xs a f) streams outcome :=
  h.call_of_hasValue (by simp) hf (by simp [HasValue])

theorem fold_step {b : Expr} (hf : f.takes 2 = true)
    (hx : Returns f [a, x] streams (.value b middle))
    (h : Returns (fold captured) [.list xs, b, f] middle outcome) :
    Returns (fold captured) [.list (x :: xs), a, f] streams outcome := by
  have hitem : Evaluates (.call "f" [.name "acc", .name "x"]) (foldScope captured x xs a f) streams
      (.value b middle) := ends_value_iff.1 (fold_item hf hx)
  have hargs : EvaluatesAll (foldScope captured x xs a f)
      [.name "xs", .call "f" [.name "acc", .name "x"], .name "f"] streams [.list xs, b, f]
      middle := by
    simp [hitem]
  apply fold_of_ends
  exact h.call (by simp [fold]) rfl rfl hargs

theorem fold_step_fails (hf : f.takes 2 = true)
    (hx : Returns f [a, x] streams (.fail cause after)) :
    Returns (fold captured) [.list (x :: xs), a, f] streams (.fail cause after) := by
  have hbefore : EvaluatesAll (foldScope captured x xs a f) [.name "xs"] streams [.list xs]
      streams := by
    simp
  have hget : (foldScope captured x xs a f).get? "fold" = some (fold captured) := by simp [fold]
  apply fold_of_ends
  exact ends_call_of_fails hget rfl rfl hbefore (fold_item hf hx)

theorem fold_run {b : Expr} (hf : f.takes 2 = true) (h : Folds f a before streams b middle)
    (hrest : Returns (fold captured) [.list rest, b, f] middle outcome) :
    Returns (fold captured) [.list (before ++ rest), a, f] streams outcome := by
  induction h with
  | nil => exact hrest
  | cons hx _ ih => exact fold_step hf hx (ih hrest)

theorem Folds.isDeferred {b : Expr} (h : Folds f a xs streams b after)
    (ha : a.isDeferred = false) : b.isDeferred = false := by
  induction h with
  | nil => exact ha
  | cons hx _ ih => exact ih hx.isDeferred

theorem fold_returns {b : Expr} (hf : f.takes 2 = true) (ha : a.isDeferred = false)
    (h : Folds f a xs streams b after) :
    Returns (fold captured) [.list xs, a, f] streams (.value b after) := by
  have hmatch : Expr.matchParameters [.list [], .name "acc", .wildcard] [.list [], b, f] =
      .ok (some (Context.empty.insert "acc" b)) := by
    simp
  have hend : Returns (fold captured) [.list [], b, f] after (.value b after) := by
    apply Returns.of_dispatches
    apply Dispatches.take hmatch
    exact Evaluates.endsInTail (by simp) (h.isDeferred ha)
  have hrun := fold_run hf h hend
  rwa [List.append_nil] at hrun

theorem fold_fails {b : Expr} (hf : f.takes 2 = true) (h : Folds f a before streams b middle)
    (hx : Returns f [b, x] middle (.fail cause after)) :
    Returns (fold captured) [.list (before ++ x :: rest), a, f] streams (.fail cause after) :=
  fold_run hf h (fold_step_fails hf hx)

/-- Wherever the names are bound as in the library, mapping, filtering and folding call the function
once for each item and in order. If the calls give values, these are the items of the mapped list,
decide which items are kept, or lead to the result of the fold, and the streams are as the last call
leaves them. If a call fails, the whole call fails for the same cause, with the streams as they are
then. -/
theorem map_filter_fold_ends
    (hbinds : ∀ name ∈ ["map", "filter", "fold"], context.get? name = startup.get? name)
    {args : List Expr} {start streams : Streams} {f : Expr} {xs : List Expr} :
    (f.takes 1 = true → EvaluatesAll context args start [.list xs, f] streams →
      (∀ ys after, CallsEach f xs streams ys after →
        Ends (.call "map" args) context start (.value (.list ys) after)) ∧
      (∀ before x rest ys middle cause after, xs = before ++ x :: rest →
        CallsEach f before streams ys middle → Returns f [x] middle (.fail cause after) →
        Ends (.call "map" args) context start (.fail cause after)) ∧
      (∀ (truths : List Bool) after, CallsEach f xs streams (truths.map .bool) after →
        Ends (.call "filter" args) context start (.value (.list (kept xs truths)) after)) ∧
      (∀ before x rest (truths : List Bool) middle cause after, xs = before ++ x :: rest →
        CallsEach f before streams (truths.map .bool) middle →
        Returns f [x] middle (.fail cause after) →
        Ends (.call "filter" args) context start (.fail cause after))) ∧
    ∀ a : Expr, a.isDeferred = false → f.takes 2 = true →
      EvaluatesAll context args start [.list xs, a, f] streams →
      (∀ b after, Folds f a xs streams b after →
        Ends (.call "fold" args) context start (.value b after)) ∧
      (∀ before x rest b middle cause after, xs = before ++ x :: rest →
        Folds f a before streams b middle → Returns f [b, x] middle (.fail cause after) →
        Ends (.call "fold" args) context start (.fail cause after)) := by
  obtain ⟨mapped, hmap, hmapped⟩ := provides_map
  obtain ⟨filtered, hfilter, hfiltered⟩ := provides_filter
  obtain ⟨folded, hfold, -⟩ := provides_fold
  rw [← hbinds "map" (by decide)] at hmap
  rw [← hbinds "filter" (by decide)] at hfilter
  rw [← hbinds "fold" (by decide)] at hfold
  replace hmapped := hmapped "reverse" (List.mem_singleton_self _)
  replace hfiltered := hfiltered "reverse" (List.mem_singleton_self _)
  constructor
  · intro hf hargs
    refine ⟨?_, ?_, ?_, ?_⟩
    · intro ys after h
      exact (map_returns hmapped hf h).call hmap rfl rfl hargs
    · rintro before x rest ys middle cause after rfl h hx
      exact (map_fails hf h hx).call hmap rfl rfl hargs
    · intro truths after h
      exact (filter_returns hfiltered hf h).call hfilter rfl rfl hargs
    · rintro before x rest truths middle cause after rfl h hx
      exact (filter_fails hf h hx).call hfilter rfl rfl hargs
  · intro a ha hf hargs
    constructor
    · intro b after h
      exact (fold_returns hf ha h).call hfold rfl rfl hargs
    · rintro before x rest b middle cause after rfl h hx
      exact (fold_fails hf h hx).call hfold rfl rfl hargs

/-- Mapping reads a line for each prompt, up to one that is no text. -/
theorem map_filter_fold_ends_startup :
    Ends (.call "map" [.list [.string "a", .string "b"], .builtIn .readLine]) startup
      ⟨[.text "x", .text "y"], "", ""⟩
      (.value (.list [.string "x", .string "y"]) ⟨[], "ab", ""⟩) ∧
    Ends (.call "map" [.list [.string "a", .string "b"], .builtIn .readLine]) startup
      ⟨[.text "x", .undecodable], "", ""⟩
      (.fail (.inputOutput Streams.undecodableReason) ⟨[], "ab", ""⟩) ∧
    Ends (.call "filter" [.list [.bool true, .bool false], .builtIn (.operator .not)]) startup
      ⟨[], "", ""⟩ (.value (.list [.bool false]) ⟨[], "", ""⟩) ∧
    Ends (.call "fold" [.list [.int 1, .int 2], .int 10, .builtIn (.operator .minus)]) startup
      ⟨[], "", ""⟩ (.value (.int 7) ⟨[], "", ""⟩) := by
  have hbinds : ∀ name ∈ ["map", "filter", "fold"], startup.get? name = startup.get? name :=
    fun _ _ => rfl
  have hargs {items : List Expr} (b : BuiltIn) (streams : Streams)
      (h : ∀ v ∈ items, v.IsValue fun _ => True) :
      EvaluatesAll startup [.list items, .builtIn b] streams [.list items, .builtIn b] streams :=
    .cons (Expr.IsValue.list h).evaluates
      (.cons (Expr.IsValue.builtIn (C := fun _ => True) b).evaluates (.nil _))
  have hprompts := fun streams => hargs .readLine streams
    (List.forall_mem_cons.2 ⟨Expr.isValue_text ['a'],
      List.forall_mem_singleton.2 (Expr.isValue_text ['b'])⟩)
  have hfirst (rest : List InputLine) : Returns (.builtIn .readLine) [.string "a"]
      ⟨.text "x" :: rest, "", ""⟩ (.value (.string "x") ⟨rest, "a", ""⟩) :=
    .of_meaning rfl rfl rfl rfl
  have hsecond : Returns (.builtIn .readLine) [.string "b"] ⟨[.text "y"], "a", ""⟩
      (.value (.string "y") ⟨[], "ab", ""⟩) := .of_meaning rfl rfl rfl rfl
  have hfails : Returns (.builtIn .readLine) [.string "b"] ⟨[.undecodable], "a", ""⟩
      (.fail (.inputOutput Streams.undecodableReason) ⟨[], "ab", ""⟩) :=
    .of_meaning_failure rfl rfl rfl
  have hnot (holds : Bool) : Returns (.builtIn (.operator .not)) [.bool holds] ⟨[], "", ""⟩
      (.value (.bool !holds) ⟨[], "", ""⟩) := .of_meaning rfl rfl rfl rfl
  have hminus : Folds (.builtIn (.operator .minus)) (.int 10) [.int 1, .int 2] ⟨[], "", ""⟩
      (.int 7) ⟨[], "", ""⟩ :=
    .cons (b := .int 9) (.of_meaning rfl rfl rfl rfl)
      (.cons (.of_meaning rfl rfl rfl rfl) (.nil _ _))
  refine ⟨?_, ?_, ?_, ?_⟩
  · obtain ⟨hmap, -⟩ := (map_filter_fold_ends hbinds).1 rfl (hprompts _)
    exact hmap _ _ (.cons (hfirst _) (.cons hsecond (.nil _)))
  · obtain ⟨-, hmap, -⟩ := (map_filter_fold_ends hbinds).1 rfl (hprompts _)
    exact hmap [.string "a"] _ [] _ _ _ _ rfl (.cons (hfirst _) (.nil _)) hfails
  · have hvalues : ∀ v ∈ [Expr.bool true, .bool false], v.IsValue fun _ => True := by
      simp [Expr.IsValue.bool]
    have hbools := hargs (.operator .not) ⟨[], "", ""⟩ hvalues
    obtain ⟨-, -, hfilter, -⟩ := (map_filter_fold_ends hbinds).1 rfl hbools
    exact hfilter [false, true] _ (.cons (hnot true) (.cons (hnot false) (.nil _)))
  · have hnumbers : EvaluatesAll startup [.list [.int 1, .int 2], .int 10,
        .builtIn (.operator .minus)] ⟨[], "", ""⟩ [.list [.int 1, .int 2], .int 10,
        .builtIn (.operator .minus)] ⟨[], "", ""⟩ :=
      .cons ⟨nofun, 1, rfl⟩ (.cons (.atom rfl) (.cons ⟨nofun, 1, rfl⟩ (.nil _)))
    obtain ⟨hfold, -⟩ := (map_filter_fold_ends hbinds).2 _ rfl rfl hnumbers
    exact hfold _ _ hminus

end Song.Library
