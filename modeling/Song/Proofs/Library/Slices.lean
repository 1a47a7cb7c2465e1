import Song.Proofs.Library.Lists
import Song.Proofs.Library.Operators

/-!
# Ranges and slices of lists

Counting from one integer up to another, the first items of a list and the items after them. Each
function counts within the range of integers, so none of its sums or differences overflows.
-/
namespace Song.Library

open Number

attribute [local simp] Expr.matchParameters sameLength Expr.matchItems Expr.matchPattern
  Expr.items? matchPattern_int Context.get?_insert Closure.get?_scope Operator.symbol

variable {captured context : Bindings} {n m a b c : Int64} {x : Expr} {xs items args : List Expr}
  {streams middle after : Streams} {outcome : Outcome Expr}

def takeClauses : List (Clause Expr) :=
  [⟨some "take", [.int 0, .wildcard, .name "acc"], .bool true, .call "reverse" [.name "acc"]⟩,
    ⟨some "take", [.wildcard, .list [], .name "acc"], .bool true,
      .call "reverse" [.name "acc"]⟩,
    ⟨some "take", [.name "n", .cons [.name "x"] (.name "xs"), .name "acc"], .bool true,
      .call "take" [.call "-" [.name "n", .int 1], .name "xs",
        .cons [.name "x"] (.name "acc")]⟩] ++
    [starting "take" "n" "xs"]

def take (captured : Bindings) : Expr :=
  .closure ⟨some "take", takeClauses, captured⟩

theorem provides_take : Provides "take" takeClauses ["reverse", "-"] :=
  provides_of_spelt (by repeat constructor) (by rfl) nofun (by decide) (by decide)

/-- What is collected is put in order when nothing more is wanted or nothing more is there. -/
theorem take_done (hreverse : captured.get? "reverse" = startup.get? "reverse")
    (h : n = 0 ∨ xs = []) (items : List Expr) (streams : Streams) :
    Returns (take captured) [.int n, .list xs, .list items] streams
      (.value (.list items.reverse) streams) := by
  apply Returns.of_dispatches
  by_cases hn : n = 0
  · subst hn
    have hmatch : Expr.matchParameters [.int 0, .wildcard, .name "acc"]
        [.int 0, .list xs, .list items] =
        .ok (some (Context.empty.insert "acc" (.list items))) := by
      simp
    apply Dispatches.take hmatch
    rw [← call_ends_iff_endsInTail]
    apply ends_reverse
    · simpa using hreverse
    · simp
  · obtain rfl : xs = [] := h.resolve_left hn
    have hfirst : Expr.matchParameters [.int 0, .wildcard, .name "acc"]
        [.int n, .list [], .list items] = .ok none := by
      simp [Ne.symm hn]
    have hmatch : Expr.matchParameters [.wildcard, .list [], .name "acc"]
        [.int n, .list [], .list items] =
        .ok (some (Context.empty.insert "acc" (.list items))) := by
      simp
    apply Dispatches.skip hfirst
    apply Dispatches.take hmatch
    rw [← call_ends_iff_endsInTail]
    apply ends_reverse
    · simpa using hreverse
    · simp

abbrev takeScope (captured : Bindings) (n : Int64) (x : Expr) (xs items : List Expr) : Bindings :=
  Closure.scope ⟨some "take", takeClauses, captured⟩ "take" ((((Context.empty.insert "n"
    (.int n)).insert "x" x).insert "xs" (.list xs)).insert "acc" (.list items))

theorem take_step (hminus : captured.get? "-" = startup.get? "-") (hn : n ≠ 0)
    (hm : m.toInt = n.toInt - 1)
    (h : Returns (take captured) [.int m, .list xs, .list (x :: items)] streams outcome) :
    Returns (take captured) [.int n, .list (x :: xs), .list items] streams outcome := by
  have hfirst : Expr.matchParameters [.int 0, .wildcard, .name "acc"]
      [.int n, .list (x :: xs), .list items] = .ok none := by
    simp [Ne.symm hn]
  have hmatch : Expr.matchParameters [.name "n", .cons [.name "x"] (.name "xs"), .name "acc"]
      [.int n, .list (x :: xs), .list items] = .ok (some ((((Context.empty.insert "n"
        (.int n)).insert "x" x).insert "xs" (.list xs)).insert "acc" (.list items))) := by
    simp
  have hcount : Evaluates (.call "-" [.name "n", .int 1]) (takeScope captured n x xs items) streams
      (.value (.int m) streams) :=
    evaluates_predecessor (by simpa using hminus) (by simp) hm
  apply Returns.of_dispatches
  apply Dispatches.skip hfirst
  apply Dispatches.skip (by simp)
  apply Dispatches.take hmatch
  rw [← call_ends_iff_endsInTail]
  exact h.call (by simp [take]) rfl rfl (by simp [hcount])

/-- The first items come after those collected before. -/
theorem take_onto (hreverse : captured.get? "reverse" = startup.get? "reverse")
    (hminus : captured.get? "-" = startup.get? "-") {count : Nat} (hn : n.toInt = count)
    (xs items : List Expr) (streams : Streams) :
    Returns (take captured) [.int n, .list xs, .list items] streams
      (.value (.list (items.reverse ++ xs.take count)) streams) := by
  induction xs generalizing n count items with
  | nil => simpa using take_done hreverse (Or.inr rfl) items streams
  | cons x xs ih =>
    cases count with
    | zero =>
      have hzero : n = 0 := (toInt_eq_zero_iff n).1 hn
      simpa using take_done hreverse (Or.inl hzero) items streams
    | succ count =>
      obtain ⟨hne, m, hm, hcount⟩ := exists_predecessor hn
      have hrest := take_step hminus hne hm (ih hcount (x :: items))
      simpa using hrest

theorem take_returns (hreverse : captured.get? "reverse" = startup.get? "reverse")
    (hminus : captured.get? "-" = startup.get? "-") {count : Nat} (hn : n.toInt = count)
    (xs : List Expr) (streams : Streams) :
    Returns (take captured) [.int n, .list xs] streams
      (.value (.list (xs.take count)) streams) := by
  have honto := take_onto hreverse hminus hn xs [] streams
  rw [List.reverse_nil, List.nil_append] at honto
  exact returns_of_starting (by decide) (by simp [Clause.arity]) (List.cons_ne_nil _ _) honto

def dropClauses : List (Clause Expr) :=
  [⟨some "drop", [.int 0, .name "xs"], .bool true, .name "xs"⟩,
    ⟨some "drop", [.wildcard, .list []], .bool true, .list []⟩,
    ⟨some "drop", [.name "n", .cons [.wildcard] (.name "xs")], .bool true,
      .call "drop" [.call "-" [.name "n", .int 1], .name "xs"]⟩]

def drop (captured : Bindings) : Expr :=
  .closure ⟨some "drop", dropClauses, captured⟩

theorem provides_drop : Provides "drop" dropClauses ["-"] :=
  provides_of_spelt (by repeat constructor) (by rfl) nofun (by decide) (by decide)

theorem drop_done (h : n = 0 ∨ xs = []) (streams : Streams) :
    Returns (drop captured) [.int n, .list xs] streams (.value (.list xs) streams) := by
  apply Returns.of_dispatches
  by_cases hn : n = 0
  · subst hn
    have hmatch : Expr.matchParameters [.int 0, .name "xs"] [.int 0, .list xs] =
        .ok (some (Context.empty.insert "xs" (.list xs))) := by
      simp
    apply Dispatches.take hmatch
    exact Evaluates.endsInTail (by simp) rfl
  · obtain rfl : xs = [] := h.resolve_left hn
    have hfirst : Expr.matchParameters [.int 0, .name "xs"] [.int n, .list []] = .ok none := by
      simp [Ne.symm hn]
    have hmatch : Expr.matchParameters [.wildcard, .list []] [.int n, .list []] =
        .ok (some Context.empty) := by
      simp
    apply Dispatches.skip hfirst
    apply Dispatches.take hmatch
    exact Evaluates.endsInTail (by simp) rfl

abbrev dropScope (captured : Bindings) (n : Int64) (xs : List Expr) : Bindings :=
  Closure.scope ⟨some "drop", dropClauses, captured⟩ "drop"
    ((Context.empty.insert "n" (.int n)).insert "xs" (.list xs))

theorem drop_step (hminus : captured.get? "-" = startup.get? "-") (hn : n ≠ 0)
    (hm : m.toInt = n.toInt - 1)
    (h : Returns (drop captured) [.int m, .list xs] streams outcome) :
    Returns (drop captured) [.int n, .list (x :: xs)] streams outcome := by
  have hfirst : Expr.matchParameters [.int 0, .name "xs"] [.int n, .list (x :: xs)] =
      .ok none := by
    simp [Ne.symm hn]
  have hmatch : Expr.matchParameters [.name "n", .cons [.wildcard] (.name "xs")]
      [.int n, .list (x :: xs)] =
      .ok (some ((Context.empty.insert "n" (.int n)).insert "xs" (.list xs))) := by
    simp
  have hcount : Evaluates (.call "-" [.name "n", .int 1]) (dropScope captured n xs) streams
      (.value (.int m) streams) :=
    evaluates_predecessor (by simpa using hminus) (by simp) hm
  apply Returns.of_dispatches
  apply Dispatches.skip hfirst
  apply Dispatches.skip (by simp)
  apply Dispatches.take hmatch
  rw [← call_ends_iff_endsInTail]
  exact h.call (by simp [drop]) rfl rfl (by simp [hcount])

theorem drop_returns (hminus : captured.get? "-" = startup.get? "-") {count : Nat}
    (hn : n.toInt = count) (xs : List Expr) (streams : Streams) :
    Returns (drop captured) [.int n, .list xs] streams
      (.value (.list (xs.drop count)) streams) := by
  induction xs generalizing n count with
  | nil => simpa using drop_done (Or.inr rfl) streams
  | cons x xs ih =>
    cases count with
    | zero => exact drop_done (Or.inl ((toInt_eq_zero_iff n).1 hn)) streams
    | succ count =>
      obtain ⟨hne, m, hm, hcount⟩ := exists_predecessor hn
      exact drop_step hminus hne hm (ih hcount)

def rangeClauses : List (Clause Expr) :=
  [⟨some "range", [.name "from", .name "to", .name "acc"],
      .call ">=" [.name "from", .name "to"], .call "reverse" [.name "acc"]⟩,
    ⟨some "range", [.name "from", .name "to", .name "acc"], .bool true,
      .call "range" [.call "+" [.name "from", .int 1], .name "to",
        .cons [.name "from"] (.name "acc")]⟩] ++
    [starting "range" "from" "to"]

def range (captured : Bindings) : Expr :=
  .closure ⟨some "range", rangeClauses, captured⟩

theorem provides_range : Provides "range" rangeClauses ["reverse", ">=", "+"] :=
  provides_of_spelt (by repeat constructor) (by rfl) nofun (by decide) (by decide)

abbrev rangeScope (captured : Bindings) (a b : Int64) (items : List Expr) : Bindings :=
  Closure.scope ⟨some "range", rangeClauses, captured⟩ "range" (((Context.empty.insert "from"
    (.int a)).insert "to" (.int b)).insert "acc" (.list items))

theorem range_operands (captured : Bindings) (a b : Int64) (items : List Expr)
    (streams : Streams) :
    EvaluatesAll (rangeScope captured a b items) [.name "from", .name "to"] streams
      [.int a, .int b] streams := by
  simp

theorem range_guard (horder : captured.get? ">=" = startup.get? ">=") {holds : Bool}
    (hholds : decide (b.toInt ≤ a.toInt) = holds) (items : List Expr) (streams : Streams) :
    Evaluates (.call ">=" [.name "from", .name "to"]) (rangeScope captured a b items) streams
      (.value (.bool holds) streams) := by
  subst hholds
  exact evaluates_comparison (o := .greaterOrEqual) rfl (by simpa using horder)
    (range_operands captured a b items streams)

theorem range_matches (a b : Int64) (items : List Expr) :
    Expr.matchParameters [.name "from", .name "to", .name "acc"] [.int a, .int b, .list items] =
      .ok (some (((Context.empty.insert "from" (.int a)).insert "to" (.int b)).insert "acc"
        (.list items))) := by
  simp

theorem range_done (hreverse : captured.get? "reverse" = startup.get? "reverse")
    (horder : captured.get? ">=" = startup.get? ">=") (h : b.toInt ≤ a.toInt) (items : List Expr)
    (streams : Streams) :
    Returns (range captured) [.int a, .int b, .list items] streams
      (.value (.list items.reverse) streams) := by
  have hguard := range_guard horder (decide_eq_true h) items streams
  apply Returns.of_dispatches
  apply Dispatches.take_if (range_matches a b items) hguard
  rw [← call_ends_iff_endsInTail]
  apply ends_reverse
  · simpa using hreverse
  · simp

theorem range_step (horder : captured.get? ">=" = startup.get? ">=")
    (hplus : captured.get? "+" = startup.get? "+") (h : a.toInt < b.toInt)
    (hc : c.toInt = a.toInt + 1)
    (hrest : Returns (range captured) [.int c, .int b, .list (.int a :: items)] streams outcome) :
    Returns (range captured) [.int a, .int b, .list items] streams outcome := by
  have hguard := range_guard horder (decide_eq_false (Int.not_le.2 h)) items streams
  have hoperands : EvaluatesAll (rangeScope captured a b items) [.name "from", .int 1] streams
      [.int a, .int 1] streams := by
    simp
  have hnext : Evaluates (.call "+" [.name "from", .int 1]) (rangeScope captured a b items) streams
      (.value (.int c) streams) :=
    evaluates_exact (o := .plus) rfl (by simpa using hplus) hoperands hc
  apply Returns.of_dispatches
  apply Dispatches.reject (range_matches a b items) hguard
  apply Dispatches.take (range_matches a b items)
  rw [← call_ends_iff_endsInTail]
  exact hrest.call (by simp [range]) rfl rfl (by simp [hnext])

theorem intRange_of_lt {i j : Int} (h : i < j) : Int.range i j = i :: Int.range (i + 1) j := by
  have hlength : (j - i).toNat = (j - (i + 1)).toNat + 1 := by omega
  rw [Int.range, Int.range, hlength, List.range_succ_eq_map, List.map_cons, List.map_map]
  congr 1
  · simp
  · apply List.map_congr_left
    intro k _
    simp only [Function.comp, Nat.succ_eq_add_one]
    omega

/-- The integers from the first bound on and below the second. -/
def counted (a b : Int64) : List Int64 :=
  (Int.range a.toInt b.toInt).map Int64.ofInt

theorem map_toInt_counted (a b : Int64) :
    (counted a b).map Int64.toInt = Int.range a.toInt b.toInt := by
  have hlower := (fits_iff _).1 (fits_toInt a)
  have hupper := (fits_iff _).1 (fits_toInt b)
  rw [counted, List.map_map]
  have hsame : ∀ i ∈ Int.range a.toInt b.toInt, (Int64.toInt ∘ Int64.ofInt) i = id i := by
    intro i hi
    rw [Int.mem_range_iff] at hi
    exact toInt_ofInt_of_fits ((fits_iff i).2 (by omega))
  rw [List.map_congr_left hsame, List.map_id]

theorem counted_of_le (h : b.toInt ≤ a.toInt) : counted a b = [] := by
  simp [counted, Int.range, Int.toNat_of_nonpos (Int.sub_nonpos_of_le h)]

theorem counted_of_lt (h : a.toInt < b.toInt) (hc : c.toInt = a.toInt + 1) :
    counted a b = a :: counted c b := by
  rw [counted, counted, intRange_of_lt h, List.map_cons, Int64.ofInt_toInt, hc]

theorem range_onto (hreverse : captured.get? "reverse" = startup.get? "reverse")
    (horder : captured.get? ">=" = startup.get? ">=")
    (hplus : captured.get? "+" = startup.get? "+") (a b : Int64) (items : List Expr)
    (streams : Streams) :
    Returns (range captured) [.int a, .int b, .list items] streams
      (.value (.list (items.reverse ++ (counted a b).map .int)) streams) := by
  -- The next bound fits, since it is at most the second one.
  induction hdistance : (b.toInt - a.toInt).toNat generalizing a items with
  | zero =>
    have hle : b.toInt ≤ a.toInt := by omega
    simpa [counted_of_le hle] using range_done hreverse horder hle items streams
  | succ distance ih =>
    have hlt : a.toInt < b.toInt := by omega
    have hlower := (fits_iff _).1 (fits_toInt a)
    have hupper := (fits_iff _).1 (fits_toInt b)
    obtain ⟨c, hc⟩ := exists_toInt_eq (i := a.toInt + 1) ((fits_iff _).2 (by omega))
    have hrest := range_step horder hplus hlt hc (ih c (.int a :: items) (by omega))
    simpa [counted_of_lt hlt hc] using hrest

theorem range_returns (hreverse : captured.get? "reverse" = startup.get? "reverse")
    (horder : captured.get? ">=" = startup.get? ">=")
    (hplus : captured.get? "+" = startup.get? "+") (a b : Int64) (streams : Streams) :
    Returns (range captured) [.int a, .int b] streams
      (.value (.list ((counted a b).map .int)) streams) := by
  have honto := range_onto hreverse horder hplus a b [] streams
  rw [List.reverse_nil, List.nil_append] at honto
  exact returns_of_starting (by decide) (by simp [Clause.arity]) (List.cons_ne_nil _ _) honto

/-- Wherever the names are bound as in the library, the first items of a list and the items after
them are found for each count that is not negative, also for none and for more than there are, and
together they make up the list. A range goes from the first bound on and below the second, for all
pairs of integers. -/
theorem take_drop_range_ends
    (hbinds : ∀ name ∈ ["take", "drop", "range"], context.get? name = startup.get? name) :
    (∀ (n : Int64) (xs args : List Expr) (streams middle : Streams), 0 ≤ n.toInt →
      EvaluatesAll context args streams [.int n, .list xs] middle →
      Ends (.call "take" args) context streams
        (.value (.list (xs.take n.toInt.toNat)) middle) ∧
      Ends (.call "drop" args) context streams
        (.value (.list (xs.drop n.toInt.toNat)) middle) ∧
      ∀ others after, context.get? "+" = startup.get? "+" →
        EvaluatesAll context others middle [.int n, .list xs] after →
        Ends (.call "+" [.call "take" args, .call "drop" others]) context streams
          (.value (.list xs) after)) ∧
    ∀ (a b : Int64) (args : List Expr) (streams after : Streams),
      EvaluatesAll context args streams [.int a, .int b] after →
      ∃ items : List Int64, items.map Int64.toInt = Int.range a.toInt b.toInt ∧
        Ends (.call "range" args) context streams (.value (.list (items.map .int)) after) := by
  obtain ⟨taking, htake, htaking⟩ := provides_take
  obtain ⟨dropping, hdrop, hdropping⟩ := provides_drop
  obtain ⟨ranging, hrange, hranging⟩ := provides_range
  rw [← hbinds "take" (by simp)] at htake
  rw [← hbinds "drop" (by simp)] at hdrop
  rw [← hbinds "range" (by simp)] at hrange
  constructor
  · intro n xs args streams middle hn hargs
    have hcount : n.toInt = n.toInt.toNat := by omega
    have htakes := take_returns (htaking "reverse" (by simp)) (htaking "-" (by simp)) hcount xs
    have hdrops := drop_returns (hdropping "-" (by simp)) hcount xs
    have hfirst := (htakes middle).call htake rfl rfl hargs
    refine ⟨hfirst, (hdrops middle).call hdrop rfl rfl hargs, ?_⟩
    intro others after hplus hothers
    have hsecond := (hdrops after).call hdrop rfl rfl hothers
    have hresult : BuiltIn.result (.operator .plus) [.list (xs.take n.toInt.toNat),
        .list (xs.drop n.toInt.toNat)] = .ok (.list xs) := by
      simp [BuiltIn.result, BuiltIn.plus]
    rw [ends_value_iff] at hfirst hsecond ⊢
    have hparts : EvaluatesAll context [.call "take" args, .call "drop" others] streams
        [.list (xs.take n.toInt.toNat), .list (xs.drop n.toInt.toNat)] after :=
      .cons hfirst (.cons hsecond (.nil after))
    exact evaluates_operator (o := .plus) hplus rfl rfl hparts hresult rfl
  · intro a b args streams after hargs
    have hranges := range_returns (hranging "reverse" (by simp)) (hranging ">=" (by simp))
      (hranging "+" (by simp)) a b after
    exact ⟨counted a b, map_toInt_counted a b, hranges.call hrange rfl rfl hargs⟩

/-- More items are wanted than there are, and the range is the last one below the greatest
integer. -/
theorem take_drop_range_ends_startup :
    0 ≤ (3 : Int64).toInt ∧
    Ends (.call "take" [.int 3, .list [.int 7, .char 'x']]) startup (.ofText "")
      (.value (.list [.int 7, .char 'x']) (.ofText "")) ∧
    Ends (.call "drop" [.int 3, .list [.int 7, .char 'x']]) startup (.ofText "")
      (.value (.list []) (.ofText "")) ∧
    ∃ items : List Int64, items.map Int64.toInt = [9223372036854775806] ∧
      Ends (.call "range" [.int 9223372036854775806, .int Int64.maxValue]) startup (.ofText "")
        (.value (.list (items.map .int)) (.ofText "")) := by
  have hargs : EvaluatesAll startup [.int 3, .list [.int 7, .char 'x']] (.ofText "")
      [.int 3, .list [.int 7, .char 'x']] (.ofText "") :=
    .cons (.atom rfl) (.cons (EvaluatesAll.list (.cons (.atom rfl) (.cons (.atom rfl) (.nil _))))
      (.nil _))
  have hbounds : EvaluatesAll startup [.int 9223372036854775806, .int Int64.maxValue] (.ofText "")
      [.int 9223372036854775806, .int Int64.maxValue] (.ofText "") := by
    simp
  have hbinds : ∀ name ∈ ["take", "drop", "range"], startup.get? name = startup.get? name :=
    fun _ _ => rfl
  obtain ⟨hslices, hranges⟩ := take_drop_range_ends hbinds
  obtain ⟨htake, hdrop, -⟩ := hslices 3 _ _ _ _ (by decide) hargs
  exact ⟨by decide, htake, hdrop, hranges _ _ _ _ _ hbounds⟩

end Song.Library
