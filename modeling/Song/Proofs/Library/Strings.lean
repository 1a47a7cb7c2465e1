import Song.Proofs.Library.Lists
import Song.Proofs.Library.Operators

/-!
# Splitting and joining strings

Splitting a string at a character and joining the words with that character are inverse to each
other. Splitting carries a word and the words before it, both reversed, as `List.splitOnPPrepend`
does for the word.
-/
namespace Song.Library

attribute [local simp] Expr.matchParameters sameLength Expr.matchItems Expr.matchPattern
  Expr.items? Context.get?_insert Closure.get?_scope

variable {captured context : Bindings} {a c : Char} {cs s word : List Char} {ws : List (List Char)}
  {acc : List Expr} {streams middle after : Streams} {outcome : Outcome Expr}

/-- The expression `[reverse(word) | acc]`. -/
def finishedWords : Expr :=
  .cons [.call "reverse" [.name "word"]] (.name "acc")

def splitClauses : List (Clause Expr) :=
  [⟨some "split", [.list [], .wildcard, .name "word", .name "acc"], .bool true,
      .call "reverse" [finishedWords]⟩,
    ⟨some "split", [.cons [.name "c"] (.name "cs"), .name "sep", .name "word", .name "acc"],
      .call "Eq" [.name "c", .name "sep"],
      .call "split" [.name "cs", .name "sep", .list [], finishedWords]⟩,
    ⟨some "split", [.cons [.name "c"] (.name "cs"), .name "sep", .name "word", .name "acc"],
      .bool true,
      .call "split" [.name "cs", .name "sep", .cons [.name "c"] (.name "word"), .name "acc"]⟩,
    ⟨some "split", [.name "s", .name "sep"], .bool true,
      .call "split" [.name "s", .name "sep", .list [], .list []]⟩]

def split (captured : Bindings) : Expr :=
  .closure ⟨some "split", splitClauses, captured⟩

theorem provides_split : Provides "split" splitClauses ["reverse", "Eq"] :=
  provides_of_spelt (by repeat constructor) (by rfl) nofun (by decide) (by decide)

@[simp] theorem text_nil : Expr.text [] = .list [] :=
  rfl

theorem evaluates_finishedWords (hreverse : context.get? "reverse" = startup.get? "reverse")
    (hword : context.get? "word" = some (.text word))
    (hacc : context.get? "acc" = some (.list acc)) :
    Evaluates finishedWords context streams
      (.value (.list (.text word.reverse :: acc)) streams) := by
  have hreversed : Evaluates (.call "reverse" [.name "word"]) context streams
      (.value (.text word.reverse) streams) := by
    rw [Expr.text, List.map_reverse, ← ends_value_iff]
    exact ends_reverse hreverse (.name hword)
  simp [finishedWords, hreversed, hacc]

abbrev splitScope (captured : Bindings) (a : Char) (cs : List Char) (c : Char) (word : List Char)
    (acc : List Expr) : Bindings :=
  Closure.scope ⟨some "split", splitClauses, captured⟩ "split" (((((Context.empty.insert "c"
    (.char a)).insert "cs" (.text cs)).insert "sep" (.char c)).insert "word" (.text word)).insert
    "acc" (.list acc))

theorem split_guard {holds : Bool} (hholds : (a == c) = holds)
    (heq : captured.get? "Eq" = startup.get? "Eq") :
    Evaluates (.call "Eq" [.name "c", .name "sep"]) (splitScope captured a cs c word acc) streams
      (.value (.bool holds) streams) := by
  subst hholds
  have hargs : EvaluatesAll (splitScope captured a cs c word acc) [.name "c", .name "sep"] streams
      [.char a, .char c] streams := by
    simp
  have hbound : (splitScope captured a cs c word acc).get? Operator.equal.symbol =
      startup.get? Operator.equal.symbol := by
    simpa [Operator.symbol] using heq
  exact evaluates_operator hbound rfl rfl hargs rfl rfl

theorem split_matches (a : Char) (cs : List Char) (c : Char) (word : List Char) (acc : List Expr) :
    Expr.matchParameters [.cons [.name "c"] (.name "cs"), .name "sep", .name "word", .name "acc"]
      [.text (a :: cs), .char c, .text word, .list acc] =
      .ok (some (((((Context.empty.insert "c" (.char a)).insert "cs" (.text cs)).insert "sep"
        (.char c)).insert "word" (.text word)).insert "acc" (.list acc))) := by
  simp [Expr.text]

/-- The separator ends the word. -/
theorem split_separator (hreverse : captured.get? "reverse" = startup.get? "reverse")
    (heq : captured.get? "Eq" = startup.get? "Eq")
    (h : Returns (split captured) [.text cs, .char c, .text [], .list (.text word.reverse :: acc)]
      streams outcome) :
    Returns (split captured) [.text (c :: cs), .char c, .text word, .list acc] streams outcome := by
  have hguard : Evaluates (.call "Eq" [.name "c", .name "sep"])
      (splitScope captured c cs c word acc) streams (.value (.bool true) streams) :=
    split_guard (beq_self_eq_true c) heq
  have hwords : Evaluates finishedWords (splitScope captured c cs c word acc) streams
      (.value (.list (.text word.reverse :: acc)) streams) := by
    apply evaluates_finishedWords
    · simpa using hreverse
    · simp
    · simp
  have hargs : EvaluatesAll (splitScope captured c cs c word acc)
      [.name "cs", .name "sep", .list [], finishedWords] streams
      [.text cs, .char c, .text [], .list (.text word.reverse :: acc)] streams := by
    simp [hwords]
  apply Returns.of_dispatches
  apply Dispatches.skip (by simp [Expr.text])
  apply Dispatches.take_if (split_matches c cs c word acc) hguard
  rw [← call_ends_iff_endsInTail]
  exact h.call (by simp [split]) rfl rfl hargs

/-- Any other character goes on with the word. -/
theorem split_other (hne : a ≠ c) (heq : captured.get? "Eq" = startup.get? "Eq")
    (h : Returns (split captured) [.text cs, .char c, .text (a :: word), .list acc] streams
      outcome) :
    Returns (split captured) [.text (a :: cs), .char c, .text word, .list acc] streams outcome := by
  have hguard : Evaluates (.call "Eq" [.name "c", .name "sep"])
      (splitScope captured a cs c word acc) streams (.value (.bool false) streams) :=
    split_guard (beq_eq_false_iff_ne.2 hne) heq
  have hargs : EvaluatesAll (splitScope captured a cs c word acc)
      [.name "cs", .name "sep", .cons [.name "c"] (.name "word"), .name "acc"] streams
      [.text cs, .char c, .text (a :: word), .list acc] streams := by
    simp [Expr.text]
  apply Returns.of_dispatches
  apply Dispatches.skip (by simp [Expr.text])
  apply Dispatches.reject (split_matches a cs c word acc) hguard
  apply Dispatches.take (split_matches a cs c word acc)
  rw [← call_ends_iff_endsInTail]
  exact h.call (by simp [split]) rfl rfl hargs

/-- The words before come first, then those of the string with the word in front of it. -/
theorem split_run (hreverse : captured.get? "reverse" = startup.get? "reverse")
    (heq : captured.get? "Eq" = startup.get? "Eq") (s : List Char) (c : Char) (word : List Char)
    (acc : List Expr) (streams : Streams) :
    Returns (split captured) [.text s, .char c, .text word, .list acc] streams
      (.value (.list (acc.reverse ++ (s.splitOnPPrepend (· == c) word).map .text)) streams) := by
  induction s generalizing word acc with
  | nil =>
    have hmatch : Expr.matchParameters [.list [], .wildcard, .name "word", .name "acc"]
        [.list [], .char c, .text word, .list acc] =
        .ok (some ((Context.empty.insert "word" (.text word)).insert "acc" (.list acc))) := by
      simp
    rw [List.splitOnPPrepend_nil, List.map_singleton, ← List.reverse_cons]
    apply Returns.of_dispatches
    apply Dispatches.take hmatch
    rw [← call_ends_iff_endsInTail]
    apply ends_reverse
    · simpa using hreverse
    · apply evaluates_finishedWords
      · simpa using hreverse
      · simp
      · simp
  | cons a s ih =>
    -- The guard of the second clause decides as `splitOnPPrepend` does.
    by_cases hac : a = c
    · subst hac
      rw [List.splitOnPPrepend_cons_pos (by simp)]
      have hrest := ih [] (.text word.reverse :: acc)
      rw [List.reverse_cons, List.append_assoc] at hrest
      exact split_separator hreverse heq hrest
    · rw [List.splitOnPPrepend_cons_neg (by simpa using hac)]
      exact split_other hac heq (ih (a :: word) acc)

theorem split_returns (hreverse : captured.get? "reverse" = startup.get? "reverse")
    (heq : captured.get? "Eq" = startup.get? "Eq") (s : List Char) (c : Char) (streams : Streams) :
    Returns (split captured) [.text s, .char c] streams
      (.value (.list ((s.splitOn c).map .text)) streams) := by
  have hmatch : Expr.matchParameters [.name "s", .name "sep"] [.text s, .char c] =
      .ok (some ((Context.empty.insert "s" (.text s)).insert "sep" (.char c))) := by
    simp
  have hrun := split_run hreverse heq s c [] [] streams
  apply Returns.of_dispatches
  apply Dispatches.skip (by simp)
  apply Dispatches.skip (by simp)
  apply Dispatches.skip (by simp)
  apply Dispatches.take hmatch
  rw [← call_ends_iff_endsInTail]
  exact hrun.call (by simp [split]) rfl rfl (by simp [Expr.text])

/-- The words of a string do not contain the separator. -/
theorem notMem_of_mem_splitOnPPrepend (hword : c ∉ word) :
    ∀ w ∈ s.splitOnPPrepend (· == c) word, c ∉ w := by
  induction s generalizing word with
  | nil => simpa using hword
  | cons a s ih =>
    by_cases hac : a = c
    · rw [List.splitOnPPrepend_cons_pos (by simpa using hac)]
      exact List.forall_mem_cons.2 ⟨by simpa using hword, ih List.not_mem_nil⟩
    · rw [List.splitOnPPrepend_cons_neg (by simpa using hac)]
      exact ih (List.not_mem_cons_of_ne_of_not_mem (Ne.symm hac) hword)

def joinClauses : List (Clause Expr) :=
  [⟨some "join", [.list [], .wildcard], .bool true, .list []⟩,
    ⟨some "join", [.list [.name "s"], .wildcard], .bool true, .name "s"⟩,
    ⟨some "join", [.cons [.name "s"] (.name "rest"), .name "sep"], .bool true,
      .call "+" [.call "+" [.name "s", .name "sep"], .call "join" [.name "rest", .name "sep"]]⟩]

def join (captured : Bindings) : Expr :=
  .closure ⟨some "join", joinClauses, captured⟩

theorem provides_join : Provides "join" joinClauses ["+"] :=
  provides_of_spelt (by repeat constructor) (by rfl) nofun (by decide) (by decide)

/-- Two strings one after the other, wherever the operator is bound as in the library. -/
theorem evaluates_plus {left right : Expr} {first second : List Char}
    (hplus : context.get? "+" = startup.get? "+")
    (hleft : Evaluates left context streams (.value (.text first) middle))
    (hright : Evaluates right context middle (.value (.text second) after)) :
    Evaluates (.call "+" [left, right]) context streams
      (.value (.text (first ++ second)) after) := by
  have hresult : BuiltIn.result (.operator .plus) [.text first, .text second] =
      .ok (.text (first ++ second)) := by
    rw [Expr.text, Expr.text, Expr.text, List.map_append]
    rfl
  exact evaluates_operator (o := .plus) hplus rfl rfl (.cons hleft (.cons hright (.nil _))) hresult
    rfl

abbrev joinScope (captured : Bindings) (first : List Char) (rest : List (List Char))
    (sep : List Char) : Bindings :=
  Closure.scope ⟨some "join", joinClauses, captured⟩ "join" (((Context.empty.insert "s"
    (.text first)).insert "rest" (.list (rest.map .text))).insert "sep" (.text sep))

theorem join_step {first second sep joined : List Char}
    (hplus : captured.get? "+" = startup.get? "+")
    (h : Returns (join captured) [.list ((second :: ws).map .text), .text sep] streams
      (.value (.text joined) after)) :
    Returns (join captured) [.list ((first :: second :: ws).map .text), .text sep] streams
      (.value (.text (first ++ sep ++ joined)) after) := by
  have hmatch : Expr.matchParameters [.cons [.name "s"] (.name "rest"), .name "sep"]
      [.list ((first :: second :: ws).map .text), .text sep] =
      .ok (some (((Context.empty.insert "s" (.text first)).insert "rest"
        (.list ((second :: ws).map .text))).insert "sep" (.text sep))) := by
    simp
  have hbound : (joinScope captured first (second :: ws) sep).get? "+" = startup.get? "+" := by
    simpa using hplus
  have hrest : Ends (.call "join" [.name "rest", .name "sep"])
      (joinScope captured first (second :: ws) sep) streams (.value (.text joined) after) :=
    h.call (by simp [join]) rfl rfl (by simp)
  have hfirst : Evaluates (.call "+" [.name "s", .name "sep"])
      (joinScope captured first (second :: ws) sep) streams
      (.value (.text (first ++ sep)) streams) :=
    evaluates_plus hbound (.name (by simp)) (.name (by simp))
  rw [ends_value_iff] at hrest
  apply Returns.of_dispatches
  apply Dispatches.skip (by simp)
  apply Dispatches.skip (by simp)
  apply Dispatches.take hmatch
  exact Evaluates.endsInTail (evaluates_plus hbound hfirst hrest) rfl

theorem join_returns (hplus : captured.get? "+" = startup.get? "+") (ws : List (List Char))
    (sep : List Char) (streams : Streams) :
    Returns (join captured) [.list (ws.map .text), .text sep] streams
      (.value (.text (sep.intercalate ws)) streams) := by
  induction ws with
  | nil =>
    have hmatch : Expr.matchParameters [.list [], .wildcard] [.list [], .text sep] =
        .ok (some Context.empty) := by
      simp
    apply Returns.of_dispatches
    apply Dispatches.take hmatch
    exact Evaluates.endsInTail (by simp [Expr.text]) rfl
  | cons first rest ih =>
    cases rest with
    | nil =>
      have hmatch : Expr.matchParameters [.list [.name "s"], .wildcard]
          [.list [.text first], .text sep] =
          .ok (some (Context.empty.insert "s" (.text first))) := by
        simp
      rw [List.intercalate_singleton]
      apply Returns.of_dispatches
      apply Dispatches.skip (by simp)
      apply Dispatches.take hmatch
      exact Evaluates.endsInTail (by simp) rfl
    | cons second ws =>
      rw [List.intercalate_cons_cons]
      exact join_step hplus ih

/-- Wherever the names are bound as in the library, splitting a string at a character gives at least
one word and no word with the character, and joining the words with it gives the string back; and
splitting what some words without the character were joined to gives these words back. -/
theorem split_join_inverse
    (hbinds : ∀ name ∈ ["split", "join"], context.get? name = startup.get? name) (c : Char) :
    (∀ s args start streams, EvaluatesAll context args start [.text s, .char c] streams →
      ∃ words : List (List Char), words ≠ [] ∧ (∀ w ∈ words, c ∉ w) ∧
        Ends (.call "split" args) context start (.value (.list (words.map .text)) streams) ∧
        ∀ separator after, Evaluates separator context streams (.value (.text [c]) after) →
          Ends (.call "join" [.call "split" args, separator]) context start
            (.value (.text s) after)) ∧
    ∀ (ws : List (List Char)) args start streams, ws ≠ [] → (∀ w ∈ ws, c ∉ w) →
      EvaluatesAll context args start [.list (ws.map .text), .text [c]] streams →
      ∀ separator after, Evaluates separator context streams (.value (.char c) after) →
        Ends (.call "split" [.call "join" args, separator]) context start
          (.value (.list (ws.map .text)) after) := by
  obtain ⟨splitting, hsplit, hsplitting⟩ := provides_split
  obtain ⟨joining, hjoin, hjoining⟩ := provides_join
  rw [← hbinds "split" (by decide)] at hsplit
  rw [← hbinds "join" (by decide)] at hjoin
  have hsplits := split_returns (hsplitting "reverse" (by decide)) (hsplitting "Eq" (by decide))
  have hjoins := join_returns (hjoining "+" (by decide))
  constructor
  · intro s args start streams hargs
    have hends := (hsplits s c streams).call hsplit rfl rfl hargs
    have hwords : ∀ w ∈ s.splitOn c, c ∉ w := notMem_of_mem_splitOnPPrepend List.not_mem_nil
    refine ⟨s.splitOn c, List.splitOn_ne_nil c s, hwords, hends, ?_⟩
    intro separator after hseparator
    have hjoined := hjoins (s.splitOn c) [c] after
    rw [List.intercalate_splitOn] at hjoined
    rw [ends_value_iff] at hends
    have hboth : EvaluatesAll context [.call "split" args, separator] start
        [.list ((s.splitOn c).map .text), .text [c]] after :=
      .cons hends (.cons hseparator (.nil after))
    exact hjoined.call hjoin rfl rfl hboth
  · intro ws args start streams hne hws hargs separator after hseparator
    have hends := (hjoins ws [c] streams).call hjoin rfl rfl hargs
    have hwords := hsplits ([c].intercalate ws) c after
    rw [List.splitOn_intercalate c hws hne] at hwords
    rw [ends_value_iff] at hends
    have hboth : EvaluatesAll context [.call "join" args, separator] start
        [.text ([c].intercalate ws), .char c] after :=
      .cons hends (.cons hseparator (.nil after))
    exact hwords.call hsplit rfl rfl hboth

/-- Separators at the end or in a row have empty words beside them. -/
theorem split_join_inverse_startup :
    (∃ words : List (List Char), words ≠ [] ∧ (∀ w ∈ words, ',' ∉ w) ∧
      Ends (.call "split" [.string "a,,b,", .char ',']) startup (.ofText "")
        (.value (.list (words.map .text)) (.ofText "")) ∧
      Ends (.call "join" [.call "split" [.string "a,,b,", .char ','], .text [',']]) startup
        (.ofText "") (.value (.string "a,,b,") (.ofText ""))) ∧
    Ends (.call "split" [.call "join" [.list [.text ['a'], .text [], .text ['b'], .text []],
      .text [',']], .char ',']) startup (.ofText "")
      (.value (.list [.text ['a'], .text [], .text ['b'], .text []]) (.ofText "")) := by
  have hbinds : ∀ name ∈ ["split", "join"], startup.get? name = startup.get? name := fun _ _ => rfl
  have hcomma {streams : Streams} : Evaluates (.text [',']) startup streams
      (.value (.text [',']) streams) := (Expr.isValue_text _).evaluates
  have hwords : (Expr.list (([['a'], [], ['b'], []] : List (List Char)).map .text)).IsValue
      fun _ => True :=
    .list (List.forall_mem_map.2 fun w _ => Expr.isValue_text w)
  obtain ⟨words, hne, hmem, hsplit, hjoin⟩ := (split_join_inverse hbinds ',').1 _ _ (.ofText "")
    (.ofText "") (.cons (Expr.isValue_text "a,,b,".toList).evaluates (.cons (.atom rfl) (.nil _)))
  refine ⟨⟨words, hne, hmem, hsplit, hjoin _ _ hcomma⟩, ?_⟩
  obtain ⟨-, hback⟩ := split_join_inverse hbinds ','
  apply hback [['a'], [], ['b'], []] _ (.ofText "") (.ofText "") nofun (by decide)
  · exact .cons hwords.evaluates (.cons hcomma (.nil _))
  · exact .atom rfl

end Song.Library
