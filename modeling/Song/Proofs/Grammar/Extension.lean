import Song.Proofs.Grammar.Progress
import Song.Proofs.Grammar.Reading

/-!
# Tokens that go on in a new line

Reading depends only on the tokens that are taken. If more tokens are added in a
new line, and the others are moved to other places, every rule gives what it gave
before, with the new tokens left over and with its fault at the other place. Only
a rule that came to the end of the tokens and wanted more may now do otherwise.
-/
namespace Song.Grammar

variable {α β σ : Type}

/-- Where tokens are moved to, and the tokens that are added after them in a new line. -/
structure Extension where
  relocate : Span → Span
  more : Tokens
  newline : Follows (· = .newline) more

/-- Why nothing can be declared with the target; a guard stands only before the body of a
function. -/
def targetFault? (target : Expr) (guarded : Bool) : Option SyntaxFault :=
  match target with
  | .call _ patterns => (Expr.nonPatternAmong? patterns).map .invalidPattern
  | target =>
    if guarded then some .misplacedGuard
    else
      match target with
      | .name _ => none
      | .list _ | .cons .. | .wildcard => (Expr.nonPattern? target).map .invalidPattern
      | other => some (.notAssignable other)

def declaredBy (target : Expr) (guard : Option Expr) (value : Expr) : Expr :=
  match target with
  | .call callee patterns => clause (some callee) patterns guard value
  | target => .assign target value

/-- Whether a declaration has a fault depends neither on its value nor on its place. -/
theorem declaration_eq (start : Option Span) (target : Expr) (guard : Option Expr)
    (value : Expr) :
    declaration start target guard value =
      match targetFault? target guard.isSome with
      | some fault => .error ⟨fault, start⟩
      | none => .ok (declaredBy target guard value) := by
  have hpatterns (patterns : List Expr) (declared : Expr) :
      (requirePatterns start patterns >>= fun _ => .ok declared) =
        match (Expr.nonPatternAmong? patterns).map SyntaxFault.invalidPattern with
        | some fault => .error ⟨fault, start⟩
        | none => .ok declared := by
    rw [requirePatterns]
    cases Expr.nonPatternAmong? patterns <;> rfl
  have hsingle (target declared : Expr) :
      (requirePatterns start [target] >>= fun _ => .ok declared) =
        match (Expr.nonPattern? target).map SyntaxFault.invalidPattern with
        | some fault => .error ⟨fault, start⟩
        | none => .ok declared := by
    rw [hpatterns, Expr.nonPatternAmong?, Expr.nonPatternAmong?, Option.or_none]
  rw [declaration.eq_def, targetFault?.eq_def]
  cases target with
  | call callee patterns => exact hpatterns patterns _
  | list items =>
    cases guard with
    | none => exact hsingle _ _
    | some e => rfl
  | cons heads tail =>
    cases guard with
    | none => exact hsingle _ _
    | some e => rfl
  | wildcard =>
    cases guard with
    | none => exact hsingle _ _
    | some e => rfl
  | _ => cases guard <;> rfl

/-- Expressions whose parts are nested less than `depth` deep, where `bottom` reads the parts that
are nested deeper. -/
def expressionOver (bottom : Reader Expr) : Nat → Reader Expr
  | 0 => bottom
  | depth + 1 => chain (unary (expressionOver bottom depth))

theorem expressionWithin_eq (depth : Nat) :
    expressionWithin depth =
      expressionOver (fun tokens => .error (unexpected .expression tokens)) depth := by
  induction depth with
  | zero => rfl
  | succ depth ih => rw [expressionWithin, expressionOver, ih]

namespace Extension

variable (x : Extension)

def tokens (tokens : Tokens) : Tokens :=
  tokens.map (fun next => ⟨next.token, x.relocate next.span⟩) ++ x.more

def stop (stop : Stop) : Stop :=
  ⟨stop.fault, stop.place.map x.relocate⟩

/-- The same value with more tokens left over, or the same fault at its other place. -/
def result : Except Stop (α × Tokens) → Except Stop (α × Tokens)
  | .ok (value, rest) => .ok (value, x.tokens rest)
  | .error stop => .error (x.stop stop)

/-- The second result is the first one, extended, with a fault only where it can be moved, unless
the first waits for the tokens that are added. -/
def Carries (first second : Except Stop (α × Tokens)) : Prop :=
  (second = x.result first ∧ Placed first) ∨ (x.more ≠ [] ∧ Waits first)

@[simp] theorem tokens_nil : x.tokens [] = x.more :=
  rfl

@[simp] theorem tokens_cons (next : Located) (rest : Tokens) :
    x.tokens (next :: rest) = ⟨next.token, x.relocate next.span⟩ :: x.tokens rest :=
  rfl

theorem eat?_tokens {t : Token} (ht : t ≠ .newline) (tokens : Tokens) :
    eat? t (x.tokens tokens) = (eat? t tokens).map x.tokens := by
  cases tokens with
  | nil => exact x.newline.eat?_eq_none (by simpa using ht)
  | cons next rest =>
    rw [tokens_cons, eat?, eat?]
    split <;> rfl

/-- Tokens are dropped as before, unless all of them are. -/
theorem dropWhile_tokens {p : Located → Bool}
    (hp : ∀ next, p ⟨next.token, x.relocate next.span⟩ = p next) {tokens : Tokens}
    (h : ¬(x.more ≠ [] ∧ tokens.dropWhile p = [])) :
    (x.tokens tokens).dropWhile p = x.tokens (tokens.dropWhile p) := by
  induction tokens with
  | nil =>
    have hmore : x.more = [] := by simpa using h
    simp [hmore]
  | cons next rest ih =>
    rw [tokens_cons, List.dropWhile_cons, hp, List.dropWhile_cons]
    rw [List.dropWhile_cons] at h
    split at h
    case isTrue hn => rw [if_pos hn, if_pos hn, ih h]
    case isFalse hn => rw [if_neg hn, if_neg hn, tokens_cons]

theorem skipNewlines_tokens {tokens : Tokens} (h : ¬(x.more ≠ [] ∧ skipNewlines tokens = [])) :
    skipNewlines (x.tokens tokens) = x.tokens (skipNewlines tokens) :=
  x.dropWhile_tokens (fun _ => rfl) h

/-- Empty lines go on in the tokens that are added. -/
theorem skipNewlines_tokens_of_nil {tokens : Tokens} (h : skipNewlines tokens = []) :
    skipNewlines (x.tokens tokens) = skipNewlines x.more := by
  induction tokens with
  | nil => rfl
  | cons next rest ih =>
    rw [skipNewlines, List.dropWhile_cons] at h
    split at h
    case isTrue hn =>
      rw [tokens_cons, skipNewlines, List.dropWhile_cons_of_pos (by simpa using hn)]
      exact ih h
    case isFalse => cases h

theorem length_skipNewlines_lt {tokens : Tokens} {bound : Nat} (h : tokens.length < bound) :
    (skipNewlines tokens).length < bound :=
  Nat.lt_of_le_of_lt (skipNewlines_suffix tokens).length_le h

theorem head?_tokens {tokens : Tokens} (h : ¬(x.more ≠ [] ∧ tokens = [])) :
    (x.tokens tokens).head? =
      tokens.head?.map fun next => ⟨next.token, x.relocate next.span⟩ := by
  cases tokens with
  | nil =>
    have hmore : x.more = [] := by simpa using h
    simp [hmore]
  | cons next rest => rfl

theorem place_tokens {tokens : Tokens} (h : ¬(x.more ≠ [] ∧ tokens = [])) :
    place (x.tokens tokens) = (place tokens).map x.relocate := by
  rw [place, place, x.head?_tokens h, Option.map_map, Option.map_map]
  rfl

/-- A reader that takes tokens starts at one. -/
theorem place_isSome {tokens rest : Tokens} (h : rest.length < tokens.length) :
    (place tokens).isSome := by
  cases tokens with
  | nil => cases h
  | cons next more => rfl

variable {x}

theorem Carries.unexpected (wanted : Expectation) (tokens : Tokens) :
    x.Carries (.error (unexpected wanted tokens) : Except Stop (α × Tokens))
      (.error (unexpected wanted (x.tokens tokens))) := by
  by_cases hend : x.more ≠ [] ∧ tokens = []
  · obtain ⟨hmore, rfl⟩ := hend
    exact Or.inr ⟨hmore, waits_unexpected wanted⟩
  · left
    refine ⟨?_, placed_unexpected wanted tokens⟩
    rw [result, stop, Grammar.unexpected, Grammar.unexpected, x.place_tokens hend,
      x.head?_tokens hend, Option.map_map]
    rfl

theorem Carries.ok (value : α) (rest : Tokens) :
    x.Carries (.ok (value, rest)) (.ok (value, x.tokens rest)) :=
  Or.inl ⟨rfl, trivial⟩

theorem Carries.bind {first first' : Except Stop (α × Tokens)}
    {next next' : α × Tokens → Except Stop (β × Tokens)} (h : x.Carries first first')
    (hn : ∀ value rest, first = .ok (value, rest) →
      x.Carries (next (value, rest)) (next' (value, x.tokens rest))) :
    x.Carries (first >>= next) (first' >>= next') := by
  rcases h with ⟨rfl, hplaced⟩ | ⟨hmore, hwaits⟩
  · cases first with
    | error stop => exact Or.inl ⟨rfl, hplaced⟩
    | ok pair => exact hn pair.1 pair.2 rfl
  · exact Or.inr ⟨hmore, hwaits.bind next⟩

theorem Carries.bind_expect {t : Token} (ht : t ≠ .newline) {tokens : Tokens}
    {next next' : Tokens → Except Stop (β × Tokens)}
    (hn : ∀ rest, eat? t tokens = some rest → x.Carries (next rest) (next' (x.tokens rest))) :
    x.Carries (expect t tokens >>= next) (expect t (x.tokens tokens) >>= next') := by
  rw [expect, expect, x.eat?_tokens ht]
  cases h : eat? t tokens with
  | some rest => exact hn rest h
  | none => exact Carries.unexpected (.token t) tokens

/-- What is read after empty lines, if that wants a token where there is none. -/
theorem Carries.skip (read read' : Tokens → Except Stop (β × Tokens)) {tokens : Tokens}
    (hwaits : Waits (read []))
    (h : x.Carries (read (skipNewlines tokens)) (read' (x.tokens (skipNewlines tokens)))) :
    x.Carries (read (skipNewlines tokens)) (read' (skipNewlines (x.tokens tokens))) := by
  by_cases hend : x.more ≠ [] ∧ skipNewlines tokens = []
  · rw [hend.2]
    exact Or.inr ⟨hend.1, hwaits⟩
  · rw [x.skipNewlines_tokens hend]
    exact h

/-- A token that has to come next after empty lines. -/
theorem Carries.bind_expect_skipped {t : Token} (ht : t ≠ .newline) {tokens : Tokens}
    {next next' : Tokens → Except Stop (β × Tokens)}
    (hn : ∀ rest, x.Carries (next rest) (next' (x.tokens rest))) :
    x.Carries (expect t (skipNewlines tokens) >>= next)
      (expect t (skipNewlines (x.tokens tokens)) >>= next') :=
  .skip (expect t · >>= next) (expect t · >>= next') ((waits_expect t).bind next)
    (.bind_expect ht fun rest _ => hn rest)

variable (x) in
/-- A round carries over, or it took the last token and the next one waits for more. -/
def RoundCarries (round : σ → Reader (Round σ β))
    (first second : Except Stop (Round σ β × Tokens)) : Prop :=
  x.Carries first second ∨
    (x.more ≠ [] ∧ ∃ state, first = .ok (.again state, []) ∧ Waits (round state []))

theorem RoundCarries.bind {round : σ → Reader (Round σ β)} {first first' : Except Stop (α × Tokens)}
    {next next' : α × Tokens → Except Stop (Round σ β × Tokens)} (h : x.Carries first first')
    (hn : ∀ value rest, first = .ok (value, rest) →
      x.RoundCarries round (next (value, rest)) (next' (value, x.tokens rest))) :
    x.RoundCarries round (first >>= next) (first' >>= next') := by
  rcases h with ⟨rfl, hplaced⟩ | ⟨hmore, hwaits⟩
  · cases first with
    | error stop => exact Or.inl (Or.inl ⟨rfl, hplaced⟩)
    | ok pair => exact hn pair.1 pair.2 rfl
  · exact Or.inl (Or.inr ⟨hmore, hwaits.bind next⟩)

/-- A round that goes on after empty lines, if the next one wants a token where there is none. -/
theorem RoundCarries.again {round : σ → Reader (Round σ β)} {state : σ}
    (hwaits : Waits (round state [])) (tokens : Tokens) :
    x.RoundCarries round (.ok (.again state, skipNewlines tokens))
      (.ok (.again state, skipNewlines (x.tokens tokens))) := by
  by_cases hend : x.more ≠ [] ∧ skipNewlines tokens = []
  · rw [hend.2]
    exact Or.inr ⟨hend.1, state, rfl, hwaits⟩
  · rw [x.skipNewlines_tokens hend]
    exact Or.inl (.ok _ _)

theorem iterate_waits {round : σ → Reader (Round σ β)} (hround : RoundAdvances round)
    {state : σ} {tokens : Tokens} (h : Waits (round state tokens)) :
    Waits (iterate round state tokens) := by
  obtain ⟨stop, hstop, hend⟩ := h
  rw [iterate_eq hround, hstop]
  exact ⟨stop, rfl, hend⟩

/-- A repetition carries over if its rounds do, with any bound on the second one that is greater
than the number of tokens. -/
theorem repeatAtMost_carries {round round' : σ → Reader (Round σ β)} (hround : RoundAdvances round)
    {bound : Nat} (h : ∀ state tokens, tokens.length < bound →
      x.RoundCarries round (round state tokens) (round' state (x.tokens tokens)))
    (state : σ) {tokens : Tokens} (ht : tokens.length < bound) {times : Nat}
    (htimes : tokens.length < times) :
    x.Carries (iterate round state tokens) (repeatAtMost round' times state (x.tokens tokens)) := by
  induction times generalizing state tokens with
  | zero => cases htimes
  | succ times ih =>
    rcases h state tokens ht with
      (⟨heq, hplaced⟩ | ⟨hmore, hwaits⟩) | ⟨hmore, later, hagain, hwaits⟩
    · rw [iterate_eq hround, repeatAtMost, heq]
      cases hread : round state tokens with
      | error stop =>
        rw [hread] at hplaced
        exact Or.inl ⟨rfl, hplaced⟩
      | ok pair =>
        obtain ⟨_ | _, rest⟩ := pair
        case again later =>
          have hlt := hround.again hread
          exact ih later (Nat.lt_trans hlt ht) (by omega)
        case done result => exact Carries.ok result rest
    · exact Or.inr ⟨hmore, iterate_waits hround hwaits⟩
    · rw [iterate_eq hround, hagain]
      exact Or.inr ⟨hmore, iterate_waits hround hwaits⟩

theorem iterate_carries {round round' : σ → Reader (Round σ β)} (hround : RoundAdvances round)
    {bound : Nat} (h : ∀ state tokens, tokens.length < bound →
      x.RoundCarries round (round state tokens) (round' state (x.tokens tokens)))
    (state : σ) {tokens : Tokens} (ht : tokens.length < bound) :
    x.Carries (iterate round state tokens) (iterate round' state (x.tokens tokens)) := by
  apply repeatAtMost_carries hround h state ht
  rw [Extension.tokens, List.length_append, List.length_map]
  omega

/-! ### The rules -/

section Rules

variable {expr expr' : Reader Expr} (hexpr : expr.Advances) {bound : Nat}
  (h : ∀ tokens, tokens.length < bound → x.Carries (expr tokens) (expr' (x.tokens tokens)))

include hexpr h

/-- An expression after empty lines. -/
theorem skipped_carries {tokens : Tokens} (ht : tokens.length < bound) :
    x.Carries (expr (skipNewlines tokens)) (expr' (skipNewlines (x.tokens tokens))) :=
  .skip expr expr' hexpr.waits (h _ (length_skipNewlines_lt ht))

theorem item_carries {close : Token} (hc : close ≠ .newline) (items : List Expr) (tokens : Tokens)
    (ht : tokens.length < bound) :
    x.RoundCarries (item expr close) (item expr close items tokens)
      (item expr' close items (x.tokens tokens)) := by
  apply RoundCarries.bind (h tokens ht)
  intro e rest _
  dsimp only
  by_cases hend : x.more ≠ [] ∧ skipNewlines rest = []
  · rw [hend.2]
    exact Or.inl (Or.inr ⟨hend.1, (waits_expect close).bind _⟩)
  · rw [x.skipNewlines_tokens hend, x.eat?_tokens (by decide)]
    cases eat? .comma (skipNewlines rest) with
    | none => exact Or.inl (.bind_expect hc fun final _ => .ok _ final)
    | some more => exact .again (item_advances hexpr close _).waits more

theorem items_carries {close : Token} (hc : close ≠ .newline) {tokens : Tokens}
    (ht : tokens.length < bound) :
    x.Carries (items expr close tokens) (items expr' close (x.tokens tokens)) := by
  have hround := RoundAdvances.of_advances (item_advances hexpr close)
  by_cases hend : x.more ≠ [] ∧ skipNewlines tokens = []
  · right
    refine ⟨hend.1, ?_⟩
    rw [items, hend.2]
    exact iterate_waits hround (item_advances hexpr close []).waits
  · rw [items, items, x.skipNewlines_tokens hend, x.eat?_tokens hc]
    cases eat? close (skipNewlines tokens) with
    | some rest => exact .ok [] rest
    | none =>
      exact iterate_carries hround (item_carries hexpr h hc) []
        (length_skipNewlines_lt ht)

theorem arguments_carries {tokens : Tokens} (ht : tokens.length < bound) :
    x.Carries (arguments expr tokens) (arguments expr' (x.tokens tokens)) :=
  items_carries hexpr h (by decide) ht

theorem listItem_carries (heads : List Expr) (tokens : Tokens) (ht : tokens.length < bound) :
    x.RoundCarries (listItem expr) (listItem expr heads tokens)
      (listItem expr' heads (x.tokens tokens)) := by
  apply RoundCarries.bind (h tokens ht)
  intro e rest hread
  have hrest := hexpr.length_lt hread
  dsimp only
  by_cases hend : x.more ≠ [] ∧ skipNewlines rest = []
  · rw [hend.2]
    exact Or.inl (Or.inr ⟨hend.1, (waits_expect .rightBracket).bind _⟩)
  · have hskip := (skipNewlines_suffix rest).length_le
    rw [x.skipNewlines_tokens hend, x.eat?_tokens (by decide)]
    cases hbar : eat? .bar (skipNewlines rest) with
    | some more =>
      have hmore := (eat?_suffix hbar).length_le
      apply Or.inl
      apply (skipped_carries hexpr h (by omega)).bind
      intro tail last _
      exact .bind_expect_skipped (by decide) fun final => .ok _ final
    | none =>
      dsimp only [Option.map_none]
      rw [x.eat?_tokens (by decide)]
      cases eat? .comma (skipNewlines rest) with
      | none => exact Or.inl (.bind_expect (by decide) fun final _ => .ok _ final)
      | some more => exact .again (listItem_advances hexpr _).waits more

theorem listLiteral_carries {tokens : Tokens} (ht : tokens.length < bound) :
    x.Carries (listLiteral expr tokens) (listLiteral expr' (x.tokens tokens)) := by
  have hround := RoundAdvances.of_advances (listItem_advances hexpr)
  by_cases hend : x.more ≠ [] ∧ skipNewlines tokens = []
  · right
    refine ⟨hend.1, ?_⟩
    rw [listLiteral, hend.2]
    exact iterate_waits hround (listItem_advances hexpr []).waits
  · rw [listLiteral, listLiteral, x.skipNewlines_tokens hend, x.eat?_tokens (by decide)]
    cases eat? .rightBracket (skipNewlines tokens) with
    | some rest => exact .ok _ rest
    | none =>
      exact iterate_carries hround (listItem_carries hexpr h) []
        (length_skipNewlines_lt ht)

theorem parenthesized_carries {tokens : Tokens} (ht : tokens.length < bound) :
    x.Carries (parenthesized expr tokens) (parenthesized expr' (x.tokens tokens)) := by
  apply (skipped_carries hexpr h ht).bind
  intro e rest _
  exact .bind_expect_skipped (by decide) fun final => .ok e final

theorem guard?_carries {tokens : Tokens} (ht : tokens.length < bound) :
    x.Carries (guard? expr tokens) (guard? expr' (x.tokens tokens)) := by
  rw [guard?, guard?, x.eat?_tokens (by decide)]
  cases hwhen : eat? .whenWord tokens with
  | none => exact .ok none tokens
  | some rest =>
    have hrest := (eat?_suffix hwhen).length_le
    apply (skipped_carries hexpr h (by omega)).bind
    intro e final _
    exact .ok (some e) final

omit hexpr h in
theorem requirePatterns_carries {start : Option Span} (hs : start.isSome) {patterns : List Expr}
    {next next' : Unit → Except Stop (β × Tokens)} (hn : x.Carries (next ()) (next' ())) :
    x.Carries (requirePatterns start patterns >>= next)
      (requirePatterns (start.map x.relocate) patterns >>= next') := by
  rw [requirePatterns, requirePatterns]
  cases Expr.nonPatternAmong? patterns with
  | none => exact hn
  | some part => exact Or.inl ⟨rfl, Or.inr hs⟩

theorem lambda_carries {tokens : Tokens} (ht : tokens.length < bound) :
    x.Carries (lambda expr tokens) (lambda expr' (x.tokens tokens)) := by
  apply Carries.bind_expect (by decide)
  intro opened hopened
  have hlength := (eat?_suffix hopened).length_le
  by_cases hend : x.more ≠ [] ∧ opened = []
  · obtain ⟨hmore, rfl⟩ := hend
    exact Or.inr ⟨hmore, (arguments_advances hexpr).waits.bind _⟩
  dsimp only
  rw [x.place_tokens hend]
  apply (arguments_carries hexpr h (by omega)).bind
  intro patterns closed hclosed
  have hargs := (arguments_advances hexpr).length_lt hclosed
  apply requirePatterns_carries (place_isSome hargs)
  dsimp only
  apply (guard?_carries hexpr h (by omega)).bind
  intro guard guarded hguarded
  have hguard := (guard?_leaves hexpr closed _ _ hguarded).2.length_le
  dsimp only
  apply Carries.bind_expect (by decide)
  intro equals hequals
  have hbody := (eat?_suffix hequals).length_le
  apply (skipped_carries hexpr h (by omega)).bind
  intro body final _
  exact .ok _ final

omit hexpr h in
theorem declaration_carries {start : Option Span} (hs : start.isSome) (target value : Expr)
    (guard : Option Expr) (rest : Tokens) :
    x.Carries (declaration start target guard value >>= fun declared => .ok (declared, rest))
      (declaration (start.map x.relocate) target guard value >>= fun declared =>
        .ok (declared, x.tokens rest)) := by
  rw [declaration_eq, declaration_eq]
  cases targetFault? target guard.isSome with
  | none => exact .ok _ rest
  | some fault => exact Or.inl ⟨rfl, Or.inr hs⟩

theorem statement_carries {tokens : Tokens} (ht : tokens.length < bound) :
    x.Carries (statement expr tokens) (statement expr' (x.tokens tokens)) := by
  by_cases hend : x.more ≠ [] ∧ tokens = []
  · obtain ⟨hmore, rfl⟩ := hend
    exact Or.inr ⟨hmore, (statement_advances hexpr).waits⟩
  rw [statement, statement, x.place_tokens hend]
  apply (h tokens ht).bind
  intro target rest hrest
  have htarget := hexpr.length_lt hrest
  dsimp only
  apply (guard?_carries hexpr h (by omega)).bind
  intro guard guarded hguarded
  have hguard := (guard?_leaves hexpr rest _ _ hguarded).2.length_le
  dsimp only
  rw [x.eat?_tokens (by decide)]
  cases hequals : eat? .equals guarded with
  | some equals =>
    have hvalue := (eat?_suffix hequals).length_le
    dsimp only [Option.map_some]
    apply (skipped_carries hexpr h (by omega)).bind
    intro value final _
    exact declaration_carries (place_isSome htarget) target value guard final
  | none =>
    dsimp only [Option.map_none]
    split
    · exact .unexpected _ guarded
    · exact .ok target guarded

theorem blockStatement_carries (statements : List Expr) (tokens : Tokens)
    (ht : tokens.length < bound) :
    x.RoundCarries (blockStatement expr) (blockStatement expr statements tokens)
      (blockStatement expr' statements (x.tokens tokens)) := by
  rw [blockStatement, blockStatement, x.eat?_tokens (by decide)]
  cases eat? .endWord tokens with
  | some rest => exact Or.inl (.ok _ rest)
  | none =>
    apply RoundCarries.bind (statement_carries hexpr h ht)
    intro s rest _
    dsimp only
    by_cases hend : x.more ≠ [] ∧ rest.dropWhile isSeparator = []
    · -- either a separator was the last token, or one is still wanted
      rw [hend.2]
      dsimp only [eat?]
      split
      · exact Or.inr ⟨hend.1, s :: statements, rfl, (blockStatement_advances hexpr _).waits⟩
      case isFalse hhead =>
        left
        right
        refine ⟨hend.1, ?_⟩
        cases rest with
        | nil => exact waits_unexpected _
        | cons next rest =>
          have hnext : isSeparator next = false := by simpa using hhead
          rw [List.dropWhile_cons_of_neg (by simp [hnext])] at hend
          cases hend.2
    · have hrest : ¬(x.more ≠ [] ∧ rest = []) := by
        rintro ⟨hmore, rfl⟩
        exact hend ⟨hmore, rfl⟩
      rw [x.dropWhile_tokens (fun _ => rfl) hend, x.eat?_tokens (by decide), x.head?_tokens hrest,
        Option.map_map]
      cases eat? .endWord (rest.dropWhile isSeparator) with
      | some final => exact Or.inl (.ok _ final)
      | none =>
        have hsame : (isSeparator ∘ fun next : Located =>
            (⟨next.token, x.relocate next.span⟩ : Located)) = isSeparator := rfl
        dsimp only [Option.map_none]
        rw [hsame]
        split
        · exact Or.inl (.ok _ _)
        · exact Or.inl (.unexpected _ rest)

theorem block_carries {tokens : Tokens} (ht : tokens.length < bound) :
    x.Carries (block expr tokens) (block expr' (x.tokens tokens)) := by
  have hround := RoundAdvances.of_advances (blockStatement_advances hexpr)
  apply Carries.skip (iterate (blockStatement expr) []) (iterate (blockStatement expr') [])
    (iterate_waits hround (blockStatement_advances hexpr []).waits)
  exact iterate_carries hround (blockStatement_carries hexpr h) []
    (length_skipNewlines_lt ht)

omit hexpr h in
/-- At the end of the tokens a reader waits, or there is nothing that is added. -/
theorem Carries.nil {reader reader' : Reader α} (wanted : Expectation)
    (hr : reader [] = .error (Grammar.unexpected wanted []))
    (hr' : reader' [] = .error (Grammar.unexpected wanted [])) :
    x.Carries (reader []) (reader' (x.tokens [])) := by
  by_cases hmore : x.more = []
  · rw [tokens_nil, hmore, hr, hr']
    exact Or.inl ⟨rfl, placed_unexpected wanted []⟩
  · rw [hr]
    exact Or.inr ⟨hmore, waits_unexpected wanted⟩

theorem primary_carries {tokens : Tokens} (ht : tokens.length ≤ bound) :
    x.Carries (primary expr tokens) (primary expr' (x.tokens tokens)) := by
  cases tokens with
  | nil => exact Carries.nil _ rfl rfl
  | cons next rest =>
    obtain ⟨t, span⟩ := next
    have hrest : rest.length < bound := ht
    have hcall (callee : String) {more : Tokens} (hmore : more.length < bound) :
        x.Carries (arguments expr more >>= fun read => .ok (Expr.call callee read.1, read.2))
          (arguments expr' (x.tokens more) >>= fun read => .ok (Expr.call callee read.1, read.2)) :=
      (arguments_carries hexpr h hmore).bind fun args final _ => .ok _ final
    rw [tokens_cons, primary.eq_def, primary.eq_def]
    cases t with
    | operator o =>
      dsimp only
      rw [x.eat?_tokens (by decide)]
      cases hparen : eat? .leftParen rest with
      | some more =>
        have hmore := (eat?_suffix hparen).length_le
        exact hcall o.symbol (by omega)
      | none => exact .unexpected .expression (⟨.operator o, span⟩ :: rest)
    | identifier name =>
      dsimp only
      rw [x.eat?_tokens (by decide)]
      cases hparen : eat? .leftParen rest with
      | some more =>
        have hmore := (eat?_suffix hparen).length_le
        exact hcall name (by omega)
      | none => exact .ok (Expr.name name) rest
    | leftBracket => exact listLiteral_carries hexpr h hrest
    | leftParen => exact parenthesized_carries hexpr h hrest
    | doWord => exact block_carries hexpr h hrest
    | fnWord => exact lambda_carries hexpr h hrest
    | int _ | float _ | char _ | text _ | bool _ | underscore => exact .ok _ rest
    | _ => exact Or.inl ⟨rfl, Or.inr rfl⟩

omit hexpr h in
theorem methodName_carries (tokens : Tokens) :
    x.Carries (methodName tokens) (methodName (x.tokens tokens)) := by
  cases tokens with
  | nil => exact Carries.nil _ rfl rfl
  | cons next rest =>
    obtain ⟨t, span⟩ := next
    cases t with
    | identifier name => exact .ok name rest
    | _ => exact Or.inl ⟨rfl, Or.inr rfl⟩

theorem methodArguments_carries {tokens : Tokens} (ht : tokens.length < bound) :
    x.Carries (methodArguments expr tokens) (methodArguments expr' (x.tokens tokens)) := by
  rw [methodArguments, methodArguments, x.eat?_tokens (by decide)]
  cases hparen : eat? .leftParen tokens with
  | some rest =>
    have hrest := (eat?_suffix hparen).length_le
    exact arguments_carries hexpr h (by omega)
  | none => exact .ok [] tokens

theorem postfixRound_carries (e : Expr) (tokens : Tokens) (ht : tokens.length < bound) :
    x.RoundCarries (postfixRound expr) (postfixRound expr e tokens)
      (postfixRound expr' e (x.tokens tokens)) := by
  apply Or.inl
  rw [postfixRound, postfixRound, x.eat?_tokens (by decide)]
  cases hparen : eat? .leftParen tokens with
  | some rest =>
    have hrest := (eat?_suffix hparen).length_le
    apply (arguments_carries hexpr h (by omega)).bind
    intro args final _
    exact .ok _ final
  | none =>
    dsimp only [Option.map_none]
    rw [x.eat?_tokens (by decide)]
    cases hdot : eat? .dot tokens with
    | none => exact .ok _ tokens
    | some rest =>
      have hrest := (eat?_suffix hdot).length_le
      apply (methodName_carries rest).bind
      intro method more hmore
      have hname := methodName_advances.length_lt hmore
      dsimp only
      apply (methodArguments_carries hexpr h (by omega)).bind
      intro args final _
      exact .ok _ final

theorem postfixes_carries (e : Expr) {tokens : Tokens} (ht : tokens.length < bound) :
    x.Carries (postfixes expr e tokens) (postfixes expr' e (x.tokens tokens)) :=
  iterate_carries (postfixRound_advances hexpr)
    (postfixRound_carries hexpr h) e ht

theorem postfixed_carries {tokens : Tokens} (ht : tokens.length ≤ bound) :
    x.Carries (postfixed expr tokens) (postfixed expr' (x.tokens tokens)) := by
  apply (primary_carries hexpr h ht).bind
  intro e rest hrest
  have hprimary := (primary_advances hexpr).length_lt hrest
  exact postfixes_carries hexpr h e (by omega)

omit hexpr h in
/-- A line end after an operator is no more than nothing. -/
theorem lead_tokens (t : Token) (rest : Tokens) :
    Lead.of t ((x.tokens rest).head?.map Located.token) =
      Lead.of t (rest.head?.map Located.token) := by
  cases rest with
  | cons next more => rfl
  | nil =>
    have hnewline := x.newline
    rw [tokens_nil]
    cases hmore : x.more with
    | nil => rfl
    | cons next more =>
      rw [hmore] at hnewline
      have hnext : next.token = .newline := by simpa using hnewline next rfl
      rw [List.head?_cons, Option.map_some, hnext]
      cases t with
      | operator o => cases o <;> rfl
      | _ => rfl

theorem unary_carries {tokens : Tokens} (ht : tokens.length ≤ bound) :
    x.Carries (unary expr tokens) (unary expr' (x.tokens tokens)) := by
  induction tokens with
  | nil =>
    exact Carries.nil .expression rfl rfl
  | cons next rest ih =>
    have hrest : rest.length < bound := ht
    rw [tokens_cons, unary_cons, unary_cons, lead_tokens]
    cases hlead : Lead.of next.token (rest.head?.map Located.token) with
    | nothing => exact postfixed_carries hexpr h ht
    | called symbol => exact (ih (Nat.le_of_lt hrest)).bind fun e final _ => .ok _ final
    | numeral e =>
      cases rest with
      | nil => exact absurd hlead (Lead.of_none_ne_numeral _ e)
      | cons numeral more =>
        have hmore : more.length < bound := Nat.lt_of_succ_lt hrest
        exact postfixes_carries hexpr h e hmore

end Rules

section Chain

variable {operand operand' : Reader Expr} (ho : operand.Advances) {bound : Nat}
  (h : ∀ tokens, tokens.length < bound → x.Carries (operand tokens) (operand' (x.tokens tokens)))

omit ho h in
/-- A chain comes to an end before a line end. -/
theorem chainRound_newline {rest : Tokens} (h : Follows (· = .newline) rest)
    (links : List (Operator × Expr)) :
    chainRound operand links rest = .ok (.done links.reverse, rest) := by
  rw [chainRound.eq_def]
  split
  case h_1 o span more => simpa using h _ rfl
  case h_2 => rfl

include ho h

theorem chainRound_carries (links : List (Operator × Expr)) (tokens : Tokens)
    (ht : tokens.length < bound) :
    x.RoundCarries (chainRound operand) (chainRound operand links tokens)
      (chainRound operand' links (x.tokens tokens)) := by
  apply Or.inl
  cases tokens with
  | nil =>
    rw [tokens_nil, chainRound_newline x.newline]
    exact .ok _ []
  | cons next rest =>
    obtain ⟨t, span⟩ := next
    cases t with
    | operator o =>
      rw [tokens_cons, chainRound, chainRound]
      split
      · apply (skipped_carries ho h (Nat.lt_of_succ_lt ht)).bind
        intro e final _
        exact .ok _ final
      · exact .ok _ _
    | _ => exact .ok _ _

theorem chain_carries {tokens : Tokens} (ht : tokens.length < bound) :
    x.Carries (chain operand tokens) (chain operand' (x.tokens tokens)) := by
  apply (h tokens ht).bind
  intro first rest hrest
  have hfirst := ho.length_lt hrest
  apply (iterate_carries (chainRound_advances ho) (chainRound_carries ho h) [] (by omega)).bind
  intro links final _
  exact .ok _ final

end Chain

/-- Expressions carry over; a greater depth makes no difference, and neither does what is below. -/
theorem expressionOver_carries (bottom : Reader Expr) {depth depth' : Nat} (hd : depth ≤ depth')
    {tokens : Tokens} (ht : tokens.length < depth) :
    x.Carries (expressionWithin depth tokens)
      (expressionOver bottom depth' (x.tokens tokens)) := by
  induction depth generalizing depth' tokens with
  | zero => cases ht
  | succ depth ih =>
    obtain _ | depth' := depth'
    · cases hd
    have hexpr := expressionWithin_advances depth
    have hunary : ∀ part, part.length < depth + 1 → x.Carries
        (unary (expressionWithin depth) part)
        (unary (expressionOver bottom depth') (x.tokens part)) := by
      intro part hp
      refine unary_carries hexpr ?_ (Nat.le_of_lt_succ hp)
      intro tokens ht
      exact ih (Nat.le_of_succ_le_succ hd) ht
    exact chain_carries (unary_advances hexpr) hunary ht

theorem expression_carries (tokens : Tokens) :
    x.Carries (expression tokens) (expression (x.tokens tokens)) := by
  rw [expression, expression, expressionWithin_eq ((x.tokens tokens).length + 1)]
  refine expressionOver_carries _ ?_ (Nat.lt_succ_self _)
  rw [Extension.tokens, List.length_append, List.length_map]
  omega

end Extension

theorem expression_advances : expression.Advances where
  waits := (expressionWithin_advances 1).waits
  leaves tokens := (expressionWithin_advances _).leaves tokens

def Extension.moving (relocate : Span → Span) : Extension :=
  ⟨relocate, [], .nil⟩

def Extension.none : Extension :=
  .moving id

@[simp] theorem Extension.none_tokens (tokens : Tokens) :
    Extension.none.tokens tokens = tokens := by
  simp [Extension.tokens, Extension.none, Extension.moving]

theorem Extension.eq_of_none_carries {reader reader' : Reader α} {tokens : Tokens}
    (h : Extension.none.Carries (reader tokens) (reader' (Extension.none.tokens tokens))) :
    reader' tokens = reader tokens := by
  rw [Extension.none_tokens] at h
  rcases h with ⟨h, -⟩ | ⟨hmore, -⟩
  · rw [h]
    cases reader tokens with
    | ok pair => simp [result]
    | error s => simp [result, stop, Extension.none, Extension.moving]
  · exact absurd rfl hmore

/-- At less than the depth the reader below makes no difference. -/
theorem expressionOver_carries_none (bottom : Reader Expr) {depth : Nat} (tokens : Tokens)
    (h : tokens.length < depth) :
    Extension.none.Carries (expression tokens)
      (expressionOver bottom depth (Extension.none.tokens tokens)) :=
  Extension.expressionOver_carries bottom h (Nat.lt_succ_self tokens.length)

/-- The bound on the depth is never met: an expression is a chain of operands whose parts are
expressions. -/
theorem expression_eq (tokens : Tokens) : expression tokens = chain (unary expression) tokens := by
  have hunary : ∀ part, part.length < tokens.length + 1 →
      Extension.none.Carries (unary expression part)
        (unary (expressionWithin tokens.length) (Extension.none.tokens part)) := by
    intro part hp
    rw [expressionWithin_eq]
    exact Extension.unary_carries expression_advances (expressionOver_carries_none _)
      (Nat.le_of_lt_succ hp)
  have h := Extension.chain_carries (unary_advances expression_advances) hunary
    (Nat.lt_succ_self tokens.length)
  change chain (unary (expressionWithin tokens.length)) tokens = chain (unary expression) tokens
  exact Extension.eq_of_none_carries h

end Song.Grammar
