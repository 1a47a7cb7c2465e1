import Song.Proofs.Grammar.Debt
import Song.Proofs.Grammar.Joined
import Song.Proofs.Grammar.Operand

/-!
# Going on in a new line

A rule that came to the end of the tokens may go on with tokens in a new line. If
it can, it also goes on with the tokens that pay its debt: a wildcard where an
expression is wanted, and then the closing tokens. Here are the steps of this
argument, and the rules for arguments and lists.
-/
namespace Song

namespace Grammar

variable {α β σ : Type}

def Closer.words : Closer → List Token
  | rightParen => [.rightParen]
  | rightBracket => [.rightBracket]
  | endWord => [.endWord]
  | equals => [.equals, .underscore]

def Debt.words (debt : Debt) : List Token :=
  (if debt.wanted then [.underscore] else []) ++ debt.owed.flatMap Closer.words

def anywhere (t : Token) : Located :=
  ⟨t, .point 0⟩

def lineEnd : Located :=
  anywhere .newline

theorem lineEnd_token : lineEnd.token = .newline :=
  rfl

def Debt.tokens (debt : Debt) : Tokens :=
  debt.words.map anywhere

/-- The tokens that pay what is owed where nothing else is wanted. -/
def closing (owed : List Closer) : Tokens :=
  (⟨owed, false⟩ : Debt).tokens

theorem tokens_wanted (owed : List Closer) :
    (⟨owed, true⟩ : Debt).tokens = anywhere .underscore :: closing owed :=
  rfl

theorem closing_rightParen (owed : List Closer) :
    closing (.rightParen :: owed) = anywhere .rightParen :: closing owed :=
  rfl

theorem closing_rightBracket (owed : List Closer) :
    closing (.rightBracket :: owed) = anywhere .rightBracket :: closing owed :=
  rfl

theorem closing_equals (owed : List Closer) :
    closing (.equals :: owed) = anywhere .equals :: anywhere .underscore :: closing owed :=
  rfl

theorem closing_follows (owed : List Closer) : Follows Token.closes (closing owed) := by
  cases owed with
  | nil => exact .nil
  | cons closer rest => cases closer <;> exact .cons rfl _ _

theorem skipNewlines_tokens (debt : Debt) : skipNewlines debt.tokens = debt.tokens := by
  obtain ⟨owed, _ | _⟩ := debt
  · exact (closing_follows owed).skipNewlines_eq rfl
  · rfl

theorem closing_eat {t : Token} (ht : t.closes = false) (owed : List Closer) :
    eat? t (closing owed) = none :=
  (closing_follows owed).eat?_eq_none ht

/-- A wildcard is an operand, and nothing that closes goes on with it. -/
theorem unary_wildcard (owed : List Closer) :
    unary expression (anywhere .underscore :: closing owed) = .ok (.wildcard, closing owed) := by
  have hprimary : Reads (primary expression) [.underscore] .wildcard (Token.endsOperand false) :=
    .single fun _ _ _ => rfl
  have hread := unary_of_not_operator (postfixed_reads hprimary) rfl
  exact hread [anywhere .underscore] (closing owed) rfl
    ((closing_follows owed).mono endsOperand_of_closes)

theorem expression_wildcard (owed : List Closer) :
    expression (anywhere .underscore :: closing owed) = .ok (.wildcard, closing owed) := by
  have hlinks : iterate (chainRound (unary expression)) [] (closing owed) =
      .ok ([], closing owed) :=
    Runs.iterate_eq (.done (chainRound_done (closing_follows owed) []))
  rw [expression_eq, chain, bind_of_eq_ok (unary_wildcard owed)]
  dsimp only
  rw [bind_of_eq_ok hlinks]
  rfl

theorem skipped_wildcard (owed : List Closer) :
    expression (skipNewlines (⟨owed, true⟩ : Debt).tokens) = .ok (.wildcard, closing owed) := by
  rw [skipNewlines_tokens]
  exact expression_wildcard owed

/-! ### Crossing into the new line -/

theorem skipNewlines_append {tokens : Tokens} (h : skipNewlines tokens ≠ []) (more : Tokens) :
    skipNewlines (tokens ++ more) = skipNewlines tokens ++ more := by
  rw [skipNewlines] at h
  rw [skipNewlines, List.dropWhile_append, if_neg (by simpa using h)]
  rfl

/-- Tokens in a new line make a difference to the reader only where it waits for them. -/
def Reader.Carried (reader : Reader α) : Prop :=
  ∀ (x : Extension) tokens, x.Carries (reader tokens) (reader (x.tokens tokens))

theorem expression_carried : expression.Carried :=
  fun x tokens => x.expression_carries tokens

theorem Reader.Carried.skipped {reader : Reader α} (h : reader.Carried) (ha : reader.Advances) :
    Reader.Carried fun tokens => reader (skipNewlines tokens) :=
  fun x tokens => .skip reader reader ha.waits (h x (skipNewlines tokens))

/-- The reader waits at the end of the tokens, or takes no token of the new line. -/
theorem Reader.Carried.cases {reader : Reader α} (h : reader.Carried) {tokens more rest : Tokens}
    {value : α} (hr : reader (tokens ++ lineEnd :: more) = .ok (value, rest)) :
    Waits (reader tokens) ∨
      ∃ left, reader tokens = .ok (value, left) ∧ rest = left ++ lineEnd :: more := by
  have hcarries := h (.ofTokens lineEnd lineEnd_token more) tokens
  rw [Extension.ofTokens_tokens, hr] at hcarries
  rcases hcarries with ⟨heq, -⟩ | ⟨-, hwaits⟩
  · cases hread : reader tokens with
    | error stop => rw [hread] at heq; cases heq
    | ok pair =>
      rw [hread, Extension.result, Extension.ofTokens_tokens] at heq
      cases heq
      exact Or.inr ⟨pair.2, rfl, rfl⟩
  · exact Or.inl hwaits

theorem Reader.Carried.ok {reader : Reader α} (h : reader.Carried) {tokens left : Tokens}
    {value : α} (hr : reader tokens = .ok (value, left)) (more : Tokens) :
    reader (tokens ++ lineEnd :: more) = .ok (value, left ++ lineEnd :: more) := by
  have hcarries := h (.ofTokens lineEnd lineEnd_token more) tokens
  rw [Extension.ofTokens_tokens, hr] at hcarries
  rcases hcarries with ⟨heq, -⟩ | ⟨-, hwaits⟩
  · rw [heq, Extension.result, Extension.ofTokens_tokens]
  · exact absurd hwaits (not_waits_ok _)

/-- A reader that waits at the end of the tokens, and goes on in the new line, does so also with
the tokens that pay the debt: of these it takes all but what is still owed after it, and its value
fits the other one. -/
def Crosses (fits : α → α → Prop) (before : Debt) (owed : List Closer) (reader : Reader α)
    (tokens : Tokens) : Prop :=
  Waits (reader tokens) → ∀ more value rest,
    reader (tokens ++ lineEnd :: more) = .ok (value, rest) →
      ∃ value', reader (tokens ++ lineEnd :: (before.afterAll tokens).tokens) =
        .ok (value', closing owed) ∧ fits value value'

/-- Of the tokens that pay the debt the reader takes all but what is still owed after it, and its
value fits the given one. -/
def Closes (fits : α → α → Prop) (debt : Debt) (owed : List Closer) (reader : Reader α)
    (value : α) : Prop :=
  ∃ value', reader debt.tokens = .ok (value', closing owed) ∧ fits value value'

namespace Crosses

variable {fits : α → α → Prop} {before : Debt} {owed : List Closer} {reader : Reader α}
  {tokens : Tokens}

theorem of_not_waits (h : ¬Waits (reader tokens)) : Crosses fits before owed reader tokens :=
  fun hwaits => absurd hwaits h

/-- Where nothing was read, a reader that takes no line end does not go on. -/
theorem nil (hr : ∀ more, ∃ stop, reader (lineEnd :: more) = .error stop) :
    Crosses fits before owed reader [] := by
  intro _ more value rest hread
  obtain ⟨stop, hstop⟩ := hr more
  rw [List.nil_append, hstop] at hread
  cases hread

theorem congr {reader' : Reader α}
    (hr : ∀ more, Follows (· = .newline) more → reader (tokens ++ more) = reader' (tokens ++ more))
    (h : Crosses fits before owed reader' tokens) : Crosses fits before owed reader tokens := by
  intro hwaits more value rest hread
  have hsame := hr [] .nil
  have hline (more : Tokens) := hr (lineEnd :: more) (.cons rfl _ more)
  rw [List.append_nil] at hsame
  rw [hsame] at hwaits
  rw [hline] at hread ⊢
  exact h hwaits more value rest hread

/-- A first token that another reader goes on after, if it ends the line or the next one in it is
seen. -/
theorem cons_of_follows {next : Located} {rest : Tokens} (inner : Reader α)
    (hr : ∀ more, Follows (· = .newline) more →
      reader (next :: (rest ++ more)) = inner (rest ++ more))
    (h : Crosses fits (before.after next.token) owed inner rest) :
    Crosses fits before owed reader (next :: rest) := by
  intro hwaits more value final hread
  have hsame := hr [] .nil
  have hline (more : Tokens) := hr (lineEnd :: more) (.cons rfl _ more)
  rw [List.append_nil] at hsame
  rw [hsame] at hwaits
  rw [List.cons_append, hline] at hread ⊢
  exact h hwaits more value final hread

/-- A first token that another reader goes on after. -/
theorem cons {next : Located} {rest : Tokens} {inner : Reader α}
    (hr : ∀ more, reader (next :: more) = inner more)
    (h : Crosses fits (before.after next.token) owed inner rest) :
    Crosses fits before owed reader (next :: rest) :=
  cons_of_follows inner (fun more _ => hr (rest ++ more)) h

theorem skip {reader : Reader α}
    (hend : ∀ more value rest, reader more = .ok (value, rest) →
      Closes fits before owed reader value)
    (h : skipNewlines tokens ≠ [] → Crosses fits before owed reader (skipNewlines tokens)) :
    Crosses fits before owed (fun tokens => reader (skipNewlines tokens)) tokens := by
  intro hwaits more value rest hread
  dsimp only at hread ⊢
  by_cases hskip : skipNewlines tokens = []
  · have hdebt : before.afterAll tokens = before := by
      rw [← Debt.afterAll_skipNewlines, hskip, Debt.afterAll_nil]
    have hall (later : Tokens) :
        skipNewlines (tokens ++ lineEnd :: later) = skipNewlines later := by
      rw [skipNewlines] at hskip
      rw [skipNewlines, List.dropWhile_append, hskip]
      rfl
    rw [hall] at hread
    rw [hdebt, hall, skipNewlines_tokens]
    exact hend _ _ _ hread
  · rw [skipNewlines_append hskip] at hread
    rw [skipNewlines_append hskip, ← Debt.afterAll_skipNewlines]
    exact h hskip hwaits more value rest hread

/-- A reader and what goes on after it: the end of the tokens is in the one or in the other. -/
theorem bind {first : Reader β} {next : β × Tokens → Except Stop (α × Tokens)}
    {agrees : β → β → Prop} {between : List Closer} (hcarried : first.Carried)
    (hsettles : Settles before between first)
    (hfirst : Crosses agrees before between first tokens)
    (hclosing : ∀ read read' rest value final, agrees read read' →
      next (read, rest) = .ok (value, final) →
        Closes fits ⟨between, false⟩ owed (fun rest => next (read', rest)) value)
    (hnext : ∀ read left, first tokens = .ok (read, left) →
      Crosses fits ⟨between, false⟩ owed (fun rest => next (read, rest)) left) :
    Crosses fits before owed (fun tokens => first tokens >>= next) tokens := by
  intro hwaits more value final hread
  cases hr : first (tokens ++ lineEnd :: more) with
  | error stop =>
    dsimp only at hread
    rw [hr] at hread
    cases hread
  | ok pair =>
    obtain ⟨read, rest⟩ := pair
    have hgoes : next (read, rest) = .ok (value, final) := (bind_of_eq_ok hr).symm.trans hread
    rcases hcarried.cases hr with hfirstWaits | ⟨left, hleft, rfl⟩
    · obtain ⟨read', hread', hagrees⟩ := hfirst hfirstWaits more read rest hr
      dsimp only
      rw [bind_of_eq_ok hread']
      exact hclosing read read' rest value final hagrees hgoes
    · have htotal := hsettles tokens read left hleft
      dsimp only at hwaits ⊢
      rw [bind_of_eq_ok hleft] at hwaits
      rw [bind_of_eq_ok (hcarried.ok hleft _), ← htotal]
      exact hnext read left hleft hwaits more value final hgoes

end Crosses

/-- The second expression can stand in a pattern if the first one can. -/
def KeepsPattern (e e' : Expr) : Prop :=
  e.nonPattern? = none → e'.nonPattern? = none

def KeepsPatterns (es es' : List Expr) : Prop :=
  (∀ e ∈ es, e.nonPattern? = none) → ∀ e ∈ es', e.nonPattern? = none

theorem nonPatternAmong?_eq_none {es : List Expr} :
    Expr.nonPatternAmong? es = none ↔ ∀ e ∈ es, e.nonPattern? = none := by
  induction es with
  | nil => simp [Expr.nonPatternAmong?]
  | cons e rest ih => simp [Expr.nonPatternAmong?, ih]

theorem keeps_wildcard (e : Expr) : KeepsPattern e .wildcard :=
  fun _ => rfl

/-- What comes after empty lines; a wildcard stands for what does not come. -/
theorem Crosses.skipped {owed : List Closer} {reader : Reader Expr} {tokens : Tokens}
    (hw : reader (anywhere .underscore :: closing owed) = .ok (.wildcard, closing owed))
    (h : Crosses KeepsPattern ⟨owed, true⟩ owed reader (skipNewlines tokens)) :
    Crosses KeepsPattern ⟨owed, true⟩ owed (fun tokens => reader (skipNewlines tokens)) tokens :=
  .skip (fun _ e _ _ => ⟨.wildcard, hw, keeps_wildcard e⟩) fun _ => h

/-- A wildcard after some of the items. -/
theorem KeepsPatterns.wildcard {items es : List Expr} (hs : items ⊆ es) :
    KeepsPatterns es (.wildcard :: items).reverse := by
  intro hall part hpart
  rw [List.mem_reverse, List.mem_cons] at hpart
  rcases hpart with rfl | hpart
  · rfl
  · exact hall part (hs hpart)

/-- An item that fits one of the items, after others of them. -/
theorem KeepsPatterns.item {items es : List Expr} {e e' : Expr} (h : KeepsPattern e e')
    (hs : e :: items ⊆ es) : KeepsPatterns es (e' :: items).reverse := by
  intro hall part hpart
  rw [List.mem_reverse, List.mem_cons] at hpart
  rcases hpart with rfl | hpart
  · exact h (hall e (hs List.mem_cons_self))
  · exact hall part (hs (List.mem_cons_of_mem e hpart))

def Results (P : α → Prop) (result : Except Stop (α × Tokens)) : Prop :=
  ∀ value rest, result = .ok (value, rest) → P value

theorem Results.ok {P : α → Prop} {value : α} (h : P value) (rest : Tokens) :
    Results P (.ok (value, rest)) := by
  intro v r hr
  cases hr
  exact h

theorem Results.error {P : α → Prop} (stop : Stop) : Results P (.error stop) := by
  intro v r hr
  cases hr

theorem Results.bind {P : α → Prop} {first : Except Stop β} {next : β → Except Stop (α × Tokens)}
    (h : ∀ read, Results P (next read)) : Results P (first >>= next) := by
  cases first with
  | error stop => exact .error stop
  | ok read => exact h read

theorem Results.again {S : σ → Prop} {Q : β → Prop} {state : σ} (h : S state) (rest : Tokens) :
    Results (Round.Holds S Q) (.ok (.again state, rest)) := by
  intro read left hr
  cases hr
  exact h

theorem Results.done {S : σ → Prop} {Q : β → Prop} {result : β} (h : Q result) (rest : Tokens) :
    Results (Round.Holds S Q) (.ok (.done result, rest)) := by
  intro read left hr
  cases hr
  exact h

/-- What every round of a repetition preserves holds of its result. -/
theorem iterate_results {S : σ → Prop} {Q : β → Prop} {round : σ → Reader (Round σ β)}
    (hround : ∀ state tokens, S state → Results (Round.Holds S Q) (round state tokens))
    {state : σ} (hs : S state) (tokens : Tokens) : Results Q (iterate round state tokens) := by
  rw [iterate]
  generalize tokens.length + 1 = bound
  induction bound generalizing state tokens with
  | zero => exact .error _
  | succ bound ih =>
    rw [repeatAtMost]
    split
    case h_1 => exact .error _
    case h_2 result left hr =>
      have hresult : Q result := hround state tokens hs _ _ hr
      exact .ok hresult left
    case h_3 later left hr => exact ih (hround state tokens hs _ _ hr) left

/-- A token that has to come next changes nothing in the value. -/
theorem eq_of_bind_expect {t : Token} {tokens rest : Tokens} {value read : α}
    (h : (expect t tokens >>= fun final => .ok (value, final)) = .ok (read, rest)) :
    read = value := by
  cases hclose : expect t tokens with
  | error stop => rw [hclose] at h; cases h
  | ok final => rw [hclose] at h; cases h; rfl

/-- A token that is not the one that is wanted is no end of the tokens. -/
theorem not_waits_unexpected_cons (wanted : Expectation) (next : Located) (rest : Tokens) :
    ¬Waits (.error (unexpected wanted (next :: rest)) : Except Stop α) := by
  rintro ⟨stop, hstop, other, hfault⟩
  cases hstop
  cases hfault

theorem not_waits_expect_cons (t : Token) (next : Located) (rest : Tokens)
    (f : Tokens → α × Tokens) :
    ¬Waits (expect t (next :: rest) >>= fun final => .ok (f final)) := by
  rw [expect, eat?]
  split_ifs
  · exact not_waits_ok _
  · exact not_waits_unexpected_cons _ next rest

def moreItems (items : List Expr) : Reader (List Expr) := fun tokens =>
  match eat? .comma tokens with
  | some rest => iterate (item expression .rightParen) items (skipNewlines rest)
  | none => expect .rightParen tokens >>= fun rest => .ok (items.reverse, rest)

theorem iterate_item_eq (items : List Expr) (tokens : Tokens) :
    iterate (item expression .rightParen) items tokens =
      expression tokens >>= fun read => moreItems (read.1 :: items) (skipNewlines read.2) := by
  rw [iterate_eq (.of_advances (item_advances expression_advances .rightParen)), item]
  cases expression tokens with
  | error stop => rfl
  | ok pair =>
    obtain ⟨e, rest⟩ := pair
    rw [bind_of_eq_ok rfl, bind_of_eq_ok rfl, moreItems]
    dsimp only
    cases eat? .comma (skipNewlines rest) with
    | some more => rfl
    | none => cases expect .rightParen (skipNewlines rest) <;> rfl

theorem iterate_item_subset (items : List Expr) (tokens : Tokens) :
    Results (items ⊆ ·) (iterate (item expression .rightParen) items tokens) := by
  refine iterate_results (S := (items ⊆ ·)) (fun state tokens hs => .bind fun read => ?_)
    (List.Subset.refl items) tokens
  have hmore : items ⊆ read.1 :: state := fun part hpart => List.mem_cons_of_mem _ (hs hpart)
  dsimp only
  split
  · exact .again hmore _
  · apply Results.bind
    intro rest
    exact .done (fun part hpart => List.mem_reverse.2 (hmore hpart)) rest

theorem moreItems_subset (items : List Expr) (tokens : Tokens) :
    Results (items ⊆ ·) (moreItems items tokens) := by
  rw [moreItems]
  split
  · exact iterate_item_subset items _
  · apply Results.bind
    intro rest
    exact .ok (fun part hpart => List.mem_reverse.2 hpart) rest

theorem moreItems_closing (items : List Expr) (owed : List Closer) :
    moreItems items (closing (.rightParen :: owed)) = .ok (items.reverse, closing owed) :=
  rfl

theorem iterate_item_closing (items : List Expr) (owed : List Closer) :
    iterate (item expression .rightParen) items (⟨.rightParen :: owed, true⟩ : Debt).tokens =
      .ok ((Expr.wildcard :: items).reverse, closing owed) := by
  rw [iterate_item_eq, tokens_wanted, bind_of_eq_ok (expression_wildcard _)]
  exact moreItems_closing _ owed

def moreHeads (heads : List Expr) : Reader Expr := fun tokens =>
  match eat? .bar tokens with
  | some rest => expression (skipNewlines rest) >>= fun read =>
    expect .rightBracket (skipNewlines read.2) >>= fun final =>
      .ok (.cons heads.reverse read.1, final)
  | none =>
    match eat? .comma tokens with
    | some rest => iterate (listItem expression) heads (skipNewlines rest)
    | none => expect .rightBracket tokens >>= fun final => .ok (.list heads.reverse, final)

theorem iterate_listItem_eq (heads : List Expr) (tokens : Tokens) :
    iterate (listItem expression) heads tokens =
      expression tokens >>= fun read => moreHeads (read.1 :: heads) (skipNewlines read.2) := by
  rw [iterate_eq (.of_advances (listItem_advances expression_advances)), listItem]
  cases expression tokens with
  | error stop => rfl
  | ok pair =>
    obtain ⟨e, rest⟩ := pair
    rw [bind_of_eq_ok rfl, bind_of_eq_ok rfl, moreHeads]
    dsimp only
    cases eat? .bar (skipNewlines rest) with
    | some more =>
      dsimp only
      cases expression (skipNewlines more) with
      | error stop => rfl
      | ok read =>
        rw [bind_of_eq_ok rfl, bind_of_eq_ok rfl]
        cases expect .rightBracket (skipNewlines read.2) <;> rfl
    | none =>
      dsimp only
      cases eat? .comma (skipNewlines rest) with
      | some more => rfl
      | none => cases expect .rightBracket (skipNewlines rest) <;> rfl

/-- A list is a pattern only if the items that were read are patterns. -/
def Holds (heads : List Expr) (e : Expr) : Prop :=
  e.nonPattern? = none → ∀ part ∈ heads, part.nonPattern? = none

theorem holds_list (heads : List Expr) : Holds heads (.list heads.reverse) := by
  intro he part hpart
  rw [Expr.nonPattern?, nonPatternAmong?_eq_none] at he
  exact he part (List.mem_reverse.2 hpart)

theorem holds_cons (heads : List Expr) (tail : Expr) : Holds heads (.cons heads.reverse tail) := by
  intro he part hpart
  rw [Expr.nonPattern?, Option.or_eq_none_iff, nonPatternAmong?_eq_none] at he
  exact he.1 part (List.mem_reverse.2 hpart)

theorem iterate_listItem_holds (heads : List Expr) (tokens : Tokens) :
    Results (Holds heads) (iterate (listItem expression) heads tokens) := by
  refine iterate_results (S := (heads ⊆ ·)) (fun state tokens hs => .bind fun read => ?_)
    (List.Subset.refl heads) tokens
  have hmore : heads ⊆ read.1 :: state := fun part hpart => List.mem_cons_of_mem _ (hs hpart)
  dsimp only
  split
  · exact .bind fun last => .bind fun rest =>
      .done (fun he part hpart => holds_cons _ _ he part (hmore hpart)) rest
  · split
    · exact .again hmore _
    · apply Results.bind
      intro rest
      exact .done (fun he part hpart => holds_list _ he part (hmore hpart)) rest

theorem moreHeads_holds (heads : List Expr) (tokens : Tokens) :
    Results (Holds heads) (moreHeads heads tokens) := by
  rw [moreHeads]
  split
  · exact .bind fun last => .bind fun rest => .ok (holds_cons heads last.1) rest
  · split
    · exact iterate_listItem_holds heads _
    · exact .bind fun rest => .ok (holds_list heads) rest

theorem moreHeads_closing (heads : List Expr) (owed : List Closer) :
    moreHeads heads (closing (.rightBracket :: owed)) = .ok (.list heads.reverse, closing owed) :=
  rfl

theorem iterate_listItem_closing (heads : List Expr) (owed : List Closer) :
    iterate (listItem expression) heads (⟨.rightBracket :: owed, true⟩ : Debt).tokens =
      .ok (.list (Expr.wildcard :: heads).reverse, closing owed) := by
  rw [iterate_listItem_eq, tokens_wanted, bind_of_eq_ok (expression_wildcard _)]
  exact moreHeads_closing _ owed

/-- A list of the items that were read, with one that fits after them. -/
theorem Holds.keeps {heads : List Expr} {e last last' : Expr} (h : Holds (last :: heads) e)
    (hl : KeepsPattern last last') : KeepsPattern e (.list (last' :: heads).reverse) := by
  intro he
  rw [Expr.nonPattern?, nonPatternAmong?_eq_none]
  intro part hpart
  rw [List.mem_reverse, List.mem_cons] at hpart
  rcases hpart with rfl | hpart
  · exact hl (h he last List.mem_cons_self)
  · exact h he part (List.mem_cons_of_mem _ hpart)

theorem Holds.keeps_wildcard {heads : List Expr} {e : Expr} (h : Holds heads e) :
    KeepsPattern e (.list (.wildcard :: heads).reverse) := by
  intro he
  rw [Expr.nonPattern?, nonPatternAmong?_eq_none]
  intro part hpart
  rw [List.mem_reverse, List.mem_cons] at hpart
  rcases hpart with rfl | hpart
  · rfl
  · exact h he part hpart

theorem skipped_carried : Reader.Carried fun tokens => expression (skipNewlines tokens) :=
  expression_carried.skipped expression_advances

theorem skipped_settles (owed : List Closer) (wanted : Bool) :
    Settles ⟨owed, wanted⟩ owed fun tokens => expression (skipNewlines tokens) :=
  (expression_settles owed wanted).skipped

/-- The value, if the closing token comes at once, or what the reader gives. -/
def orEmpty (t : Token) (empty : α) (reader : Reader α) : Reader α := fun tokens =>
  match eat? t tokens with
  | some rest => .ok (empty, rest)
  | none => reader tokens

theorem orEmpty_crosses {t : Token} {empty : α} {reader : Reader α} {fits : α → α → Prop}
    {before : Debt} {owed : List Closer} {tokens : Tokens}
    (hend : ∀ value, Closes fits before owed (orEmpty t empty reader) value)
    (h : Crosses fits before owed reader (skipNewlines tokens)) :
    Crosses fits before owed (fun tokens => orEmpty t empty reader (skipNewlines tokens))
      tokens := by
  apply Crosses.skip (fun _ value _ _ => hend value)
  intro hne
  cases hskip : skipNewlines tokens with
  | nil => exact absurd hskip hne
  | cons next more =>
    rw [hskip] at h
    by_cases hclose : next.token = t
    · apply Crosses.of_not_waits
      rw [orEmpty, eat?, if_pos hclose]
      exact not_waits_ok _
    · refine .congr ?_ h
      intro later _
      rw [orEmpty, List.cons_append, eat?, if_neg hclose]

section Rules

variable {bound : Nat}
  (h : ∀ tokens, tokens.length < bound → ∀ owed wanted,
    Crosses KeepsPattern ⟨owed, wanted⟩ owed expression tokens)

include h

theorem skipped_crosses {tokens : Tokens} (ht : tokens.length < bound) (owed : List Closer) :
    Crosses KeepsPattern ⟨owed, true⟩ owed (fun tokens => expression (skipNewlines tokens))
      tokens :=
  .skipped (expression_wildcard owed) (h _ (Extension.length_skipNewlines_lt ht) owed true)

theorem iterate_item_crosses (items : List Expr) {tokens : Tokens} (ht : tokens.length < bound)
    (owed : List Closer) (wanted : Bool) :
    Crosses KeepsPatterns ⟨.rightParen :: owed, wanted⟩ owed
      (iterate (item expression .rightParen) items) tokens := by
  rw [funext (iterate_item_eq items)]
  apply Crosses.bind expression_carried (expression_settles _ wanted) (h tokens ht _ wanted)
  · intro e e' rest es final hkeeps hread
    exact ⟨_, moreItems_closing _ owed, .item hkeeps (moreItems_subset _ _ _ _ hread)⟩
  · intro e left hread
    have hlt := expression_advances.length_lt hread
    refine .skip ?_ fun hne => ?_
    · intro more es rest hmore
      exact ⟨_, moreItems_closing _ owed, .item id (moreItems_subset _ _ _ _ hmore)⟩
    cases hskip : skipNewlines left with
    | nil => exact absurd hskip hne
    | cons next more =>
      have hmore : (skipNewlines more).length < tokens.length := by
        have hle := (skipNewlines_suffix left).length_le
        have hle' := (skipNewlines_suffix more).length_le
        rw [hskip, List.length_cons] at hle
        omega
      by_cases hcomma : next.token = .comma
      · have hgoes (later : Tokens) : moreItems (e :: items) (next :: later) =
            iterate (item expression .rightParen) (e :: items) (skipNewlines later) := by
          rw [moreItems, eat?, if_pos hcomma]
        apply Crosses.cons hgoes
        rw [hcomma]
        apply Crosses.skip
        · intro final es rest hread
          exact ⟨_, iterate_item_closing _ owed, .wildcard (iterate_item_subset _ _ _ _ hread)⟩
        · intro _
          exact iterate_item_crosses (e :: items) (Nat.lt_trans hmore ht) owed true
      · apply Crosses.of_not_waits
        rw [moreItems, eat?, if_neg hcomma]
        exact not_waits_expect_cons _ next more _
termination_by tokens.length

theorem arguments_crosses {tokens : Tokens} (ht : tokens.length < bound) (owed : List Closer) :
    Crosses KeepsPatterns ⟨.rightParen :: owed, true⟩ owed (arguments expression) tokens := by
  refine orEmpty_crosses ?_
    (iterate_item_crosses h [] (Extension.length_skipNewlines_lt ht) owed true)
  intro es
  exact ⟨_, iterate_item_closing [] owed, .wildcard (List.nil_subset es)⟩

/-- An expression and what closes it, after empty lines. -/
theorem enclosed_crosses {f : Expr → Expr}
    (hf : ∀ e e', KeepsPattern e e' → KeepsPattern (f e) (f e')) {closer : Closer} {t : Token}
    (hc : ∀ owed, closing (closer :: owed) = anywhere t :: closing owed) {tokens : Tokens}
    (ht : tokens.length < bound) (owed : List Closer) :
    Crosses KeepsPattern ⟨closer :: owed, true⟩ owed (fun tokens =>
      expression (skipNewlines tokens) >>= fun read =>
        expect t (skipNewlines read.2) >>= fun final => .ok (f read.1, final)) tokens := by
  have hclose (e : Expr) : (expect t (closing (closer :: owed)) >>= fun final =>
      (.ok (f e, final) : Except Stop (Expr × Tokens))) = .ok (f e, closing owed) := by
    rw [hc, anywhere, expect_cons]
    rfl
  apply Crosses.bind skipped_carried (skipped_settles _ true) (skipped_crosses h ht _)
  · intro e e' rest value final hkeeps hread
    rw [eq_of_bind_expect hread]
    refine ⟨f e', ?_, hf e e' hkeeps⟩
    dsimp only
    rw [skipNewlines_tokens]
    exact hclose e'
  · intro e left _
    let close : Reader Expr := fun tokens => expect t tokens >>= fun final => .ok (f e, final)
    change Crosses _ _ _ (fun tokens => close (skipNewlines tokens)) left
    apply Crosses.skip
    · intro more value rest hread
      rw [eq_of_bind_expect hread]
      exact ⟨f e, hclose e, id⟩
    · intro hne
      cases hskip : skipNewlines left with
      | nil => exact absurd hskip hne
      | cons next more => exact .of_not_waits (not_waits_expect_cons t next more _)

theorem parenthesized_crosses {tokens : Tokens} (ht : tokens.length < bound)
    (owed : List Closer) :
    Crosses KeepsPattern ⟨.rightParen :: owed, true⟩ owed (parenthesized expression) tokens :=
  enclosed_crosses h (f := id) (fun _ _ hkeeps => hkeeps) closing_rightParen ht owed

theorem iterate_listItem_crosses (heads : List Expr) {tokens : Tokens}
    (ht : tokens.length < bound) (owed : List Closer) (wanted : Bool) :
    Crosses KeepsPattern ⟨.rightBracket :: owed, wanted⟩ owed (iterate (listItem expression) heads)
      tokens := by
  rw [funext (iterate_listItem_eq heads)]
  apply Crosses.bind expression_carried (expression_settles _ wanted) (h tokens ht _ wanted)
  · intro e e' rest value final hkeeps hread
    exact ⟨_, moreHeads_closing _ owed, (moreHeads_holds _ _ _ _ hread).keeps hkeeps⟩
  · intro e left hread
    have hlt := expression_advances.length_lt hread
    refine .skip ?_ fun hne => ?_
    · intro more value rest hmore
      exact ⟨_, moreHeads_closing _ owed, (moreHeads_holds _ _ _ _ hmore).keeps id⟩
    cases hskip : skipNewlines left with
    | nil => exact absurd hskip hne
    | cons next more =>
      have hmore : more.length < tokens.length := by
        have hle := (skipNewlines_suffix left).length_le
        rw [hskip, List.length_cons] at hle
        omega
      have hlater : (skipNewlines more).length < tokens.length :=
        Extension.length_skipNewlines_lt hmore
      by_cases hbar : next.token = .bar
      · have hgoes (later : Tokens) : moreHeads (e :: heads) (next :: later) =
            expression (skipNewlines later) >>= fun read =>
              expect .rightBracket (skipNewlines read.2) >>= fun final =>
                .ok (.cons (e :: heads).reverse read.1, final) := by
          rw [moreHeads, eat?, if_pos hbar]
        apply Crosses.cons hgoes
        rw [hbar]
        refine enclosed_crosses h (f := .cons (e :: heads).reverse) ?_ closing_rightBracket
          (Nat.lt_trans hmore ht) owed
        intro tail tail' hkeeps hcons
        rw [Expr.nonPattern?, Option.or_eq_none_iff] at hcons ⊢
        exact ⟨hcons.1, hkeeps hcons.2⟩
      by_cases hcomma : next.token = .comma
      · have hgoes (later : Tokens) : moreHeads (e :: heads) (next :: later) =
            iterate (listItem expression) (e :: heads) (skipNewlines later) := by
          rw [moreHeads, eat?, if_neg hbar, eat?, if_pos hcomma]
        apply Crosses.cons hgoes
        rw [hcomma]
        apply Crosses.skip
        · intro final value rest hread
          have hholds := iterate_listItem_holds _ _ _ _ hread
          exact ⟨_, iterate_listItem_closing _ owed, hholds.keeps_wildcard⟩
        · intro _
          exact iterate_listItem_crosses (e :: heads) (Nat.lt_trans hlater ht) owed true
      · apply Crosses.of_not_waits
        rw [moreHeads, eat?, if_neg hbar, eat?, if_neg hcomma]
        exact not_waits_expect_cons _ next more _
termination_by tokens.length

theorem listLiteral_crosses {tokens : Tokens} (ht : tokens.length < bound) (owed : List Closer) :
    Crosses KeepsPattern ⟨.rightBracket :: owed, true⟩ owed (listLiteral expression) tokens := by
  refine orEmpty_crosses ?_
    (iterate_listItem_crosses h [] (Extension.length_skipNewlines_lt ht) owed true)
  intro e
  exact ⟨_, iterate_listItem_closing [] owed, fun _ => rfl⟩

end Rules

end Grammar
end Song
