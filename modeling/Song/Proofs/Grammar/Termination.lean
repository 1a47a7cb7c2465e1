import Song.Proofs.Grammar.Faults
import Song.Proofs.Grammar.Levels

/-!
# Reading comes to an end

The bounds on how often a round is repeated and on how deep expressions are nested are never met:
without them every rule reads the same. A rule that succeeds takes a token, and the rounds of a
repetition start at tokens of their own, so that there are no more of them than tokens.
-/
namespace Song

namespace Grammar

variable {α β σ : Type}

/-- A repetition that nothing bounds: the tokens that were left at the start of each round, and how
the last one ended. -/
inductive Rounds (round : σ → Reader (Round σ β)) :
    σ → Tokens → List Tokens → Except Stop (β × Tokens) → Prop
  | fails {state : σ} {tokens : Tokens} {stop : Stop} (h : round state tokens = .error stop) :
    Rounds round state tokens [tokens] (.error stop)
  | done {state : σ} {tokens rest : Tokens} {result : β}
    (h : round state tokens = .ok (.done result, rest)) :
    Rounds round state tokens [tokens] (.ok (result, rest))
  | again {state later : σ} {tokens rest : Tokens} {starts : List Tokens}
    {outcome : Except Stop (β × Tokens)} (h : round state tokens = .ok (.again later, rest))
    (hmore : Rounds round later rest starts outcome) :
    Rounds round state tokens (tokens :: starts) outcome

/-- A repetition comes to an end, and the bound that it is given makes no difference. -/
theorem exists_rounds {round : σ → Reader (Round σ β)} (hround : RoundAdvances round) (state : σ)
    (tokens : Tokens) :
    ∃ starts, Rounds round state tokens starts (iterate round state tokens) := by
  rw [iterate_eq hround]
  cases h : round state tokens with
  | error stop => exact ⟨_, .fails h⟩
  | ok pair =>
    obtain ⟨_ | _, rest⟩ := pair
    case again later =>
      have hlt := hround.again h
      obtain ⟨starts, hmore⟩ := exists_rounds hround later rest
      exact ⟨_, .again h hmore⟩
    case done result => exact ⟨_, .done h⟩
termination_by tokens.length

namespace Rounds

variable {round : σ → Reader (Round σ β)} {state : σ} {tokens : Tokens} {starts : List Tokens}
  {outcome : Except Stop (β × Tokens)}

/-- Rounds start at ends of the tokens. -/
theorem suffix (hround : RoundAdvances round) (h : Rounds round state tokens starts outcome) :
    ∀ start ∈ starts, start <:+ tokens := by
  induction h with
  | fails => simp
  | done => simp
  | again h _ ih =>
    rw [List.forall_mem_cons]
    refine ⟨List.suffix_rfl, ?_⟩
    intro start hmem
    exact (ih start hmem).trans (hround.leaves _ _ _ _ h).2

/-- Each round starts nearer to the end of the tokens than those before it. -/
theorem decreasing (hround : RoundAdvances round) (h : Rounds round state tokens starts outcome) :
    starts.Pairwise fun earlier later => later.length < earlier.length := by
  induction h with
  | fails => simp
  | done => simp
  | again h hmore ih =>
    rw [List.pairwise_cons]
    refine ⟨?_, ih⟩
    intro start hmem
    have hle := (hmore.suffix hround start hmem).length_le
    have hlt := hround.again h
    omega

/-- No more rounds start at a token than there are tokens. -/
theorem countP_le (hround : RoundAdvances round) (h : Rounds round state tokens starts outcome) :
    starts.countP (· ≠ []) ≤ tokens.length := by
  induction h with
  | @fails _ tokens => cases tokens <;> simp
  | @done _ tokens => cases tokens <;> simp
  | again h _ ih =>
    have hlt := hround.again h
    rw [List.countP_cons]
    split <;> omega

end Rounds

/-- If the round goes on, it leaves at least two tokens fewer. -/
def TakesTwo (tokens : Tokens) (result : Except Stop (Round σ β × Tokens)) : Prop :=
  ∀ later rest, result = .ok (.again later, rest) → rest.length + 2 ≤ tokens.length

namespace TakesTwo

variable {tokens : Tokens}

theorem error (stop : Stop) : TakesTwo tokens (.error stop : Except Stop (Round σ β × Tokens)) := by
  intro later rest h
  cases h

theorem done (result : β) (rest : Tokens) :
    TakesTwo tokens (.ok (.done result, rest) : Except Stop (Round σ β × Tokens)) := by
  intro later rest h
  cases h

theorem again (state : σ) {rest : Tokens} (hlength : rest.length + 2 ≤ tokens.length) :
    TakesTwo tokens (.ok (.again state, rest) : Except Stop (Round σ β × Tokens)) := by
  intro later left h
  cases h
  exact hlength

theorem bind {first : Except Stop (α × Tokens)}
    {next : α × Tokens → Except Stop (Round σ β × Tokens)}
    (hn : ∀ value rest, first = .ok (value, rest) → TakesTwo tokens (next (value, rest))) :
    TakesTwo tokens (first >>= next) := by
  cases first with
  | error stop => exact error stop
  | ok pair => exact hn pair.1 pair.2 rfl

theorem bind_expect {t : Token} {more : Tokens}
    {next : Tokens → Except Stop (Round σ β × Tokens)} (hn : ∀ rest, TakesTwo tokens (next rest)) :
    TakesTwo tokens (expect t more >>= next) := by
  cases expect t more with
  | error stop => exact error stop
  | ok rest => exact hn rest

end TakesTwo

theorem length_of_eat? {t : Token} {tokens rest : Tokens} (h : eat? t tokens = some rest) :
    rest.length < tokens.length := by
  obtain ⟨next, rfl, -⟩ := eat?_eq_some h
  exact Nat.lt_succ_self _

section Rules

variable {expr : Reader Expr} (hexpr : expr.Advances)

include hexpr

theorem item_takesTwo (close : Token) (items : List Expr) (tokens : Tokens) :
    TakesTwo tokens (item expr close items tokens) := by
  apply TakesTwo.bind
  intro e rest hread
  have hlt := hexpr.length_lt hread
  have hskip := (skipNewlines_suffix rest).length_le
  dsimp only
  split
  case h_1 more hmore =>
    have hcomma := length_of_eat? hmore
    have hnext := (skipNewlines_suffix more).length_le
    exact .again _ (by omega)
  case h_2 => exact .bind_expect fun final => .done _ final

theorem listItem_takesTwo (heads : List Expr) (tokens : Tokens) :
    TakesTwo tokens (listItem expr heads tokens) := by
  apply TakesTwo.bind
  intro e rest hread
  have hlt := hexpr.length_lt hread
  have hskip := (skipNewlines_suffix rest).length_le
  dsimp only
  split
  case h_1 => exact .bind fun tail last _ => .bind_expect fun final => .done _ final
  case h_2 =>
    split
    case h_1 more hmore =>
      have hcomma := length_of_eat? hmore
      have hnext := (skipNewlines_suffix more).length_le
      exact .again _ (by omega)
    case h_2 => exact .bind_expect fun final => .done _ final

theorem blockStatement_takesTwo (statements : List Expr) (tokens : Tokens) :
    TakesTwo tokens (blockStatement expr statements tokens) := by
  rw [blockStatement]
  split
  case h_1 => exact .done _ _
  case h_2 =>
    apply TakesTwo.bind
    intro s rest hread
    have hlt := (statement_advances hexpr).length_lt hread
    dsimp only
    split
    case h_1 => exact .done _ _
    case h_2 =>
      cases rest with
      | nil => exact .error _
      | cons next more =>
        by_cases hnext : isSeparator next = true
        · have hle := (List.dropWhile_suffix (l := more) isSeparator).length_le
          rw [List.dropWhile_cons_of_pos hnext]
          simp only [List.head?_cons, Option.map_some, Option.getD_some, hnext, if_true]
          rw [List.length_cons] at hlt
          exact .again _ (by omega)
        · simp only [List.head?_cons, Option.map_some, Option.getD_some, hnext]
          exact .error _

theorem postfixRound_takesTwo (e : Expr) (tokens : Tokens) :
    TakesTwo tokens (postfixRound expr e tokens) := by
  rw [postfixRound]
  split
  case h_1 more hmore =>
    have hparen := length_of_eat? hmore
    apply TakesTwo.bind
    intro args rest hread
    have hargs := (arguments_advances hexpr).length_lt hread
    exact .again _ (by omega)
  case h_2 =>
    split
    case h_1 more hmore =>
      have hdot := length_of_eat? hmore
      apply TakesTwo.bind
      intro method rest hread
      have hname := methodName_advances.length_lt hread
      apply TakesTwo.bind
      intro args final hfinal
      have hargs := (methodArguments_leaves hexpr rest _ _ hfinal).2.length_le
      exact .again _ (by omega)
    case h_2 => exact .done _ _

end Rules

/-- Rounds that take two tokens are half as many as the tokens, and the last one. -/
theorem Rounds.length_le {round : σ → Reader (Round σ β)}
    (htwo : ∀ state tokens, TakesTwo tokens (round state tokens)) {state : σ} {tokens : Tokens}
    {starts : List Tokens} {outcome : Except Stop (β × Tokens)}
    (h : Rounds round state tokens starts outcome) : 2 * starts.length ≤ tokens.length + 2 := by
  induction h with
  | fails => simp
  | done => simp
  | again h _ ih =>
    have hle := htwo _ _ _ _ h
    rw [List.length_cons]
    omega

/-- A repetition ends where it would end with no bound on its rounds. No two rounds start at the
same token, and one that starts at the end of the tokens is the last one. -/
structure OncePerToken (round : σ → Reader (Round σ β)) (state : σ) (tokens : Tokens)
    (starts : List Tokens) : Prop where
  rounds : Rounds round state tokens starts (iterate round state tokens)
  suffix : ∀ start ∈ starts, start <:+ tokens
  decreasing : starts.Pairwise fun earlier later => later.length < earlier.length
  countP_le : starts.countP (· ≠ []) ≤ tokens.length

theorem exists_oncePerToken {round : σ → Reader (Round σ β)} (hround : RoundAdvances round)
    (state : σ) (tokens : Tokens) : ∃ starts, OncePerToken round state tokens starts := by
  obtain ⟨starts, h⟩ := exists_rounds hround state tokens
  exact ⟨starts, h, h.suffix hround, h.decreasing hround, h.countP_le hround⟩

/-- A repetition that ends in no more rounds than there are tokens, or in one if there is none. -/
def EndsInTime (round : σ → Reader (Round σ β)) (state : σ) (tokens : Tokens) : Prop :=
  ∃ starts, OncePerToken round state tokens starts ∧ starts.length ≤ max 1 tokens.length

theorem endsInTime {round : σ → Reader (Round σ β)} (hround : RoundAdvances round)
    (htwo : ∀ state tokens, TakesTwo tokens (round state tokens)) (state : σ) (tokens : Tokens) :
    EndsInTime round state tokens := by
  obtain ⟨starts, h⟩ := exists_oncePerToken hround state tokens
  have hle := h.rounds.length_le htwo
  exact ⟨starts, h, by omega⟩

theorem operatorRound_endsInTime {operand : Reader Expr} (ho : operand.Advances)
    (among : Operator → Bool) (grow : σ → Operator → Expr → σ) (finish : σ → β) (state : σ)
    (tokens : Tokens) : EndsInTime (operatorRound among operand grow finish) state tokens :=
  endsInTime (operatorRound_advances ho) (fun _ _ _ _ h => (operatorRound_again ho h).2) state
    tokens

/-- The repetitions of the grammar end from every state that they can be in. The statements of a
program need one more round, to find that no token is left. Exponents are nested less deep than
there are tokens, whatever reads those below. -/
structure RepetitionsEnd (tokens : Tokens) : Prop where
  statements (read : List Expr) : ∃ starts, OncePerToken programStatement read tokens starts
  blockStatements (read : List Expr) : EndsInTime (blockStatement expression) read tokens
  items (close : Token) (read : List Expr) : EndsInTime (item expression close) read tokens
  listItems (heads : List Expr) : EndsInTime (listItem expression) heads tokens
  postfixes (e : Expr) : EndsInTime (postfixRound expression) e tokens
  links (read : Links) : EndsInTime (chainRound (unary expression)) read tokens
  operations (level looser : Nat) (left : Expr) :
    EndsInTime (operationRound level (operations (unary expression) looser)) left tokens
  exponents (bottom : Reader Expr) {bound : Nat} : tokens.length < bound →
    powersOver bottom (unary expression) bound tokens = powers (unary expression) tokens

theorem repetitionsEnd (tokens : Tokens) : RepetitionsEnd tokens := by
  have hexpr := expression_advances
  have hunary := unary_advances hexpr
  constructor
  case statements => exact fun read => exists_oncePerToken programStatement_advances read tokens
  case blockStatements =>
    have hround := RoundAdvances.of_advances (blockStatement_advances hexpr)
    intro read
    exact endsInTime hround (blockStatement_takesTwo hexpr) read tokens
  case items =>
    intro close read
    have hround := RoundAdvances.of_advances (item_advances hexpr close)
    exact endsInTime hround (item_takesTwo hexpr close) read tokens
  case listItems =>
    have hround := RoundAdvances.of_advances (listItem_advances hexpr)
    intro heads
    exact endsInTime hround (listItem_takesTwo hexpr) heads tokens
  case postfixes =>
    have hround := postfixRound_advances hexpr
    intro e
    exact endsInTime hround (postfixRound_takesTwo hexpr) e tokens
  case links =>
    intro read
    rw [chainRound_eq]
    exact operatorRound_endsInTime hunary _ _ _ read tokens
  case operations =>
    intro level looser left
    exact operatorRound_endsInTime (operations_advances hunary looser) _ _ _ left tokens
  case exponents =>
    intro bottom bound h
    rw [powersOver_eq hunary bottom h, powers_eq hunary]

/-! ### The rules -/

inductive Rule where
  | expression
  | operations (looser : Nat)
  | unary
  | postfixed
  | primary
  | statement
  | block
  | listLiteral
  | lambda

def Rule.reader (expr : Reader Expr) : Rule → Reader Expr
  | expression => expr
  | operations looser => Grammar.operations (Grammar.unary expr) looser
  | unary => Grammar.unary expr
  | postfixed => Grammar.postfixed expr
  | primary => Grammar.primary expr
  | statement => Grammar.statement expr
  | block => Grammar.block expr
  | listLiteral => Grammar.listLiteral expr
  | lambda => Grammar.lambda expr

theorem Rule.advances (rule : Rule) {expr : Reader Expr} (hexpr : expr.Advances) :
    (rule.reader expr).Advances := by
  cases rule with
  | expression => exact hexpr
  | operations looser => exact operations_advances (unary_advances hexpr) looser
  | unary => exact unary_advances hexpr
  | postfixed => exact postfixed_advances hexpr
  | primary => exact primary_advances hexpr
  | statement => exact statement_advances hexpr
  | block => exact block_advances hexpr
  | listLiteral => exact listLiteral_advances hexpr
  | lambda => exact lambda_advances hexpr

theorem operatorRound_stopsAmong {operand : Reader Expr} (ho : operand.StopsAmong)
    {among : Operator → Bool} {grow : σ → Operator → Expr → σ} {finish : σ → β} (state : σ) :
    (operatorRound among operand grow finish state).StopsAmong := by
  intro tokens
  rw [operatorRound]
  split
  case h_1 o rest hnext =>
    obtain ⟨span, rfl⟩ := nextOperator?_eq_some (operator?_eq_some hnext).2
    apply (skipped_stopsAmong ho (List.suffix_cons _ rest)).bind
    intro e final hfinal
    exact hfinal
  case h_2 => exact List.suffix_rfl

theorem powersOver_stopsAmong {bottom operand : Reader Expr} (hb : bottom.StopsAmong)
    (ho : operand.StopsAmong) (bound : Nat) : (powersOver bottom operand bound).StopsAmong := by
  induction bound with
  | zero => exact hb
  | succ bound ih =>
    intro tokens
    rw [powersOver]
    apply (ho tokens).bind
    intro base rest hr
    dsimp only
    split
    case h_1 o more hnext =>
      obtain ⟨span, rfl⟩ := nextOperator?_eq_some (operator?_eq_some hnext).2
      have hmore := (skipNewlines_suffix more).trans ((List.suffix_cons _ more).trans hr)
      exact ((ih _).extend hmore).bind fun exponent final hfinal => hfinal
    case h_2 => exact hr

theorem operations_stopsAmong {operand : Reader Expr} (ho : operand.StopsAmong) (looser : Nat) :
    (operations operand looser).StopsAmong := by
  induction looser with
  | zero =>
    intro tokens
    exact powersOver_stopsAmong (fun tokens => .unexpected _ List.suffix_rfl) ho _ tokens
  | succ looser ih =>
    intro tokens
    apply (ih tokens).bind
    intro first rest hr
    exact (iterate_stopsAmong (operatorRound_stopsAmong ih) first rest).extend hr

theorem Rule.stopsAmong (rule : Rule) {expr : Reader Expr} (hexpr : expr.StopsAmong) :
    (rule.reader expr).StopsAmong := by
  cases rule with
  | expression => exact hexpr
  | operations looser => exact operations_stopsAmong (unary_stopsAmong hexpr) looser
  | unary => exact unary_stopsAmong hexpr
  | postfixed => exact postfixed_stopsAmong hexpr
  | primary => exact primary_stopsAmong hexpr
  | statement => exact statement_stopsAmong hexpr
  | block => exact block_stopsAmong hexpr
  | listLiteral => exact listLiteral_stopsAmong hexpr
  | lambda => exact lambda_stopsAmong hexpr

/-- A rule reads the same, whatever reads the expressions that are nested deeper than there are
tokens. -/
theorem Rule.reader_over (rule : Rule) (bottom : Reader Expr) {depth : Nat} {tokens : Tokens}
    (h : tokens.length < depth) :
    rule.reader (expressionOver bottom depth) tokens = rule.reader Grammar.expression tokens := by
  have hexpr := expression_advances
  have hover := @expressionOver_carries_none bottom depth
  have hunary (part : Tokens) (hp : part.length < depth) :
      Grammar.unary (expressionOver bottom depth) part = Grammar.unary Grammar.expression part :=
    Extension.eq_of_none_carries (Extension.unary_carries hexpr hover (Nat.le_of_lt hp))
  cases rule with
  | expression => exact Extension.eq_of_none_carries (hover tokens h)
  | operations looser =>
    exact operations_congr (unary_advances hexpr)
      (fun part hp => hunary part (Nat.lt_of_le_of_lt hp h)) looser (Nat.le_refl _)
  | unary => exact hunary tokens h
  | postfixed =>
    exact Extension.eq_of_none_carries (Extension.postfixed_carries hexpr hover (Nat.le_of_lt h))
  | primary =>
    exact Extension.eq_of_none_carries (Extension.primary_carries hexpr hover (Nat.le_of_lt h))
  | statement => exact Extension.eq_of_none_carries (Extension.statement_carries hexpr hover h)
  | block => exact Extension.eq_of_none_carries (Extension.block_carries hexpr hover h)
  | listLiteral => exact Extension.eq_of_none_carries (Extension.listLiteral_carries hexpr hover h)
  | lambda => exact Extension.eq_of_none_carries (Extension.lambda_carries hexpr hover h)

/-- A reading from a position of the tokens that succeeds ends at a later one, and not past the end
of the tokens; one that fails has its fault at a later token or the one there, or at the end. -/
def MovesOn (tokens : Tokens) (position : Nat) : Except Stop (α × Tokens) → Prop
  | .ok (_, rest) => ∃ next, rest = tokens.drop next ∧ position < next ∧ next ≤ tokens.length
  | .error stop => stop.IsAmong (tokens.drop position)

theorem movesOn_of_advances {reader : Reader α} (hreader : reader.Advances)
    (hstops : reader.StopsAmong) (tokens : Tokens) (position : Nat) :
    MovesOn tokens position (reader (tokens.drop position)) := by
  have hamong := hstops (tokens.drop position)
  cases h : reader (tokens.drop position) with
  | error stop =>
    rw [h] at hamong
    exact hamong
  | ok pair =>
    have hlt := hreader.length_lt h
    have hsuffix := ((hreader.leaves _ _ _ h).2.trans (List.tail_suffix _)).trans
      (List.drop_suffix position tokens)
    have hle := hsuffix.length_le
    rw [List.length_drop] at hlt
    exact ⟨tokens.length - pair.2.length, List.suffix_iff_eq_drop.1 hsuffix, by omega, by omega⟩

/-- From every position of the tokens the rule comes to an end, without going down to expressions
that are nested deeper than tokens are left; and it takes a token if it succeeds. -/
structure Rule.MakesProgress (rule : Rule) (tokens : Tokens) (position : Nat) : Prop where
  ends (bottom : Reader Expr) {depth : Nat} : (tokens.drop position).length < depth →
    rule.reader (expressionOver bottom depth) (tokens.drop position) =
      rule.reader Grammar.expression (tokens.drop position)
  moves : MovesOn tokens position (rule.reader Grammar.expression (tokens.drop position))

theorem Rule.makesProgress (rule : Rule) (tokens : Tokens) (position : Nat) :
    rule.MakesProgress tokens position where
  ends bottom _ h := rule.reader_over bottom h
  moves := movesOn_of_advances (rule.advances expression_advances)
    (rule.stopsAmong expression_stopsAmong) tokens position

/-- There are no more tokens than characters. -/
theorem length_tokensFrom_le {text : List Char} {pass offset : Nat} {tokens : Tokens}
    (h : tokensFrom pass offset text = .ok tokens) : tokens.length ≤ text.length := by
  induction text generalizing pass offset tokens with
  | nil =>
    cases h
    exact Nat.le_refl _
  | cons c rest ih =>
    rw [tokensFrom.eq_def] at h
    cases pass with
    | succ pass => exact Nat.le_succ_of_le (ih h)
    | zero =>
      dsimp only at h
      split at h
      case h_1 => exact Nat.le_succ_of_le (ih h)
      case h_2 =>
        split at h
        case h_1 more hmore =>
          cases h
          exact Nat.succ_le_succ (ih hmore)
        case h_2 => cases h
      case h_3 => cases h

/-- Reading a program comes to an end: with a fault of its text, or after its statements, of which
there are no more than tokens, with the outcome of the last one. -/
def ProgramEnds (source : String) : Prop :=
  (∃ error, tokenize source.toList = .error error ∧
    parseProgram source = .error (SyntaxError.ofLexical error)) ∨
  ∃ tokens starts outcome, tokenize source.toList = .ok tokens ∧
    tokens.length ≤ source.length ∧
    Rounds programStatement [] (skipNewlines tokens) starts outcome ∧
    starts.countP (· ≠ []) ≤ tokens.length ∧
    parseProgram source =
      (outcome.map Prod.fst).mapError (Stop.toError (byteLength source.toList))

theorem programEnds (source : String) : ProgramEnds source := by
  cases h : tokenize source.toList with
  | error error =>
    left
    refine ⟨error, h, ?_⟩
    rw [parseProgram, readAll, h]
  | ok tokens =>
    obtain ⟨starts, hstarts⟩ := exists_oncePerToken programStatement_advances []
      (skipNewlines tokens)
    have hskip := (skipNewlines_suffix tokens).length_le
    have hcount := hstarts.countP_le
    right
    refine ⟨tokens, starts, _, h, ?_, hstarts.rounds, by omega, ?_⟩
    · exact length_tokensFrom_le h
    · rw [parseProgram, readAll, h]
      dsimp only [program]
      cases iterate programStatement [] (skipNewlines tokens) <;> rfl

end Grammar

/-- Every rule of the grammar comes to an end from every position of every list of tokens, and takes
a token if it succeeds. Expressions are the operations of the loosest level. The repetitions end
in no more rounds than there are tokens, and so the reading of every program ends. -/
theorem parser_makes_progress :
    Grammar.expression = Grammar.operations (Grammar.unary Grammar.expression) 6 ∧
    (∀ (rule : Grammar.Rule) (tokens : Grammar.Tokens) (position : Nat),
      rule.MakesProgress tokens position) ∧
    (∀ tokens, Grammar.RepetitionsEnd tokens) ∧
    ∀ source, Grammar.ProgramEnds source := by
  refine ⟨?_, Grammar.Rule.makesProgress, Grammar.repetitionsEnd, Grammar.programEnds⟩
  rw [← Grammar.chain_eq_operations (Grammar.unary_advances Grammar.expression_advances)]
  exact funext Grammar.expression_eq

end Song
