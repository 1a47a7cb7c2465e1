import Song.Proofs.Grammar.Reading

/-!
# Reading operands and chains of operators

An operand ends before a token that closes an expression, and before an operator
unless it ends in a lambda, whose body would take the operator in.
-/
namespace Song

namespace Token

/-- Whether an operand comes to an end before the token; an open one ends in a lambda. -/
def endsOperand (isOpen : Bool) (t : Token) : Bool :=
  t.closes || (!isOpen && t.isInfix)

/-- Whether a minus before the token belongs to it. -/
def isNumeral : Token → Bool
  | int _ | float _ => true
  | _ => false

def isOperator : Token → Bool
  | operator _ => true
  | _ => false

end Token

namespace Grammar

variable {α : Type} {expr : Reader Expr} {words : List Token} {e : Expr} {isOpen : Bool}

theorem endsOperand_of_closes (t : Token) (h : t.closes = true) : t.endsOperand isOpen = true := by
  rw [Token.endsOperand, h]
  rfl

theorem Reads.mono {reader : Reader α} {value : α} {kind other : Token → Bool}
    (h : Reads reader words value kind) (hk : ∀ t, other t = true → kind t = true) :
    Reads reader words value other :=
  fun tokens rest ht hrest => h tokens rest ht (hrest.mono hk)

/-- A reader that goes on with another one after its first token. -/
theorem Reads.after {reader sub : Reader α} {value : α} {kind : Token → Bool} {t : Token}
    (h : Reads sub words value kind)
    (hr : ∀ span rest, reader (⟨t, span⟩ :: rest) = sub rest) :
    Reads reader (t :: words) value kind := by
  intro tokens rest ht hrest
  obtain ⟨span, more, rfl, hmore⟩ := map_token_cons ht
  rw [List.cons_append, hr]
  exact h more rest hmore hrest

/-- A reader that takes one token and nothing else. -/
theorem Reads.single {reader : Reader α} {value : α} {kind : Token → Bool} {t : Token}
    (hr : ∀ span rest, Follows kind rest → reader (⟨t, span⟩ :: rest) = .ok (value, rest)) :
    Reads reader [t] value kind := by
  intro tokens rest ht hrest
  obtain ⟨span, rfl⟩ := map_token_singleton ht
  exact hr span rest hrest

theorem postfixRound_done {rest : Tokens} (h : Follows (Token.endsOperand isOpen) rest) :
    postfixRound expr e rest = .ok (.done e, rest) := by
  have hparen : Token.leftParen.endsOperand isOpen = false := by cases isOpen <;> rfl
  have hdot : Token.dot.endsOperand isOpen = false := by cases isOpen <;> rfl
  rw [postfixRound, h.eat?_eq_none hparen, h.eat?_eq_none hdot]

theorem postfixes_done {rest : Tokens} (h : Follows (Token.endsOperand isOpen) rest) :
    postfixes expr e rest = .ok (e, rest) :=
  Runs.iterate_eq (.done (postfixRound_done h))

theorem postfixed_reads (h : Reads (primary expr) words e (Token.endsOperand isOpen)) :
    Reads (postfixed expr) words e (Token.endsOperand isOpen) := by
  intro tokens rest ht hrest
  rw [postfixed, bind_of_eq_ok (h tokens rest ht hrest)]
  exact postfixes_done hrest

theorem primary_parenthesized (he : ReadsBack expr e) :
    Reads (primary expr) (Expr.enclosedTokens e.tokens) e fun _ => true :=
  (parenthesized_reads he).after fun _ _ => rfl

/-- What an expression in parentheses evaluates to is called. -/
theorem postfixed_apply {target : Expr} {args : List Expr} (ht : ReadsBack expr target)
    (ha : ∀ e ∈ args, ReadsBack expr e) :
    Reads (postfixed expr)
      (Expr.enclosedTokens target.tokens ++
        Expr.enclosedTokens (Expr.separatedTokens (Expr.itemTokens args)))
      (.apply target args) (Token.endsOperand isOpen) := by
  intro tokens rest hwords hrest
  obtain ⟨first, last, rfl, hfirst, hlast⟩ := List.map_eq_append_iff.1 hwords
  obtain ⟨paren, later, rfl, hlater⟩ := map_token_cons hlast
  have htarget := primary_parenthesized ht first (⟨.leftParen, paren⟩ :: (later ++ rest)) hfirst
    fun _ _ => rfl
  have hargs := arguments_reads ha later rest hlater fun _ _ => rfl
  have hround : postfixRound expr target (⟨.leftParen, paren⟩ :: (later ++ rest)) =
      .ok (.again (.apply target args), rest) := by
    rw [postfixRound, eat?_cons]
    dsimp only
    rw [bind_of_eq_ok hargs]
    rfl
  have hlength : rest.length < (⟨.leftParen, paren⟩ :: (later ++ rest) : Tokens).length := by
    rw [List.length_cons, List.length_append]
    omega
  rw [List.append_assoc, List.cons_append, postfixed, bind_of_eq_ok htarget]
  exact Runs.iterate_eq (.again hround hlength (.done (postfixRound_done hrest)))

theorem primary_call {name : String} {args : List Expr} (hn : IsCallee name)
    (ha : ∀ e ∈ args, ReadsBack expr e) :
    Reads (primary expr)
      (calleeToken name :: Expr.enclosedTokens (Expr.separatedTokens (Expr.itemTokens args)))
      (.call name args) fun _ => true := by
  intro tokens rest ht _
  obtain ⟨span, opened, rfl, hopened⟩ := map_token_cons ht
  obtain ⟨paren, later, rfl, hlater⟩ := map_token_cons hopened
  have hargs := arguments_reads ha later rest hlater fun _ _ => rfl
  rcases hn with hn | ⟨o, rfl⟩
  · rw [calleeToken_identifier hn, List.cons_append, List.cons_append, primary.eq_def]
    dsimp only
    rw [eat?_cons]
    dsimp only
    rw [bind_of_eq_ok hargs]
    rfl
  · rw [calleeToken_symbol, List.cons_append, List.cons_append, primary.eq_def]
    dsimp only
    rw [eat?_cons]
    dsimp only
    rw [bind_of_eq_ok hargs]
    rfl

theorem unary_of_not_operator {t : Token} (h : Reads (postfixed expr) (t :: words) e
    (Token.endsOperand isOpen)) (ht : t.isOperator = false) :
    Reads (unary expr) (t :: words) e (Token.endsOperand isOpen) := by
  intro tokens rest htokens hrest
  rw [← h tokens rest htokens hrest]
  obtain ⟨span, more, rfl, -⟩ := map_token_cons htokens
  cases t with
  | operator o => cases ht
  | _ => rfl

/-- An operator before a parenthesis is the name of what is called. -/
theorem unary_of_leftParen {t : Token} (h : Reads (postfixed expr) (t :: .leftParen :: words) e
    (Token.endsOperand isOpen)) :
    Reads (unary expr) (t :: .leftParen :: words) e (Token.endsOperand isOpen) := by
  intro tokens rest htokens hrest
  rw [← h tokens rest htokens hrest]
  obtain ⟨span, more, rfl, hmore⟩ := map_token_cons htokens
  obtain ⟨paren, later, rfl, -⟩ := map_token_cons hmore
  rw [List.cons_append, List.cons_append, unary.eq_def]
  dsimp only
  split <;> rfl

theorem unary_minus {t : Token} (h : Reads (unary expr) (t :: words) e (Token.endsOperand isOpen))
    (hparen : t ≠ .leftParen) (hnumeral : t.isNumeral = false) :
    Reads (unary expr) (.operator .minus :: t :: words) (.call "-" [e])
      (Token.endsOperand isOpen) := by
  intro tokens rest htokens hrest
  obtain ⟨span, more, rfl, hmore⟩ := map_token_cons htokens
  have hread := h more rest hmore hrest
  obtain ⟨next, later, rfl, -⟩ := map_token_cons hmore
  cases t with
  | leftParen => exact absurd rfl hparen
  | int i => cases hnumeral
  | float x => cases hnumeral
  | _ => exact bind_of_eq_ok hread

theorem unary_not {t : Token} (h : Reads (unary expr) (t :: words) e (Token.endsOperand isOpen))
    (hparen : t ≠ .leftParen) :
    Reads (unary expr) (.operator .not :: t :: words) (.call "Not" [e])
      (Token.endsOperand isOpen) := by
  intro tokens rest htokens hrest
  obtain ⟨span, more, rfl, hmore⟩ := map_token_cons htokens
  have hread := h more rest hmore hrest
  obtain ⟨next, later, rfl, -⟩ := map_token_cons hmore
  cases t with
  | leftParen => exact absurd rfl hparen
  | _ => exact bind_of_eq_ok hread

/-- A minus before a numeral belongs to it. -/
theorem unary_negative (i : Int64) :
    Reads (unary expr) [.operator .minus, .int i] (.int (-i)) (Token.endsOperand isOpen) := by
  intro tokens rest htokens hrest
  obtain ⟨span, more, rfl, hmore⟩ := map_token_cons htokens
  obtain ⟨next, rfl⟩ := map_token_singleton hmore
  exact postfixes_done hrest

theorem chainRound_done {operand : Reader Expr} {rest : Tokens} (h : Follows Token.closes rest)
    (chain : List (Operator × Expr)) :
    chainRound operand chain rest = .ok (.done chain.reverse, rest) := by
  rw [chainRound.eq_def]
  split
  case h_1 o span more => cases h _ rfl
  case h_2 => rfl

/-- An operand with no operator after it. -/
theorem chain_single {operand : Reader Expr}
    (h : Reads operand words e (Token.endsOperand isOpen)) :
    Reads (chain operand) words e Token.closes := by
  intro tokens rest ht hrest
  have hread := h tokens rest ht (hrest.mono endsOperand_of_closes)
  have hchain : iterate (chainRound operand) [] rest = .ok ([], rest) :=
    Runs.iterate_eq (.done (chainRound_done hrest []))
  rw [chain, bind_of_eq_ok hread]
  dsimp only
  rw [bind_of_eq_ok hchain]
  rfl

/-- Two operands with an operator between them. -/
theorem chain_operation {operand : Reader Expr} {o : Operator} (ho : o.isInfix = true)
    {left right : Expr} {first second : List Token}
    (hl : Reads operand first left (Token.endsOperand false))
    (hr : Reads operand second right (Token.endsOperand isOpen)) (hs : Starts second) :
    Reads (chain operand) (first ++ .operator o :: second) (.call o.symbol [left, right])
      Token.closes := by
  intro tokens rest ht hrest
  have hends : (Token.operator o).endsOperand false = true := by
    rw [Token.endsOperand, Token.isInfix, ho]
    rfl
  obtain ⟨span, later, hlater, hread⟩ := hl.before hends ht rest
  have hright := hr later rest hlater (hrest.mono endsOperand_of_closes)
  have hround : chainRound operand [] (⟨.operator o, span⟩ :: (later ++ rest)) =
      .ok (.again [(o, right)], rest) := by
    rw [chainRound, if_pos ho, (hs.follows_self hlater rest).skipNewlines_eq rfl,
      bind_of_eq_ok hright]
    rfl
  have hlength : rest.length < (⟨.operator o, span⟩ :: (later ++ rest) : Tokens).length := by
    rw [List.length_cons, List.length_append]
    omega
  have hchain : iterate (chainRound operand) [] (⟨.operator o, span⟩ :: (later ++ rest)) =
      .ok ([(o, right)], rest) :=
    Runs.iterate_eq (.again hround hlength (.done (chainRound_done hrest [(o, right)])))
  rw [chain, bind_of_eq_ok hread]
  dsimp only
  rw [bind_of_eq_ok hchain]
  rfl

end Grammar
end Song
