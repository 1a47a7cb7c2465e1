import Song.Proofs.Grammar.Operand
import Song.Proofs.Grammar.Soundness

/-!
# Reading back what is written

The text of what the grammar gives is read as the same expression, unless one of
four forms is among its parts: a double, a minus before a numeral that is not
negative, a prefix operator before a call of an expression, and an operation with
a lambda at the end of its left side.
-/
namespace Song

namespace Expr

/-- Whether the text of the expression ends with that of a lambda. -/
def endsInLambda : Expr → Bool
  | function ⟨none, _, _, _⟩ => true
  | call callee [operand] => isPrefixName callee && endsInLambda operand
  | _ => false

def isApply : Expr → Bool
  | apply .. => true
  | _ => false

def isUnsigned : Expr → Bool
  | number (.int i) => 0 ≤ i.toInt
  | _ => false

/-- Whether a form is written in such a way that it would be read as another one. -/
def isAmbiguous : Expr → Bool
  | number (.float _) => true
  | call callee [operand] =>
    (callee = "-" && operand.isUnsigned) || (isPrefixName callee && operand.isApply)
  | call callee [left, _] => isInfixName callee && left.endsInLambda
  | _ => false

def IsUnambiguous (e : Expr) : Prop :=
  e.Everywhere fun part => part.isAmbiguous = false

theorem isFloat_of_not_isAmbiguous {e : Expr} (h : e.isAmbiguous = false) : e.isFloat = false := by
  rw [isFloat.eq_def]
  split
  · cases h
  · rfl

theorem IsUnambiguous.noFloat {e : Expr} (h : e.IsUnambiguous) :
    e.Everywhere fun part => part.isFloat = false := by
  induction h with
  | intro h _ ih => exact .intro (isFloat_of_not_isAmbiguous h) ih

theorem eq_map_of_characters? {items : List Expr} {chars : List Char}
    (h : characters? items = some chars) : items = chars.map char := by
  induction items generalizing chars with
  | nil =>
    cases h
    rfl
  | cons item items ih =>
    rw [characters?.eq_def] at h
    split at h
    case h_1 heq => cases heq
    case h_2 c rest heq =>
      cases heq
      obtain ⟨more, hmore, rfl⟩ := Option.map_eq_some_iff.1 h
      rw [ih hmore, List.map_cons]
    case h_3 => cases h

/-- The name of an operation is that of an infix operator. -/
theorem eq_symbol_of_isInfixName {name : String} (h : isInfixName name = true) :
    ∃ o : Operator, name = o.symbol ∧ o.isInfix = true := by
  rw [isInfixName] at h
  cases hb : BuiltIn.ofToken? name with
  | none =>
    rw [hb] at h
    cases h
  | some b =>
    rw [hb] at h
    have hname := List.find?_some hb
    cases b with
    | operator o =>
      have ho : o.symbol = name := by simpa [BuiltIn.token, BuiltIn.aliases] using hname
      exact ⟨o, ho.symm, h⟩
    | _ => cases h

/-- Each item is part of the tokens of all. -/
theorem length_tokens_le_separated {items : List Expr} {e : Expr} (he : e ∈ items) :
    e.tokens.length ≤ (separatedTokens (itemTokens items)).length := by
  induction items with
  | nil => cases he
  | cons item items ih =>
    rw [itemTokens, separatedTokens] at *
    cases items with
    | nil =>
      cases List.mem_singleton.1 he
      simp only [itemTokens, List.intercalate_singleton, Nat.le_refl]
    | cons next items =>
      rw [itemTokens, List.intercalate_cons_cons, List.length_append, List.length_append]
      rcases List.mem_cons.1 he with rfl | he
      · omega
      · have hle := ih he
        rw [itemTokens] at hle
        omega

theorem length_guard_le (guard : Expr) :
    guard.tokens.length ≤ (guardTokens guard guard.tokens).length + 1 := by
  rw [guardTokens, isGuard.eq_def]
  split
  · exact Nat.le_refl 1
  · rw [if_pos rfl, List.length_cons]
    omega

theorem opens_calleeToken {name : String} (h : IsCallee name) :
    (calleeToken name).opens = true := by
  rcases h with h | ⟨o, rfl⟩
  · rw [calleeToken_identifier h]
    rfl
  · rw [calleeToken_symbol]
    rfl

theorem calleeToken_ne {name : String} (h : IsCallee name) :
    calleeToken name ≠ .leftParen ∧ (calleeToken name).isNumeral = false := by
  rcases h with h | ⟨o, rfl⟩
  · rw [calleeToken_identifier h]
    exact ⟨Token.noConfusion, rfl⟩
  · rw [calleeToken_symbol]
    exact ⟨Token.noConfusion, rfl⟩

theorem tokens_call_head {callee : String} {args : List Expr}
    (hi : (call callee args).isInfixCall = false) :
    ∃ more, (call callee args).tokens = calleeToken callee :: more := by
  rw [tokens]
  obtain _ | ⟨first, _ | ⟨second, _ | ⟨third, more⟩⟩⟩ := args
  · exact ⟨_, rfl⟩
  · rw [itemTokens, itemTokens, callTokens]
    split <;> exact ⟨_, rfl⟩
  · rw [isInfixCall] at hi
    rw [itemTokens, itemTokens, itemTokens, callTokens, hi]
    exact ⟨_, rfl⟩
  · exact ⟨_, rfl⟩

/-- What the first token of an expression that is no operation says about it. -/
theorem tokens_head {e : Expr} (h : Grammatical .expression e) (hi : e.isInfixCall = false) :
    ∃ t more, e.tokens = t :: more ∧ t.opens = true ∧ (t = .leftParen → e.isApply = true) ∧
      (t.isNumeral = true → e.isUnsigned = true ∨ e.isFloat = true) := by
  cases h with
  | bool b => exact ⟨.bool b, [], rfl, rfl, Token.noConfusion, Bool.noConfusion⟩
  | char c => exact ⟨.char c, [], rfl, rfl, Token.noConfusion, Bool.noConfusion⟩
  | wildcard => exact ⟨.underscore, [], rfl, rfl, Token.noConfusion, Bool.noConfusion⟩
  | name _ => exact ⟨.identifier _, [], rfl, rfl, Token.noConfusion, Bool.noConfusion⟩
  | float x => exact ⟨.float x, [], rfl, rfl, Token.noConfusion, fun _ => Or.inr rfl⟩
  | lambda => exact ⟨.fnWord, _, rfl, rfl, Token.noConfusion, Bool.noConfusion⟩
  | cons => exact ⟨.leftBracket, _, rfl, rfl, Token.noConfusion, Bool.noConfusion⟩
  | block => exact ⟨.doWord, _, rfl, rfl, Token.noConfusion, Bool.noConfusion⟩
  | apply => exact ⟨.leftParen, _, rfl, rfl, fun _ => rfl, Bool.noConfusion⟩
  | @int i _ =>
    rw [tokens, intTokens]
    split
    case isTrue => exact ⟨.operator .minus, _, rfl, rfl, Token.noConfusion, Bool.noConfusion⟩
    case isFalse hi =>
      have hunsigned : (number (.int i)).isUnsigned = true := decide_eq_true (Int.not_lt.1 hi)
      exact ⟨.int i, [], rfl, rfl, Token.noConfusion, fun _ => Or.inl hunsigned⟩
  | @list items _ =>
    rw [tokens, listTokens]
    split
    · exact ⟨.text _, [], rfl, rfl, Token.noConfusion, Bool.noConfusion⟩
    · exact ⟨.leftBracket, _, rfl, rfl, Token.noConfusion, Bool.noConfusion⟩
  | call hc _ =>
    obtain ⟨more, hmore⟩ := tokens_call_head hi
    obtain ⟨hparen, hnumeral⟩ := calleeToken_ne hc
    refine ⟨_, more, hmore, opens_calleeToken hc, fun h => absurd h hparen, ?_⟩
    intro h
    rw [hnumeral] at h
    cases h

end Expr

namespace Grammar

open Song.Expr

theorem starts_cons {t : Token} (h : t.opens = true) (more : List Token) : Starts (t :: more) :=
  ⟨t, rfl, h⟩

theorem starts_asOperandTokens {e : Expr} (h : Starts e.tokens) :
    Starts (asOperandTokens e e.tokens) := by
  rw [asOperandTokens]
  split
  · exact starts_cons rfl _
  · exact h

/-- The expression is read from its tokens, as an operand and as a whole, if it may be nested
as deep as the tokens are many. -/
structure Recovers (e : Expr) : Prop where
  starts : Starts e.tokens
  operand : ∀ depth, (asOperandTokens e e.tokens).length ≤ depth →
    Reads (unary (expressionWithin depth)) (asOperandTokens e e.tokens) e
      (Token.endsOperand e.endsInLambda)
  whole : ∀ depth, e.tokens.length < depth →
    Reads (expressionWithin depth) e.tokens e Token.closes

/-- The reader is that of expressions, nested more than `n` deep or as deep as the tokens that
it is given are many. -/
def IsDeep (n : Nat) (expr : Reader Expr) : Prop :=
  ∀ tokens, ∃ depth, expr tokens = expressionWithin depth tokens ∧
    (n < depth ∨ tokens.length < depth)

structure RecoversStatement (s : Expr) : Prop where
  starts : Starts s.tokens
  whole : ∀ expr, IsDeep s.tokens.length expr →
    Reads (statement expr) s.tokens s Token.endsStatement

theorem isDeep_expressionWithin {n depth : Nat} (h : n < depth) :
    IsDeep n (expressionWithin depth) :=
  fun _ => ⟨depth, rfl, Or.inl h⟩

theorem isDeep_expression (n : Nat) : IsDeep n expression :=
  fun tokens => ⟨tokens.length + 1, rfl, Or.inr (Nat.lt_succ_self _)⟩

theorem IsDeep.reads {n : Nat} {expr : Reader Expr} (h : IsDeep n expr) {words : List Token}
    {e : Expr} {kind : Token → Bool} (hn : words.length ≤ n)
    (hw : ∀ depth, words.length < depth → Reads (expressionWithin depth) words e kind) :
    Reads expr words e kind := by
  intro tokens rest ht hrest
  obtain ⟨depth, hread, hdepth⟩ := h (tokens ++ rest)
  have hlength : tokens.length = words.length := by
    rw [← ht, List.length_map]
  rw [List.length_append] at hdepth
  rw [hread]
  exact hw depth (by omega) tokens rest ht hrest

namespace Recovers

variable {e : Expr}

theorem readsBack (h : Recovers e) (depth : Nat) (hd : e.tokens.length < depth) :
    ReadsBack (expressionWithin depth) e :=
  ⟨h.starts, h.whole depth hd⟩

theorem readsBack_of_isDeep (h : Recovers e) {n : Nat} {expr : Reader Expr} (hd : IsDeep n expr)
    (hn : e.tokens.length ≤ n) : ReadsBack expr e :=
  ⟨h.starts, hd.reads hn h.whole⟩

/-- Parts that are written with commas between them are read where all of them are. -/
theorem readsBack_items {items : List Expr} (h : ∀ e ∈ items, Recovers e) (depth : Nat)
    (hd : (separatedTokens (itemTokens items)).length < depth) :
    ∀ e ∈ items, ReadsBack (expressionWithin depth) e :=
  fun e he => (h e he).readsBack depth (Nat.lt_of_le_of_lt (length_tokens_le_separated he) hd)

/-- An expression that is no operation is read as a whole if it is read as an operand. -/
theorem of_operand (hg : Grammatical .expression e) (hi : e.isInfixCall = false)
    (h : ∀ depth, e.tokens.length ≤ depth → Reads (unary (expressionWithin depth)) e.tokens e
      (Token.endsOperand e.endsInLambda)) : Recovers e := by
  have hoperand : asOperandTokens e e.tokens = e.tokens := by
    rw [asOperandTokens, hi]
    rfl
  obtain ⟨t, more, ht, hopens, -⟩ := tokens_head hg hi
  refine ⟨?_, ?_, ?_⟩
  · rw [ht]
    exact starts_cons hopens more
  · rw [hoperand]
    exact h
  · intro depth hd
    obtain _ | depth := depth
    · cases hd
    · exact chain_single (h depth (Nat.lt_succ_iff.1 hd))

/-- An expression that starts with a token of its own. -/
theorem of_primary (hg : Grammatical .expression e) (hi : e.isInfixCall = false) {t : Token}
    {more : List Token} (ht : e.tokens = t :: more) (ho : t.isOperator = false)
    (h : ∀ depth, more.length < depth → Reads (primary (expressionWithin depth)) (t :: more) e
      (Token.endsOperand e.endsInLambda)) : Recovers e := by
  apply of_operand hg hi
  intro depth hd
  rw [ht, List.length_cons] at hd
  rw [ht]
  exact unary_of_not_operator (postfixed_reads (h depth hd)) ho

/-- An expression that is one token. -/
theorem of_token (hg : Grammatical .expression e) {t : Token} (ht : e.tokens = [t])
    (ho : t.isOperator = false)
    (h : ∀ expr span rest, eat? .leftParen rest = none →
      primary expr (⟨t, span⟩ :: rest) = .ok (e, rest)) (hi : e.isInfixCall = false) :
    Recovers e := by
  apply of_primary hg hi ht ho
  intro depth _
  apply Reads.single
  intro span rest hrest
  apply h _ span rest
  exact hrest.eat?_eq_none (by cases e.endsInLambda <;> rfl)

end Recovers

/-! ### One lemma for each form -/

theorem recovers_int {i : Int64} (h : i ≠ Int64.minValue) : Recovers (.number (.int i)) := by
  by_cases hi : i.toInt < 0
  · apply Recovers.of_operand (.int h) rfl
    intro depth _
    have hread : Reads (unary (expressionWithin depth)) [.operator .minus, .int (-i)]
        (.int (- -i)) (Token.endsOperand false) := unary_negative (-i)
    rw [Int64.neg_neg] at hread
    rw [tokens, intTokens, if_pos hi]
    exact hread
  · refine .of_token (.int h) (t := .int i) ?_ rfl (fun _ _ _ _ => rfl) rfl
    rw [tokens, intTokens, if_neg hi]

theorem recovers_list {items : List Expr} (hg : Grammatical .expression (.list items))
    (h : ∀ e ∈ items, Recovers e) : Recovers (.list items) := by
  by_cases htext : ∃ c cs, characters? items = some (c :: cs)
  · obtain ⟨c, cs, hchars⟩ := htext
    have hitems := eq_map_of_characters? hchars
    refine .of_token hg (t := .text (c :: cs)) ?_ rfl (fun _ _ _ _ => by rw [hitems]; rfl) rfl
    rw [tokens, listTokens, hchars]
  · have htokens : (Expr.list items).tokens =
        .leftBracket :: (separatedTokens (itemTokens items) ++ [.rightBracket]) := by
      rw [tokens, listTokens]
      split
      case h_1 c cs hchars => exact absurd ⟨c, cs, hchars⟩ htext
      case h_2 => rfl
    apply Recovers.of_primary hg rfl htokens rfl
    intro depth hd
    rw [List.length_append, List.length_singleton] at hd
    have hparts := Recovers.readsBack_items h depth (by omega)
    have hread : Reads (listLiteral (expressionWithin depth))
        (separatedTokens (itemTokens items) ++ [.rightBracket]) (.list items) fun _ => true := by
      by_cases hne : items = []
      · subst hne
        apply Reads.single
        intro span rest _
        have hclose : Follows (· = .rightBracket) (⟨.rightBracket, span⟩ :: rest) :=
          .cons rfl span rest
        rw [listLiteral, hclose.skipNewlines_eq rfl, eat?_cons]
      · exact listLiteral_reads (f := .list) hne hparts fun e he => listItem_done (hparts e he)
    exact (hread.after fun _ _ => rfl).mono fun _ _ => rfl

theorem recovers_cons {heads : List Expr} {tail : Expr}
    (hg : Grammatical .expression (.cons heads tail)) (hne : heads ≠ [])
    (hh : ∀ e ∈ heads, Recovers e) (ht : Recovers tail) : Recovers (.cons heads tail) := by
  apply Recovers.of_primary hg rfl rfl rfl
  intro depth hd
  simp only [List.length_append, List.length_cons, List.length_nil] at hd
  have hparts := Recovers.readsBack_items hh depth (by omega)
  have htail := ht.readsBack depth (by omega)
  have hread := listLiteral_reads (f := fun heads => .cons heads tail) hne hparts
    fun e he => listItem_cons (hparts e he) htail
  exact (hread.after fun _ _ => rfl).mono fun _ _ => rfl

theorem recovers_block {statements : List Expr}
    (hg : Grammatical .expression (.block statements))
    (h : ∀ s ∈ statements, RecoversStatement s) : Recovers (.block statements) := by
  apply Recovers.of_primary hg rfl rfl rfl
  intro depth hd
  simp only [List.length_append, List.length_cons, List.length_nil] at hd
  have hparts : ∀ s ∈ statements, ReadsStatement (expressionWithin depth) s := by
    intro s hs
    have hle := length_tokens_le_separated hs
    exact ⟨(h s hs).starts, (h s hs).whole _ (isDeep_expressionWithin (by omega))⟩
  exact ((block_reads hparts).after fun _ _ => rfl).mono fun _ _ => rfl

theorem recovers_lambda {patterns : List Expr} {guard body : Expr}
    (hg : Grammatical .expression (.function ⟨none, patterns, guard, body⟩))
    (hpattern : nonPatternAmong? patterns = none) (hp : ∀ p ∈ patterns, Recovers p)
    (hguard : Recovers guard) (hb : Recovers body) :
    Recovers (.function ⟨none, patterns, guard, body⟩) := by
  apply Recovers.of_primary hg rfl rfl rfl
  intro depth hd
  have hle := length_guard_le guard
  simp only [enclosedTokens, List.length_append, List.length_cons, List.length_nil] at hd
  have hread := lambda_reads (Recovers.readsBack_items hp depth (by omega)) hpattern
    (hguard.readsBack depth (by omega)) (hb.readsBack depth (by omega))
  apply (hread.after fun _ _ => rfl).mono
  intro t ht
  rw [Token.endsOperand, endsInLambda, Bool.not_true, Bool.false_and, Bool.or_false] at ht
  exact ht

theorem recovers_apply {target : Expr} {args : List Expr}
    (hg : Grammatical .expression (.apply target args)) (ht : Recovers target)
    (ha : ∀ e ∈ args, Recovers e) : Recovers (.apply target args) := by
  apply Recovers.of_operand hg rfl
  intro depth hd
  simp only [tokens, enclosedTokens, List.length_append, List.length_cons, List.length_nil] at hd
  have hparts := Recovers.readsBack_items ha depth (by omega)
  have htarget := ht.readsBack depth (by omega)
  exact unary_of_not_operator (postfixed_apply htarget hparts) rfl

/-- A name with arguments in parentheses. -/
theorem unary_call {name : String} {args : List Expr} {depth : Nat} (hn : IsCallee name)
    (ha : ∀ e ∈ args, ReadsBack (expressionWithin depth) e) (isOpen : Bool) :
    Reads (unary (expressionWithin depth))
      (calleeToken name :: enclosedTokens (separatedTokens (itemTokens args))) (.call name args)
      (Token.endsOperand isOpen) :=
  unary_of_leftParen (postfixed_reads ((primary_call hn ha).mono fun _ _ => rfl))

theorem recovers_named {callee : String} {args : List Expr}
    (hg : Grammatical .expression (.call callee args)) (hi : (call callee args).isInfixCall = false)
    (htokens : (call callee args).tokens =
      calleeToken callee :: enclosedTokens (separatedTokens (itemTokens args)))
    (hc : IsCallee callee) (ha : ∀ e ∈ args, Recovers e) : Recovers (.call callee args) := by
  apply Recovers.of_operand hg hi
  intro depth hd
  rw [htokens, enclosedTokens] at hd
  simp only [List.length_append, List.length_cons, List.length_nil] at hd
  rw [htokens]
  exact unary_call hc (Recovers.readsBack_items ha depth (by omega)) _

theorem recovers_operation {left right : Expr} {o : Operator} (ho : o.isInfix = true)
    (hname : isInfixName o.symbol = true)
    (hleft : left.endsInLambda = false) (hl : Recovers left) (hr : Recovers right) :
    Recovers (.call o.symbol [left, right]) := by
  have htokens : (call o.symbol [left, right]).tokens =
      asOperandTokens left left.tokens ++ .operator o :: asOperandTokens right right.tokens := by
    rw [tokens, itemTokens, itemTokens, itemTokens, callTokens, if_pos hname, calleeToken_symbol]
  have hwhole : ∀ depth, (call o.symbol [left, right]).tokens.length < depth →
      Reads (expressionWithin depth) (call o.symbol [left, right]).tokens
        (.call o.symbol [left, right]) Token.closes := by
    intro depth hd
    rw [htokens, List.length_append, List.length_cons] at hd
    rw [htokens]
    obtain _ | depth := depth
    · cases hd
    · have hfirst := hl.operand depth (by omega)
      rw [hleft] at hfirst
      exact chain_operation ho hfirst (hr.operand depth (by omega))
        (starts_asOperandTokens hr.starts)
  have hstarts : Starts (call o.symbol [left, right]).tokens := by
    rw [htokens]
    exact (starts_asOperandTokens hl.starts).append _
  have hoperand (words : List Token) :
      asOperandTokens (call o.symbol [left, right]) words = enclosedTokens words := by
    rw [asOperandTokens, isInfixCall, if_pos hname]
  refine ⟨hstarts, ?_, hwhole⟩
  intro depth hd
  rw [hoperand] at hd ⊢
  simp only [enclosedTokens, List.length_append, List.length_cons, List.length_nil] at hd
  have hback : ReadsBack (expressionWithin depth) (call o.symbol [left, right]) :=
    ⟨hstarts, hwhole depth (by omega)⟩
  exact unary_of_not_operator
    (postfixed_reads ((primary_parenthesized hback).mono fun _ _ => rfl)) rfl

/-- A prefix operator with its operand. -/
theorem recovers_prefix {callee : String} {operand : Expr} (hp : isPrefixName callee = true)
    (hg : Grammatical .expression (.call callee [operand]))
    (hgo : Grammatical .expression operand) (hunsigned : callee = "-" → operand.isUnsigned = false)
    (happly : operand.isApply = false) (hfloat : operand.isFloat = false) (ho : Recovers operand) :
    Recovers (.call callee [operand]) := by
  have hc : IsCallee callee := by
    cases hg
    assumption
  have htokens : (call callee [operand]).tokens =
      calleeToken callee :: asOperandTokens operand operand.tokens := by
    rw [tokens, itemTokens, itemTokens, callTokens, if_pos hp]
  by_cases hi : operand.isInfixCall = true
  · -- the parentheses of the operand are read as those of the arguments
    refine recovers_named hg rfl ?_ hc fun e he => ?_
    · rw [htokens, asOperandTokens, if_pos hi, itemTokens, itemTokens, separatedTokens,
        List.intercalate_singleton]
    · cases List.mem_singleton.1 he
      exact ho
  · rw [Bool.not_eq_true] at hi
    have hoperand : asOperandTokens operand operand.tokens = operand.tokens := by
      rw [asOperandTokens, hi]
      rfl
    obtain ⟨t, more, ht, -, hparen, hnumeral⟩ := tokens_head hgo hi
    have hne : t ≠ .leftParen := by
      intro h
      rw [hparen h] at happly
      cases happly
    have hends : (call callee [operand]).endsInLambda = operand.endsInLambda := by
      rw [endsInLambda, hp, Bool.true_and]
    apply Recovers.of_operand hg rfl
    intro depth hd
    rw [htokens, hoperand, List.length_cons] at hd
    have hread := ho.operand depth (by rw [hoperand]; omega)
    rw [hoperand, ht] at hread
    rw [htokens, hoperand, ht, hends]
    simp only [isPrefixName, Bool.or_eq_true, decide_eq_true_eq] at hp
    rcases hp with rfl | rfl
    · apply unary_minus hread hne
      rw [Bool.eq_false_iff]
      intro hn
      rcases hnumeral hn with h | h
      · rw [hunsigned rfl] at h
        cases h
      · rw [hfloat] at h
        cases h
    · exact unary_not hread hne

theorem recovers_call {callee : String} {args : List Expr}
    (hg : Grammatical .expression (.call callee args))
    (hu : (call callee args).isAmbiguous = false) (hc : IsCallee callee)
    (hga : ∀ e ∈ args, Grammatical .expression e) (hfloat : ∀ e ∈ args, e.isFloat = false)
    (ha : ∀ e ∈ args, Recovers e) : Recovers (.call callee args) := by
  match args with
  | [] => exact recovers_named hg rfl rfl hc ha
  | [operand] =>
    by_cases hp : isPrefixName callee = true
    · rw [isAmbiguous, hp, Bool.true_and, Bool.or_eq_false_iff] at hu
      refine recovers_prefix hp hg (hga operand (by simp)) ?_ hu.2 (hfloat operand (by simp))
        (ha operand (by simp))
      rintro rfl
      simpa using hu.1
    · refine recovers_named hg rfl ?_ hc ha
      rw [tokens, itemTokens, itemTokens, callTokens, if_neg hp]
  | [left, right] =>
    by_cases hinfix : isInfixName callee = true
    · -- a lambda at the end of the left side would take the operator in
      obtain ⟨o, rfl, ho⟩ := eq_symbol_of_isInfixName hinfix
      rw [isAmbiguous, hinfix, Bool.true_and] at hu
      exact recovers_operation ho hinfix hu (ha left (by simp)) (ha right (by simp))
    · refine recovers_named hg (by simpa [isInfixCall] using hinfix) ?_ hc ha
      rw [tokens, itemTokens, itemTokens, itemTokens, callTokens, if_neg hinfix]
  | _ :: _ :: _ :: _ => exact recovers_named hg rfl rfl hc ha

/-- What is read back, by where it stands. -/
def Recovered : Role → Expr → Prop
  | .expression, e => Recovers e
  | .statement, s => RecoversStatement s

theorem recoversStatement_expression {e : Expr} (h : Recovers e) : RecoversStatement e :=
  ⟨h.starts, fun _ hd => statement_expression (h.readsBack_of_isDeep hd (Nat.le_refl _)).2⟩

theorem recoversStatement_assign {target value : Expr} (hshape : target.isTarget = true)
    (hpattern : nonPattern? target = none) (ht : Recovers target) (hv : Recovers value) :
    RecoversStatement (.assign target value) := by
  constructor
  · rw [tokens]
    exact ht.starts.append _
  · intro expr hd
    rw [tokens, List.length_append, List.length_cons] at hd
    rw [tokens]
    exact statement_assign hshape hpattern (ht.readsBack_of_isDeep hd (by omega))
      (hv.readsBack_of_isDeep hd (by omega))

theorem recoversStatement_function {name : String} {patterns : List Expr} {guard body : Expr}
    (hn : IsCallee name) (hpattern : nonPatternAmong? patterns = none)
    (hp : ∀ p ∈ patterns, Recovers p) (hg : Recovers guard) (hb : Recovers body) :
    RecoversStatement (.function ⟨some name, patterns, guard, body⟩) := by
  refine ⟨starts_cons (opens_calleeToken hn) _, ?_⟩
  intro expr hd
  have hle := length_guard_le guard
  have htarget : ∀ depth,
      (calleeToken name :: enclosedTokens (separatedTokens (itemTokens patterns))).length < depth →
        Reads (expressionWithin depth)
          (calleeToken name :: enclosedTokens (separatedTokens (itemTokens patterns)))
          (.call name patterns) Token.closes := by
    intro depth hdepth
    simp only [enclosedTokens, List.length_append, List.length_cons, List.length_nil] at hdepth
    obtain _ | depth := depth
    · cases hdepth
    · exact chain_single (unary_call hn (Recovers.readsBack_items hp depth (by omega)) false)
  simp only [tokens, clauseTokens, enclosedTokens, List.length_append, List.length_cons,
    List.length_nil] at hd
  have hcall := hd.reads (by simp [enclosedTokens]) htarget
  rw [tokens, clauseTokens]
  exact statement_function hcall hpattern (hg.readsBack_of_isDeep hd (by omega))
    (hb.readsBack_of_isDeep hd (by omega))

/-- What the grammar gives is read back from its tokens, if no part of it is ambiguous. -/
theorem recovered_of_grammatical {role : Role} {e : Expr} (h : Grammatical role e)
    (hu : e.IsUnambiguous) : Recovered role e := by
  induction h with
  | bool b => exact .of_token (.bool b) (t := .bool b) rfl rfl (fun _ _ _ _ => rfl) rfl
  | char c => exact .of_token (.char c) (t := .char c) rfl rfl (fun _ _ _ _ => rfl) rfl
  | wildcard => exact .of_token .wildcard (t := .underscore) rfl rfl (fun _ _ _ _ => rfl) rfl
  | @name n hn =>
    refine .of_token (.name hn) (t := .identifier n) rfl rfl (fun expr span rest hrest => ?_) rfl
    rw [primary.eq_def]
    dsimp only
    rw [hrest]
  | int hi => exact recovers_int hi
  | float x => cases hu.here
  | list h ih => exact recovers_list (.list h) fun e he => ih e he (hu.part he)
  | cons hne hh ht ihh iht =>
    have hheads := fun e he => ihh e he (hu.part (List.mem_append_left _ he))
    have htail := iht (hu.part (by simp [parts]))
    exact recovers_cons (.cons hne hh ht) hne hheads htail
  | lambda hp hpattern hg hb ihp ihg ihb =>
    have hpatterns := fun p hmem => ihp p hmem (hu.part (List.mem_append_left _ hmem))
    have hguard := ihg (hu.part (by simp [parts, Clause.parts]))
    have hbody := ihb (hu.part (by simp [parts, Clause.parts]))
    exact recovers_lambda (.lambda hp hpattern hg hb) hpattern hpatterns hguard hbody
  | block h ih => exact recovers_block (.block h) fun s hs => ih s hs (hu.part hs)
  | call hc h ih =>
    apply recovers_call (.call hc h) hu.here hc h
    · intro e he
      exact isFloat_of_not_isAmbiguous (hu.part he).here
    · intro e he
      exact ih e he (hu.part he)
  | apply ht h iht ih =>
    apply recovers_apply (.apply ht h) (iht (hu.part List.mem_cons_self))
    intro e he
    exact ih e he (hu.part (List.mem_cons_of_mem _ he))
  | expression _ ih => exact recoversStatement_expression (ih hu)
  | assign hshape _ hpattern _ iht ihv =>
    have htarget := iht (hu.part List.mem_cons_self)
    have hvalue := ihv (hu.part (by simp [parts]))
    exact recoversStatement_assign hshape hpattern htarget hvalue
  | function hn _ hpattern _ _ ihp ihg ihb =>
    have hpatterns := fun p hmem => ihp p hmem (hu.part (List.mem_append_left _ hmem))
    have hguard := ihg (hu.part (by simp [parts, Clause.parts]))
    have hbody := ihb (hu.part (by simp [parts, Clause.parts]))
    exact recoversStatement_function hn hpattern hpatterns hguard hbody

/-- Tokens that are one statement, read as such and as a program. -/
theorem whole_of_statement {s : Expr} {words : List Token} (hstarts : Starts words)
    (h : Reads (statement expression) words s Token.endsStatement) {tokens : Tokens}
    (ht : tokens.map Located.token = words) :
    singleStatement tokens = .ok (s, []) ∧ program tokens = .ok ([s], []) := by
  have hstart := hstarts.follows_self ht []
  have hread := h tokens [] ht nofun
  rw [List.append_nil] at hstart hread
  have hskip := hstart.skipNewlines_eq rfl
  constructor
  · rw [singleStatement, hskip, bind_of_eq_ok hread]
    rfl
  · obtain ⟨t, hhead, -⟩ := hstarts
    obtain ⟨next, rest, rfl⟩ : ∃ next rest, tokens = next :: rest := by
      cases tokens with
      | nil =>
        rw [← ht] at hhead
        cases hhead
      | cons next rest => exact ⟨next, rest, rfl⟩
    have hround : programStatement [] (next :: rest) = .ok (.again [s], []) := by
      rw [programStatement, List.isEmpty_cons, if_neg Bool.false_ne_true, bind_of_eq_ok hread]
      rfl
    rw [program, hskip]
    exact Runs.iterate_eq (.again hround (Nat.zero_lt_succ _) (.done rfl))

theorem RecoversStatement.whole_eq {s : Expr} (h : RecoversStatement s) {tokens : Tokens}
    (ht : tokens.map Located.token = s.tokens) :
    singleStatement tokens = .ok (s, []) ∧ program tokens = .ok ([s], []) :=
  whole_of_statement h.starts (h.whole expression (isDeep_expression _)) ht

theorem readAll_eq {α : Type} {reader : Reader α} {source : List Char} {words : List Token}
    {value : α} {rest : Tokens} (hw : lexed source = .ok words)
    (h : ∀ tokens, tokens.map Located.token = words → reader tokens = .ok (value, rest)) :
    readAll reader source = .ok value := by
  obtain ⟨tokens, htokens, hmap⟩ := tokenize_of_lexed hw
  rw [readAll, htokens]
  dsimp only
  rw [h tokens hmap]

end Grammar

theorem lexed_of_spells {text : List Char} {words : List Token} (h : Spells text words) :
    lexed text = .ok words := by
  have hlexed := h [] .nil
  rw [List.append_nil, lexed_nil] at hlexed
  rw [hlexed]
  exact congrArg Except.ok (List.append_nil words)

theorem lexed_render {s : Expr} (h : Grammatical .statement s) (hu : s.IsUnambiguous) :
    lexed s.render.toList = .ok s.tokens :=
  lexed_of_spells (Expr.isSpelt_of_grammatical h hu.noFloat)

/-- Whatever text has the tokens of a statement is read as that statement. -/
theorem parseStatement_of_lexed {source : String} {s : Expr} (h : Grammatical .statement s)
    (hu : s.IsUnambiguous) (hl : lexed source.toList = .ok s.tokens) :
    parseStatement source = .ok s :=
  Grammar.readAll_eq hl fun _ ht =>
    (Grammar.RecoversStatement.whole_eq (Grammar.recovered_of_grammatical h hu) ht).1

/-- What the grammar gives is read back from its text. -/
theorem parseStatement_render {s : Expr} (h : Grammatical .statement s) (hu : s.IsUnambiguous) :
    parseStatement s.render = .ok s :=
  parseStatement_of_lexed h hu (lexed_render h hu)

theorem parseProgram_render {s : Expr} (h : Grammatical .statement s) (hu : s.IsUnambiguous) :
    parseProgram s.render = .ok [s] :=
  Grammar.readAll_eq (lexed_render h hu) fun _ ht =>
    (Grammar.RecoversStatement.whole_eq (Grammar.recovered_of_grammatical h hu) ht).2

/-- A statement that was read, alone or in a program, is read again from its text. -/
theorem parseStatement_render_of_parsed {source : String} {s : Expr}
    (h : parseStatement source = .ok s ∨ ∃ program, parseProgram source = .ok program ∧ s ∈ program)
    (hu : s.IsUnambiguous) : parseStatement s.render = .ok s := by
  refine parseStatement_render ?_ hu
  rcases h with h | ⟨program, h, hs⟩
  · exact parseStatement_grammatical h
  · exact parseProgram_grammatical h s hs

/-- The clause of `f(x) When x < -1 = -(x + 1)`. -/
def guardedClause : Clause Expr :=
  ⟨some "f", [.name "x"], .call "<" [.name "x", .int (-1)],
    .call "-" [.call "+" [.name "x", .int 1]]⟩

theorem parseStatement_render_guarded :
    ∃ s, parseStatement "f(x) When x<-1 = -(x+1)" = .ok s ∧ s.IsUnambiguous ∧
      parseStatement s.render = .ok s := by
  have hf : IsIdentifier "f" := ⟨rfl, 'f', [], rfl, rfl, nofun⟩
  have hx : Grammatical .expression (.name "x") := .name ⟨rfl, 'x', [], rfl, rfl, nofun⟩
  have hguard : Grammatical .expression (.call "<" [.name "x", .int (-1)]) :=
    .call (Or.inr ⟨.less, rfl⟩) (by simpa using ⟨hx, .int (by decide)⟩)
  have hsum : Grammatical .expression (.call "+" [.name "x", .int 1]) :=
    .call (Or.inr ⟨.plus, rfl⟩) (by simpa using ⟨hx, .int (by decide)⟩)
  have hbody : Grammatical .expression (.call "-" [.call "+" [.name "x", .int 1]]) :=
    .call (Or.inr ⟨.minus, rfl⟩) (by simpa using hsum)
  have hs : Grammatical .statement (.function guardedClause) :=
    .function (Or.inl hf) (by simpa using hx) rfl hguard hbody
  have hname : (Expr.name "x").IsUnambiguous := .intro rfl (List.forall_mem_nil _)
  have hint (i : Int64) : (Expr.int i).IsUnambiguous := .intro rfl (List.forall_mem_nil _)
  have hu : (Expr.function guardedClause).IsUnambiguous := by
    have hless : (Expr.call "<" [.name "x", .int (-1)]).IsUnambiguous :=
      .intro rfl (by simpa [Expr.parts] using ⟨hname, hint (-1)⟩)
    have hplus : (Expr.call "+" [.name "x", .int 1]).IsUnambiguous :=
      .intro rfl (by simpa [Expr.parts] using ⟨hname, hint 1⟩)
    have hminus : (Expr.call "-" [.call "+" [.name "x", .int 1]]).IsUnambiguous :=
      .intro rfl (List.forall_mem_singleton.2 hplus)
    refine .intro rfl ?_
    simpa [guardedClause, Expr.parts, Clause.parts] using ⟨hname, hless, hminus⟩
  have hparse : parseStatement "f(x) When x<-1 = -(x+1)" = .ok (.function guardedClause) :=
    parseStatement_of_lexed hs hu rfl
  exact ⟨_, hparse, hu, parseStatement_render_of_parsed (Or.inl hparse) hu⟩

end Song
