import Song.Proofs.Grammar.RoundTrip
import Song.Proofs.Grammar.Spacing

/-!
# The tree of a chain

A chain of operands and infix operators is read as the tree that the rule of precedence gives: a
chain of powers is split at its first operator, and any other one at the last of the operators that
bind most loosely; so are the two parts.
-/
namespace Song

namespace Operator

/-- The infix operators by how tightly they bind, the loosest first. -/
def tiers : List (List Operator) :=
  [[or], [and], [equal, notEqual], [less, greater, lessOrEqual, greaterOrEqual], [plus, minus],
    [times, divide, remainder, quotient, modulo], [power]]

def tier (o : Operator) : Nat :=
  tiers.findIdx (o ∈ ·)

theorem level?_eq_some {o : Operator} (h : o ≠ .not) : o.level? = some o.tier := by
  cases o with
  | not => exact absurd rfl h
  | _ => rfl

theorem isInfix_of_ne_not {o : Operator} (h : o ≠ .not) : o.isInfix = true := by
  rw [isInfix, level?_eq_some h]
  rfl

theorem tier_lt_tier_power {o : Operator} (h : o ≠ .not) (hp : o ≠ .power) :
    o.tier < tier .power := by
  cases o with
  | not => exact absurd rfl h
  | power => exact absurd rfl hp
  | _ => decide

end Operator

namespace Grammar

abbrev Links := List (Operator × Expr)

/-- The last of the operators that bind most loosely, between what is before it and after it. -/
def loosest (link : Operator × Expr) : Links → Links × (Operator × Expr) × Links
  | [] => ([], link, [])
  | next :: rest =>
    let (before, last, after) := loosest next rest
    if link.1.tier < last.1.tier then ([], link, next :: rest) else (link :: before, last, after)

/-- The chain is split at the last of the operators that bind most loosely. -/
structure SplitsAt (links before : Links) (last : Operator × Expr) (after : Links) : Prop where
  eq_append : links = before ++ last :: after
  le_before : ∀ link ∈ before, last.1.tier ≤ link.1.tier
  lt_after : ∀ link ∈ after, last.1.tier < link.1.tier

/-- No operator of the chain binds more loosely than the one that it is split at. -/
theorem SplitsAt.le_tier {links before after : Links} {last : Operator × Expr}
    (h : SplitsAt links before last after) {link : Operator × Expr} (hmem : link ∈ links) :
    last.1.tier ≤ link.1.tier := by
  rw [h.eq_append, List.mem_append, List.mem_cons] at hmem
  rcases hmem with hmem | rfl | hmem
  · exact h.le_before link hmem
  · exact Nat.le_refl _
  · exact Nat.le_of_lt (h.lt_after link hmem)

theorem loosest_splitsAt (link : Operator × Expr) (rest : Links) :
    SplitsAt (link :: rest) (loosest link rest).1 (loosest link rest).2.1
      (loosest link rest).2.2 := by
  induction rest generalizing link with
  | nil => exact ⟨rfl, List.forall_mem_nil _, List.forall_mem_nil _⟩
  | cons next rest ih =>
    have hrest := ih next
    rw [loosest]
    generalize loosest next rest = split at hrest
    obtain ⟨before, last, after⟩ := split
    dsimp only at hrest ⊢
    split
    case isTrue hlt =>
      refine ⟨rfl, List.forall_mem_nil _, ?_⟩
      intro other hmem
      exact Nat.lt_of_lt_of_le hlt (hrest.le_tier hmem)
    case isFalse hle =>
      refine ⟨congrArg (link :: ·) hrest.eq_append, ?_, hrest.lt_after⟩
      rw [List.forall_mem_cons]
      exact ⟨Nat.le_of_not_lt hle, hrest.le_before⟩

/-- The tree of a chain: the two parts of the chain, each with a tree of its own, are the operands
of the operator between them. -/
def grouped (first : Expr) : Links → Expr
  | [] => first
  | link :: rest =>
    if ∀ other ∈ link :: rest, other.1 = .power then
      .call link.1.symbol [first, grouped link.2 rest]
    else
      let split := loosest link rest
      .call split.2.1.1.symbol [grouped first split.1, grouped split.2.1.2 split.2.2]
termination_by links => links.length
decreasing_by
  · exact Nat.lt_succ_self _
  · rw [(loosest_splitsAt link rest).eq_append, List.length_append, List.length_cons]
    omega
  · rw [(loosest_splitsAt link rest).eq_append, List.length_append, List.length_cons]
    omega

theorem bindsBefore_iff {waiting next : Operator} (hw : waiting ≠ .not) (hn : next ≠ .not) :
    bindsBefore waiting next = true ↔
      next.tier < waiting.tier ∨ next.tier = waiting.tier ∧ next ≠ .power := by
  simp [bindsBefore, groupsRight, Operator.level?_eq_some hw, Operator.level?_eq_some hn]

theorem mem_of_mem_complete {next : Operator} {right : Expr} {stack : Waiting} {w : Expr × Operator}
    (h : w ∈ (complete next right stack).1) : w ∈ stack := by
  induction stack generalizing right with
  | nil => exact h
  | cons top stack ih =>
    rw [complete] at h
    split at h
    · exact List.mem_cons_of_mem top (ih h)
    · exact h

theorem complete_eq_completeAll {next : Operator} {stack : Waiting}
    (h : ∀ w ∈ stack, bindsBefore w.2 next = true) (right : Expr) :
    complete next right stack = ([], completeAll right stack) := by
  induction stack generalizing right with
  | nil => rfl
  | cons top stack ih =>
    rw [List.forall_mem_cons] at h
    rw [complete, if_pos h.1, ih h.2, completeAll]

/-- What waits below an operator that `next` does not complete goes on waiting. -/
theorem complete_append {next : Operator} {left : Expr} {o : Operator}
    (h : bindsBefore o next = false) (right : Expr) (stack base : Waiting) :
    complete next right (stack ++ (left, o) :: base) =
      ((complete next right stack).1 ++ (left, o) :: base, (complete next right stack).2) := by
  induction stack generalizing right with
  | nil => simp [complete, h]
  | cons top stack ih =>
    rw [List.cons_append, complete, complete]
    split
    · exact ih _
    · rfl

theorem completeAll_append (right : Expr) (stack base : Waiting) :
    completeAll right (stack ++ base) = completeAll (completeAll right stack) base := by
  induction stack generalizing right with
  | nil => rfl
  | cons top stack ih => exact ih _

theorem treeFrom_cons (stack : Waiting) (right : Expr) (link : Operator × Expr) (rest : Links) :
    treeFrom stack right (link :: rest) =
      treeFrom (((complete link.1 right stack).2, link.1) :: (complete link.1 right stack).1) link.2
        rest :=
  rfl

/-- An operator that no later one completes takes all that comes as its right side. -/
theorem treeFrom_append {left : Expr} {o : Operator} {rest : Links}
    (h : ∀ link ∈ rest, bindsBefore o link.1 = false) (stack base : Waiting) (right : Expr) :
    treeFrom (stack ++ (left, o) :: base) right rest =
      completeAll (treeFrom stack right rest) ((left, o) :: base) := by
  induction rest generalizing stack right with
  | nil => exact completeAll_append right stack _
  | cons link rest ih =>
    rw [List.forall_mem_cons] at h
    rw [treeFrom_cons, treeFrom_cons, complete_append h.1]
    exact ih h.2 (_ :: _) _

/-- An operator that completes all that waits has all that came as its left side. -/
theorem treeFrom_split {o : Operator} {before : Links}
    (hbefore : ∀ link ∈ before, bindsBefore link.1 o = true) {stack : Waiting}
    (hstack : ∀ w ∈ stack, bindsBefore w.2 o = true) (right e : Expr) (after : Links) :
    treeFrom stack right (before ++ (o, e) :: after) =
      treeFrom [(treeFrom stack right before, o)] e after := by
  induction before generalizing stack right with
  | nil => rw [List.nil_append, treeFrom_cons, complete_eq_completeAll hstack, treeFrom]
  | cons link before ih =>
    rw [List.forall_mem_cons] at hbefore
    rw [List.cons_append, treeFrom_cons, treeFrom_cons]
    refine ih hbefore.2 ?_ _
    rw [List.forall_mem_cons]
    exact ⟨hbefore.1, fun w hw => hstack w (mem_of_mem_complete hw)⟩

theorem tree_split {o : Operator} {before after : Links}
    (hbefore : ∀ link ∈ before, bindsBefore link.1 o = true)
    (hafter : ∀ link ∈ after, bindsBefore o link.1 = false) (first e : Expr) :
    tree first (before ++ (o, e) :: after) =
      .call o.symbol [tree first before, tree e after] := by
  rw [tree, treeFrom_split hbefore (List.forall_mem_nil _)]
  exact treeFrom_append hafter [] [] e

/-- The stack gives the tree of the rule. -/
theorem tree_eq_grouped (first : Expr) {links : Links} (h : ∀ link ∈ links, link.1 ≠ .not) :
    tree first links = grouped first links := by
  fun_induction grouped first links with
  | case1 first => rfl
  | case2 first link rest hpower ih =>
    rw [List.forall_mem_cons] at h hpower
    rw [← ih h.2]
    have hafter : ∀ other ∈ rest, bindsBefore link.1 other.1 = false := by
      intro other hmem
      rw [hpower.1, hpower.2 other hmem]
      rfl
    exact tree_split (List.forall_mem_nil _) hafter first link.2
  | case3 first link rest hpower split ihbefore ihafter =>
    have hsplit : SplitsAt (link :: rest) split.1 split.2.1 split.2.2 := loosest_splitsAt link rest
    have hlast : split.2.1.1 ≠ .power := by
      simp only [not_forall] at hpower
      obtain ⟨other, hmem, hother⟩ := hpower
      intro heq
      have hle := hsplit.le_tier hmem
      have hlt := Operator.tier_lt_tier_power (h other hmem) hother
      rw [heq] at hle
      omega
    rw [hsplit.eq_append, List.forall_mem_append, List.forall_mem_cons] at h
    obtain ⟨hbefore, hnot, hafter⟩ := h
    rw [hsplit.eq_append, ← ihbefore hbefore, ← ihafter hafter]
    refine tree_split (fun other hmem => ?_) (fun other hmem => ?_) first split.2.1.2
    · have hle := hsplit.le_before other hmem
      rw [bindsBefore_iff (hbefore other hmem) hnot]
      exact (Nat.lt_or_eq_of_le hle).imp_right fun heq => ⟨heq, hlast⟩
    · have hlt := hsplit.lt_after other hmem
      rw [← Bool.not_eq_true, bindsBefore_iff hnot (hafter other hmem)]
      omega

/-- The tokens of an operand, and what they stand for: a name, an integer, or an expression in
parentheses. -/
inductive IsOperand : List Token → Expr → Prop
  | name (n : String) : IsOperand [.identifier n] (.name n)
  | int (i : Int64) : IsOperand [.int i] (.int i)
  | parenthesized {tokens rest : Tokens} {e : Expr}
    (h : expression (skipNewlines tokens) = .ok (e, rest)) (hrest : skipNewlines rest = []) :
    IsOperand (.leftParen :: (tokens.map Located.token ++ [.rightParen])) e

inductive IsLinks : List Token → Links → Prop
  | nil : IsLinks [] []
  | cons {o : Operator} {words more : List Token} {e : Expr} {rest : Links} (ho : o ≠ .not)
    (h : IsOperand words e) (hmore : IsLinks more rest) :
    IsLinks (.operator o :: (words ++ more)) ((o, e) :: rest)

theorem IsOperand.starts {words : List Token} {e : Expr} (h : IsOperand words e) :
    Starts words := by
  cases h with
  | name n => exact ⟨_, rfl, rfl⟩
  | int i => exact ⟨_, rfl, rfl⟩
  | parenthesized => exact ⟨_, rfl, rfl⟩

theorem IsLinks.ne_not {words : List Token} {links : Links} (h : IsLinks words links) :
    ∀ link ∈ links, link.1 ≠ .not := by
  induction h with
  | nil => exact List.forall_mem_nil _
  | cons ho _ _ ih => exact List.forall_mem_cons.2 ⟨ho, ih⟩

/-- What is an expression by itself is one in parentheses too, wherever it stands. -/
theorem parenthesized_reads_of_expression {tokens rest : Tokens} {e : Expr}
    (h : expression (skipNewlines tokens) = .ok (e, rest)) (hrest : skipNewlines rest = []) :
    Reads (parenthesized expression) (tokens.map Located.token ++ [.rightParen]) e
      fun _ => true := by
  intro moved final hmoved _
  obtain ⟨inner, close, rfl, hinner, hclose⟩ := List.map_eq_append_iff.1 hmoved
  obtain ⟨span, rfl⟩ := map_token_singleton hclose
  have hmore : Follows (· = .rightParen) (⟨.rightParen, span⟩ :: final) := .cons rfl span final
  have hspaced := Spaced.of_map_eq hinner.symm (⟨.rightParen, span⟩ :: final) .free
  obtain ⟨left, hread, hleft⟩ :=
    expression_agrees hmore _ _ (hspaced.enters hmore) e rest h
  obtain ⟨margin, -, hskip⟩ := hleft.skip hmore
  rw [hrest] at hskip
  rw [List.append_assoc, List.singleton_append, parenthesized, bind_of_eq_ok hread]
  dsimp only
  rw [hskip.eq_of_nil (solid_skipNewlines left), bind_expect_cons]
  rfl

theorem IsOperand.reads {words : List Token} {e : Expr} (h : IsOperand words e) :
    Reads (unary expression) words e (Token.endsOperand false) := by
  cases h with
  | name n =>
    refine unary_of_not_operator ?_ rfl
    apply postfixed_reads
    apply Reads.single
    intro span rest hrest
    rw [primary.eq_def]
    dsimp only
    rw [hrest.eat?_eq_none rfl]
  | int i => exact unary_of_not_operator (postfixed_reads (.single fun _ _ _ => rfl)) rfl
  | parenthesized h hrest =>
    have hinner := parenthesized_reads_of_expression h hrest
    exact unary_of_not_operator (postfixed_reads ((hinner.mono fun _ _ => rfl).after
      fun _ _ => rfl)) rfl

/-- After an operand the chain goes on with an operator or comes to an end. -/
theorem IsLinks.follows {words : List Token} {links : Links} (h : IsLinks words links)
    {tokens rest : Tokens} (ht : tokens.map Located.token = words)
    (hrest : Follows Token.closes rest) : Follows (Token.endsOperand false) (tokens ++ rest) := by
  cases h with
  | nil =>
    rw [List.map_eq_nil_iff.1 ht]
    exact hrest.mono endsOperand_of_closes
  | cons ho =>
    obtain ⟨span, later, rfl, -⟩ := map_token_cons ht
    refine .cons ?_ span _
    rw [Token.endsOperand, Token.isInfix, Operator.isInfix_of_ne_not ho]
    rfl

theorem IsLinks.runs {words : List Token} {links : Links} (h : IsLinks words links)
    (read : Links) {tokens rest : Tokens} (ht : tokens.map Located.token = words)
    (hrest : Follows Token.closes rest) :
    Runs (chainRound (unary expression)) read (tokens ++ rest) (read.reverse ++ links) rest := by
  induction h generalizing read tokens with
  | nil =>
    rw [List.map_eq_nil_iff.1 ht, List.append_nil]
    exact .done (chainRound_done hrest read)
  | @cons o words more e links ho h hmore ih =>
    obtain ⟨span, later, rfl, hlater⟩ := map_token_cons ht
    obtain ⟨operand, left, rfl, hoperand, hleft⟩ := List.map_eq_append_iff.1 hlater
    have hread := h.reads operand (left ++ rest) hoperand (hmore.follows hleft hrest)
    have hstart := h.starts.follows_self hoperand (left ++ rest)
    have hround : chainRound (unary expression) read
        (⟨.operator o, span⟩ :: (operand ++ (left ++ rest))) =
        .ok (.again ((o, e) :: read), left ++ rest) := by
      rw [chainRound, if_pos (Operator.isInfix_of_ne_not ho), hstart.skipNewlines_eq rfl,
        bind_of_eq_ok hread]
      rfl
    have hruns := ih ((o, e) :: read) hleft
    rw [List.reverse_cons, List.append_assoc, List.singleton_append] at hruns
    rw [List.cons_append, List.append_assoc]
    refine .again hround ?_ hruns
    simp only [List.length_cons, List.length_append]
    omega

/-- A chain is read as the tree of the rule. -/
theorem expression_reads_grouped {first : Expr} {words more : List Token} {links : Links}
    (h : IsOperand words first) (hmore : IsLinks more links) :
    Reads expression (words ++ more) (grouped first links) Token.closes := by
  intro tokens rest ht hrest
  obtain ⟨operand, left, rfl, hoperand, hleft⟩ := List.map_eq_append_iff.1 ht
  have hread := h.reads operand (left ++ rest) hoperand (hmore.follows hleft hrest)
  have hchain : iterate (chainRound (unary expression)) [] (left ++ rest) = .ok (links, rest) :=
    (hmore.runs [] hleft hrest).iterate_eq
  rw [expression_eq, List.append_assoc, chain, bind_of_eq_ok hread]
  dsimp only
  rw [bind_of_eq_ok hchain, ← tree_eq_grouped first hmore.ne_not]
  rfl

end Grammar

/-- Operands with infix operators between them are read as the tree of the rule, alone and as a
program. -/
theorem parse_chain_grouped {source : String} {first : Expr} {words more : List Token}
    {links : Grammar.Links} (hsource : lexed source.toList = .ok (words ++ more))
    (h : Grammar.IsOperand words first) (hmore : Grammar.IsLinks more links) :
    parseStatement source = .ok (Grammar.grouped first links) ∧
      parseProgram source = .ok [Grammar.grouped first links] := by
  have hstarts := h.starts.append more
  have hread := Grammar.statement_expression (Grammar.expression_reads_grouped h hmore)
  exact ⟨Grammar.readAll_eq hsource fun _ ht => (Grammar.whole_of_statement hstarts hread ht).1,
    Grammar.readAll_eq hsource fun _ ht => (Grammar.whole_of_statement hstarts hread ht).2⟩

/-- What comes after the first operand of `a - 2 - (b Or c) * x ^ 2 ^ 3 Eq 1`. -/
def mixedLinks : Grammar.Links :=
  [(.minus, .int 2), (.minus, .call "Or" [.name "b", .name "c"]), (.times, .name "x"),
    (.power, .int 2), (.power, .int 3), (.equal, .int 1)]

def mixedTree : Expr :=
  .call "Eq" [.call "-" [.call "-" [.name "a", .int 2],
    .call "*" [.call "Or" [.name "b", .name "c"],
      .call "^" [.name "x", .call "^" [.int 2, .int 3]]]], .int 1]

theorem parse_chain_grouped_mixed :
    Grammar.grouped (.name "a") mixedLinks = mixedTree ∧
      parseStatement "a - 2 - (b Or c) * x ^ 2 ^ 3 Eq 1" = .ok mixedTree ∧
      parseProgram "a - 2 - (b Or c) * x ^ 2 ^ 3 Eq 1" = .ok [mixedTree] := by
  have hread : Grammar.expression (Grammar.skipNewlines
      ([.identifier "b", .operator .or, .identifier "c"].map (⟨·, .point 0⟩))) =
      .ok (.call "Or" [.name "b", .name "c"], []) := by
    rfl
  have hparen := Grammar.IsOperand.parenthesized hread rfl
  have hlinks : Grammar.IsLinks _ mixedLinks :=
    .cons (by decide) (.int 2) (.cons (by decide) hparen (.cons (by decide) (.name "x")
      (.cons (by decide) (.int 2) (.cons (by decide) (.int 3) (.cons (by decide) (.int 1) .nil)))))
  have htree : Grammar.grouped (.name "a") mixedLinks = mixedTree := by
    decide +kernel
  refine ⟨htree, ?_⟩
  rw [← htree]
  exact parse_chain_grouped rfl (.name "a") hlinks

end Song
