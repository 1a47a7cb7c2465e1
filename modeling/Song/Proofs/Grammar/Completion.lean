import Song.Proofs.Grammar.OpenStatement
import Song.Proofs.Grammar.RoundTrip

/-!
# Completing an open text

A text that came to its end too early is completed by what it owes: a wildcard if
an expression is wanted, and then the closing tokens. If any tokens in a new line
complete it, these do.
-/
namespace Song

namespace Grammar

variable {α β γ σ : Type}

def NoPattern (e : Expr) : Prop :=
  e.nonPattern? ≠ none

theorem NoPattern.of_eq {e part : Expr} (h : e.nonPattern? = some part) : NoPattern e := by
  rw [NoPattern, h]
  exact Option.some_ne_none part

theorem NoPattern.keeps {e : Expr} (h : NoPattern e) (e' : Expr) : KeepsPattern e e' :=
  fun he => absurd he h

theorem lambda_results (tokens : Tokens) : Results NoPattern (lambda expression tokens) :=
  .bind fun _ => .bind fun _ => .bind fun _ => .bind fun _ => .bind fun _ => .bind fun _ =>
    .ok (.of_eq rfl) _

theorem block_results (tokens : Tokens) : Results NoPattern (block expression tokens) := by
  refine iterate_results (S := fun _ => True) (fun statements tokens _ => ?_) trivial _
  rw [blockStatement]
  split
  · exact .done (.of_eq rfl) _
  · apply Results.bind
    intro read
    dsimp only
    split
    · exact .done (.of_eq rfl) _
    · split
      · exact .again trivial _
      · exact .error _

theorem postfixes_results {e : Expr} (he : NoPattern e) (tokens : Tokens) :
    Results NoPattern (postfixes expression e tokens) := by
  refine iterate_results (S := NoPattern) (fun e tokens he => ?_) he tokens
  rw [postfixRound]
  split
  · exact .bind fun read => .again (.of_eq rfl) _
  · split
    · exact .bind fun read => .bind fun args => .again (.of_eq rfl) _
    · exact .done he _

theorem Crosses.keeps {before : Debt} {owed : List Closer} {reader : Reader Expr} {tokens : Tokens}
    (h : Crosses Any before owed reader tokens)
    (hr : ∀ tokens, Results NoPattern (reader tokens)) :
    Crosses KeepsPattern before owed reader tokens := by
  intro hwaits more value rest hread
  obtain ⟨value', hread', -⟩ := h hwaits more value rest hread
  exact ⟨value', hread', (hr _ value rest hread).keeps value'⟩

theorem postfixes_eq (e : Expr) (tokens : Tokens) :
    postfixes expression e tokens =
      match eat? .leftParen tokens with
      | some rest => arguments expression rest >>= fun read =>
        postfixes expression (.apply e read.1) read.2
      | none =>
        match eat? .dot tokens with
        | some rest => methodName rest >>= fun read =>
          methodArguments expression read.2 >>= fun args =>
            postfixes expression (.call read.1 (e :: args.1)) args.2
        | none => .ok (e, tokens) := by
  rw [postfixes, iterate_eq (postfixRound_advances expression_advances), postfixRound]
  cases eat? .leftParen tokens with
  | some rest =>
    dsimp only
    cases arguments expression rest <;> rfl
  | none =>
    dsimp only
    cases eat? .dot tokens with
    | none => rfl
    | some rest =>
      dsimp only
      cases methodName rest with
      | error stop => rfl
      | ok read =>
        rw [bind_of_eq_ok rfl, bind_of_eq_ok rfl]
        dsimp only
        cases methodArguments expression read.2 <;> rfl

/-- Nothing that closes is a postfix. -/
theorem postfixes_closing (e : Expr) (owed : List Closer) :
    postfixes expression e (closing owed) = .ok (e, closing owed) := by
  rw [postfixes_eq, closing_eat rfl, closing_eat rfl]

theorem unary_carried : (unary expression).Carried :=
  fun x _ => Extension.unary_carries expression_advances
    (fun tokens _ => x.expression_carries tokens) (Nat.le_refl _)

theorem unary_expression_settles (owed : List Closer) (wanted : Bool) :
    Settles ⟨owed, wanted⟩ owed (unary expression) :=
  settles_of_traverses (unary_traverses expression_traverses) owed wanted

section Rules

variable {bound : Nat}
  (h : ∀ tokens, tokens.length < bound → ∀ owed wanted,
    Crosses KeepsPattern ⟨owed, wanted⟩ owed expression tokens)

include h

/-- Arguments of what stands before them, if they are in parentheses. -/
theorem call_crosses {inner : Reader Expr} (f : List Expr → Expr) (hf : ∀ args, NoPattern (f args))
    (hcall : ∀ span later, inner (⟨.leftParen, span⟩ :: later) =
      arguments expression later >>= fun read => .ok (f read.1, read.2))
    (hother : ∀ tokens, eat? .leftParen tokens = none → ¬Waits (inner tokens)) {tokens : Tokens}
    (ht : tokens.length < bound) (owed : List Closer) (wanted : Bool) :
    Crosses KeepsPattern ⟨owed, wanted⟩ owed inner tokens := by
  cases tokens with
  | nil => exact .of_not_waits (hother [] rfl)
  | cons next rest =>
    obtain ⟨t, span⟩ := next
    by_cases hparen : t = .leftParen
    · subst hparen
      apply Crosses.cons (hcall span)
      apply Crosses.bind arguments_carried (arguments_settles _)
        (arguments_crosses h (Nat.lt_of_succ_lt ht) owed)
      · intro args args' left value final _ hread
        cases hread
        exact ⟨f args', rfl, (hf args).keeps _⟩
      · intro args left _
        exact .of_not_waits (not_waits_ok _)
    · exact .of_not_waits (hother _ (by rw [eat?, if_neg hparen]))

theorem primary_crosses {tokens : Tokens} (ht : tokens.length ≤ bound) (owed : List Closer)
    (wanted : Bool) : Crosses KeepsPattern ⟨owed, wanted⟩ owed (primary expression) tokens := by
  cases tokens with
  | nil => exact .nil fun more => ⟨_, rfl⟩
  | cons next rest =>
    obtain ⟨t, span⟩ := next
    have hrest : rest.length < bound := ht
    cases t with
    | operator o =>
      have hgoes (later : Tokens) : primary expression (⟨.operator o, span⟩ :: later) =
          match eat? .leftParen later with
          | some rest => arguments expression rest >>= fun read =>
            .ok (.call o.symbol read.1, read.2)
          | none => .error (unexpected .expression (⟨.operator o, span⟩ :: later)) := rfl
      apply Crosses.cons hgoes
      refine call_crosses h (.call o.symbol) (fun _ => .of_eq rfl) (fun _ _ => rfl) ?_ hrest owed
        true
      intro tokens hn
      rw [hn]
      exact not_waits_unexpected_cons _ _ _
    | identifier name =>
      have hgoes (later : Tokens) : primary expression (⟨.identifier name, span⟩ :: later) =
          match eat? .leftParen later with
          | some rest => arguments expression rest >>= fun read => .ok (.call name read.1, read.2)
          | none => .ok (.name name, later) := rfl
      apply Crosses.cons hgoes
      refine call_crosses h (.call name) (fun _ => .of_eq rfl) (fun _ _ => rfl) ?_ hrest owed false
      intro tokens hn
      rw [hn]
      exact not_waits_ok _
    | leftBracket => exact .cons (fun _ => rfl) (listLiteral_crosses h hrest owed)
    | leftParen => exact .cons (fun _ => rfl) (parenthesized_crosses h hrest owed)
    | doWord => exact .cons (fun _ => rfl) ((block_crosses h hrest owed).keeps block_results)
    | fnWord => exact .cons (fun _ => rfl) ((lambda_crosses h hrest owed).keeps lambda_results)
    | int _ | float _ | char _ | text _ | bool _ | underscore =>
      exact .of_not_waits (not_waits_ok _)
    | _ => exact .of_not_waits (not_waits_unexpected_cons _ _ _)

/-- Arguments and the postfixes after them. -/
theorem applied_crosses (f : List Expr → Expr) (hf : ∀ args, NoPattern (f args)) {tokens : Tokens}
    (ht : tokens.length < bound) (owed : List Closer)
    (hrest : ∀ args left, left.length < tokens.length →
      Crosses KeepsPattern ⟨owed, false⟩ owed (postfixes expression (f args)) left) :
    Crosses KeepsPattern ⟨.rightParen :: owed, true⟩ owed (fun tokens =>
      arguments expression tokens >>= fun read => postfixes expression (f read.1) read.2)
      tokens := by
  apply Crosses.bind arguments_carried (arguments_settles _) (arguments_crosses h ht owed)
  · intro args args' left value final _ hread
    refine ⟨f args', postfixes_closing _ owed, ?_⟩
    exact (postfixes_results (hf args) left value final hread).keeps _
  · intro args left hread
    exact hrest args left ((arguments_advances expression_advances).length_lt hread)

/-- A method after its name, and the postfixes after it. -/
theorem method_crosses (name : String) (e : Expr) {tokens : Tokens} (ht : tokens.length < bound)
    (owed : List Closer)
    (hrest : ∀ called left, left.length ≤ tokens.length →
      Crosses KeepsPattern ⟨owed, false⟩ owed (postfixes expression called) left) :
    Crosses KeepsPattern ⟨owed, false⟩ owed (fun tokens =>
      methodArguments expression tokens >>= fun args =>
        postfixes expression (.call name (e :: args.1)) args.2) tokens := by
  cases tokens with
  | nil =>
    refine .congr ?_ (hrest (.call name [e]) [] (Nat.le_refl _))
    intro later hl
    rw [List.nil_append, methodArguments, hl.eat?_eq_none rfl]
    rfl
  | cons next rest =>
    by_cases hparen : next.token = .leftParen
    · have hgoes (later : Tokens) : (methodArguments expression (next :: later) >>= fun args =>
          postfixes expression (.call name (e :: args.1)) args.2) =
            arguments expression later >>= fun args =>
              postfixes expression (.call name (e :: args.1)) args.2 := by
        rw [methodArguments, eat?, if_pos hparen]
      apply Crosses.cons hgoes
      rw [hparen]
      apply applied_crosses h (fun args => .call name (e :: args)) (fun _ => .of_eq rfl)
        (Nat.lt_of_succ_lt ht) owed
      intro args left hlt
      exact hrest _ left (Nat.le_succ_of_le (Nat.le_of_lt hlt))
    · refine .congr ?_ (hrest (.call name [e]) (next :: rest) (Nat.le_refl _))
      intro later _
      rw [List.cons_append, methodArguments, eat?, if_neg hparen]
      rfl

theorem postfixes_crosses (e : Expr) {tokens : Tokens} (ht : tokens.length < bound)
    (owed : List Closer) :
    Crosses KeepsPattern ⟨owed, false⟩ owed (postfixes expression e) tokens := by
  cases tokens with
  | nil =>
    apply Crosses.of_not_waits
    rw [postfixes_eq]
    exact not_waits_ok _
  | cons next rest =>
    have hrest : rest.length < bound := Nat.lt_of_succ_lt ht
    by_cases hparen : next.token = .leftParen
    · have hgoes (later : Tokens) : postfixes expression e (next :: later) =
          arguments expression later >>= fun read =>
            postfixes expression (.apply e read.1) read.2 := by
        rw [postfixes_eq, eat?, if_pos hparen]
      apply Crosses.cons hgoes
      rw [hparen]
      apply applied_crosses h (.apply e) (fun _ => .of_eq rfl) hrest owed
      intro args left hlt
      exact postfixes_crosses (.apply e args) (Nat.lt_trans hlt hrest) owed
    by_cases hdot : next.token = .dot
    · have hgoes (later : Tokens) : postfixes expression e (next :: later) =
          methodName later >>= fun read => methodArguments expression read.2 >>= fun args =>
            postfixes expression (.call read.1 (e :: args.1)) args.2 := by
        rw [postfixes_eq, eat?, if_neg hparen, eat?, if_pos hdot]
      apply Crosses.cons hgoes
      rw [hdot]
      cases rest with
      | nil => exact .nil fun more => ⟨_, rfl⟩
      | cons method more =>
        obtain ⟨t, span⟩ := method
        cases t with
        | identifier name =>
          apply Crosses.cons (fun _ => rfl)
          apply method_crosses h name e (Nat.lt_of_succ_lt hrest) owed
          intro called left hlt
          exact postfixes_crosses called (Nat.lt_of_le_of_lt hlt (Nat.lt_of_succ_lt hrest)) owed
        | _ => exact .of_not_waits (not_waits_unexpected_cons _ _ _)
    · apply Crosses.of_not_waits
      rw [postfixes_eq, eat?, if_neg hparen, eat?, if_neg hdot]
      exact not_waits_ok _
termination_by tokens.length
decreasing_by
  all_goals
    subst_vars
    simp only [List.length_cons] at *
    omega

theorem postfixed_crosses {tokens : Tokens} (ht : tokens.length ≤ bound) (owed : List Closer)
    (wanted : Bool) : Crosses KeepsPattern ⟨owed, wanted⟩ owed (postfixed expression) tokens := by
  have hcarried : (primary expression).Carried := fun x tokens =>
    Extension.primary_carries expression_advances
      (fun tokens _ => x.expression_carries tokens) (Nat.le_refl _)
  apply Crosses.bind hcarried
    (settles_of_traverses (primary_traverses expression_traverses) owed wanted)
    (primary_crosses h ht owed wanted)
  · intro e e' left value final hkeeps hread
    refine ⟨e', postfixes_closing e' owed, ?_⟩
    intro hvalue
    apply hkeeps
    -- a postfix would have made no pattern of it
    apply Decidable.byContradiction
    intro he
    exact postfixes_results he left value final hread hvalue
  · intro e left hread
    have hlt := (primary_advances expression_advances).length_lt hread
    exact postfixes_crosses h e (Nat.lt_of_lt_of_le hlt ht) owed

theorem unary_crosses {tokens : Tokens} (ht : tokens.length ≤ bound) (owed : List Closer)
    (wanted : Bool) : Crosses KeepsPattern ⟨owed, wanted⟩ owed (unary expression) tokens := by
  induction tokens generalizing wanted with
  | nil => exact .nil fun more => ⟨_, rfl⟩
  | cons next rest ih =>
    have hlead (more : Tokens) (hmore : Follows (· = .newline) more) :
        Lead.of next.token ((rest ++ more).head?.map Located.token) =
          Lead.of next.token (rest.head?.map Located.token) := by
      have hx := Extension.lead_tokens (x := ⟨id, more, hmore⟩) next.token rest
      simpa [Extension.tokens] using hx
    cases hl : Lead.of next.token (rest.head?.map Located.token) with
    | nothing =>
      refine .congr ?_ (postfixed_crosses h ht owed wanted)
      intro more hmore
      rw [List.cons_append, unary_cons, hlead more hmore, hl]
    | called symbol =>
      obtain ⟨o, ho⟩ := Lead.eq_operator_of_called hl
      refine .cons_of_follows (fun tokens => unary expression tokens >>= fun read =>
        .ok (.call symbol [read.1], read.2)) (fun more hmore => ?_) ?_
      · rw [unary_cons, hlead more hmore, hl]
      rw [ho]
      apply Crosses.bind unary_carried (unary_expression_settles owed true)
        (ih (Nat.le_of_lt ht) true)
      · intro e e' left value final _ hread
        have hcall : NoPattern (.call symbol [e]) := .of_eq rfl
        cases hread
        exact ⟨_, rfl, hcall.keeps _⟩
      · intro e left _
        exact .of_not_waits (not_waits_ok _)
    | numeral e =>
      cases rest with
      | nil => exact absurd hl (Lead.of_none_ne_numeral _ e)
      | cons numeral more =>
        refine .cons_of_follows (fun tokens => postfixes expression e tokens.tail)
          (fun later hlater => ?_) (.cons (fun _ => rfl) ?_)
        · rw [unary_cons, hlead later hlater, hl]
        rw [Debt.after_numeral hl]
        exact postfixes_crosses h e (Nat.lt_of_succ_lt ht) owed

end Rules

/-- A tree of more than one operand is an operation. -/
theorem treeFrom_noPattern {stack : Waiting} {right : Expr} {links : List (Operator × Expr)}
    (h : stack ≠ [] ∨ links ≠ []) : NoPattern (treeFrom stack right links) := by
  induction links generalizing stack right with
  | nil =>
    have hstack : stack ≠ [] := h.resolve_right fun hne => hne rfl
    rw [treeFrom]
    clear h
    induction stack generalizing right with
    | nil => exact absurd rfl hstack
    | cons pair rest ih =>
      obtain ⟨left, o⟩ := pair
      rw [completeAll]
      cases rest with
      | nil => exact .of_eq rfl
      | cons next more => exact ih (List.cons_ne_nil _ _)
  | cons link rest ih =>
    rw [treeFrom]
    exact ih (Or.inl (List.cons_ne_nil _ _))

theorem tree_noPattern (first : Expr) {links : List (Operator × Expr)} (h : links ≠ []) :
    NoPattern (tree first links) :=
  treeFrom_noPattern (Or.inr h)

def links (read : List (Operator × Expr)) : Reader (List (Operator × Expr)) :=
  iterate (chainRound (unary expression)) read

theorem links_operator (read : List (Operator × Expr)) {next : Located} {o : Operator}
    (hn : next.token = .operator o) (ho : o.isInfix = true) (tokens : Tokens) :
    links read (next :: tokens) = unary expression (skipNewlines tokens) >>= fun operand =>
      links ((o, operand.1) :: read) operand.2 := by
  obtain ⟨t, span⟩ := next
  obtain rfl : t = .operator o := hn
  rw [links, iterate_eq (chainRound_advances (unary_advances expression_advances)), chainRound,
    if_pos ho]
  cases unary expression (skipNewlines tokens) <;> rfl

theorem links_done (read : List (Operator × Expr)) {next : Located}
    (hn : ¬∃ o, next.token = .operator o ∧ o.isInfix = true) (tokens : Tokens) :
    links read (next :: tokens) = .ok (read.reverse, next :: tokens) := by
  apply Runs.iterate_eq
  apply Runs.done
  rw [chainRound.eq_def]
  split
  case h_1 o span rest heq =>
    cases heq
    exact if_neg fun ho => hn ⟨o, rfl, ho⟩
  case h_2 => rfl

/-- Operands that were read are not lost. -/
theorem links_results {read : List (Operator × Expr)} (hr : read ≠ []) (tokens : Tokens) :
    Results (· ≠ []) (links read tokens) := by
  refine iterate_results (S := (· ≠ [])) (fun read tokens hr => ?_) hr tokens
  have hdone : read.reverse ≠ [] := by simpa using hr
  rw [chainRound.eq_def]
  split
  · split
    · apply Results.bind
      intro operand
      refine .again ?_ _
      exact List.cons_ne_nil _ _
    · refine .done ?_ _
      exact hdone
  · refine .done ?_ _
    exact hdone

theorem links_closing (read : List (Operator × Expr)) (owed : List Closer) :
    links read (closing owed) = .ok (read.reverse, closing owed) :=
  Runs.iterate_eq (.done (chainRound_done (closing_follows owed) read))

section Expressions

variable {bound : Nat}
  (h : ∀ tokens, tokens.length ≤ bound → ∀ owed wanted,
    Crosses KeepsPattern ⟨owed, wanted⟩ owed (unary expression) tokens)

include h

theorem links_crosses (read : List (Operator × Expr)) {tokens : Tokens}
    (ht : tokens.length ≤ bound) (owed : List Closer) :
    Crosses (fun value _ => value ≠ []) ⟨owed, false⟩ owed (links read) tokens := by
  cases tokens with
  | nil => exact .of_not_waits (not_waits_ok _)
  | cons next rest =>
    have hrest : rest.length ≤ bound := Nat.le_of_lt ht
    by_cases hinfix : ∃ o, next.token = .operator o ∧ o.isInfix = true
    · obtain ⟨o, hn, ho⟩ := hinfix
      have hskip := (skipNewlines_suffix rest).length_le
      apply Crosses.cons (links_operator read hn ho)
      rw [hn]
      apply Crosses.bind (unary_carried.skipped (unary_advances expression_advances))
        (unary_expression_settles owed true).skipped
        (.skipped (unary_wildcard owed) (h _ (Nat.le_trans hskip hrest) owed true))
      · intro e e' left value final _ hread
        refine ⟨_, links_closing _ owed, ?_⟩
        exact links_results (List.cons_ne_nil _ _) left value final hread
      · intro e left hread
        have hlt := (skipped_advances (unary_advances expression_advances)).length_lt hread
        exact links_crosses ((o, e) :: read) (Nat.le_trans (Nat.le_of_lt hlt) hrest) owed
    · apply Crosses.of_not_waits
      rw [links_done read hinfix]
      exact not_waits_ok _
termination_by tokens.length
decreasing_by
  subst_vars
  rw [List.length_cons]
  omega

theorem chain_crosses {tokens : Tokens} (ht : tokens.length ≤ bound) (owed : List Closer)
    (wanted : Bool) :
    Crosses KeepsPattern ⟨owed, wanted⟩ owed (chain (unary expression)) tokens := by
  have hcarried : (links []).Carried := fun x tokens =>
    Extension.iterate_carries (chainRound_advances (unary_advances expression_advances))
      (Extension.chainRound_carries (unary_advances expression_advances)
        (fun tokens _ => unary_carried x tokens)) [] (Nat.lt_succ_self _)
  have hsettles : Settles ⟨owed, false⟩ owed (links []) :=
    (iterate_chainRound_traverses (unary_traverses expression_traverses) [] owed false).settles
  have hchain : chain (unary expression) = fun tokens => unary expression tokens >>= fun first =>
      links [] first.2 >>= fun later => .ok (tree first.1 later.1, later.2) := rfl
  rw [hchain]
  apply Crosses.bind unary_carried (unary_expression_settles owed wanted) (h tokens ht owed wanted)
  · intro e e' left value final hkeeps hread
    refine ⟨e', bind_of_eq_ok (links_closing [] owed), ?_⟩
    cases hlinks : links [] left with
    | error stop => rw [hlinks] at hread; cases hread
    | ok later =>
      obtain ⟨read, rest⟩ := later
      rw [bind_of_eq_ok hlinks] at hread
      cases hread
      cases read with
      | nil => exact hkeeps
      | cons link others => exact (tree_noPattern e (List.cons_ne_nil _ _)).keeps e'
  · intro e left hread
    have hlt := (unary_advances expression_advances).length_lt hread
    apply Crosses.bind hcarried hsettles
      (links_crosses h [] (Nat.le_trans (Nat.le_of_lt hlt) ht) owed)
    · intro read read' rest value final hne hread
      cases hread
      exact ⟨tree e read', rfl, (tree_noPattern e hne).keeps _⟩
    · intro read rest _
      exact .of_not_waits (not_waits_ok _)

end Expressions

/-- An expression that goes on in a new line also goes on with what pays its debt. -/
theorem expression_crosses (tokens : Tokens) (owed : List Closer) (wanted : Bool) :
    Crosses KeepsPattern ⟨owed, wanted⟩ owed expression tokens := by
  induction hlength : tokens.length using Nat.strongRecOn generalizing tokens owed wanted with
  | ind length ih =>
    rw [funext expression_eq]
    refine chain_crosses ?_ (Nat.le_refl _) owed wanted
    intro part hp owed wanted
    have hinner : ∀ inner : Tokens, inner.length < tokens.length → ∀ owed wanted,
        Crosses KeepsPattern ⟨owed, wanted⟩ owed expression inner := fun inner hi owed wanted =>
      ih inner.length (hlength ▸ hi) inner owed wanted rfl
    exact unary_crosses hinner hp owed wanted

/-! ### Programs -/

def programNext (read : List Expr) : Reader (List Expr)
  | [] => .ok (read.reverse, [])
  | next :: rest =>
    if next.token = .newline then statementsFrom read rest
    else .error (unexpected (.token .newline) (next :: rest))

/-- A program at one of its statements or at its end. -/
def programFrom (read : List Expr) : Reader (List Expr)
  | [] => .ok (read.reverse, [])
  | next :: rest => statement expression (next :: rest) >>= fun s =>
    programNext (s.1 :: read) s.2

theorem statementsFrom_eq_programFrom (read : List Expr) (tokens : Tokens) :
    statementsFrom read tokens = programFrom read (skipNewlines tokens) := by
  rw [statementsFrom_eq]
  cases skipNewlines tokens with
  | nil => rfl
  | cons next rest =>
    rw [if_neg (List.cons_ne_nil _ _), programFrom]
    cases statement expression (next :: rest) with
    | error stop => rfl
    | ok pair => obtain ⟨s, _ | ⟨first, more⟩⟩ := pair <;> rfl

theorem statementsFrom_crosses (read : List Expr) (tokens : Tokens) (wanted : Bool) :
    Crosses Any ⟨[], wanted⟩ [] (statementsFrom read) tokens := by
  have ho : ([] : List Closer).head? ≠ some .equals := by simp
  rw [funext (statementsFrom_eq_programFrom read)]
  refine .skip ?_ fun hne => ?_
  · intro more value rest _
    cases wanted with
    | false => exact ⟨_, rfl, trivial⟩
    | true => exact ⟨_, bind_of_eq_ok (statement_wildcard ho), trivial⟩
  cases hskip : skipNewlines tokens with
  | nil => exact absurd hskip hne
  | cons next rest =>
    have hread : Crosses Any ⟨[], wanted⟩ [] (fun tokens =>
        statement expression tokens >>= fun s => programNext (s.1 :: read) s.2) (next :: rest) := by
      apply Crosses.bind statement_carried (statement_settles ho wanted) (statement_crosses (fun
        tokens _ => expression_crosses tokens) ho (Nat.lt_succ_self _) wanted)
      · intro s s' left value final _ _
        exact ⟨_, rfl, trivial⟩
      · intro s left hs
        have hlt := (statement_advances expression_advances).length_lt hs
        have hle := (skipNewlines_suffix tokens).length_le
        cases left with
        | nil => exact .of_not_waits (not_waits_ok _)
        | cons first more =>
          by_cases hline : first.token = .newline
          · apply Crosses.cons (fun later => if_pos hline)
            rw [hline]
            exact statementsFrom_crosses (s :: read) more false
          · apply Crosses.of_not_waits
            dsimp only [programNext]
            rw [if_neg hline]
            exact not_waits_unexpected_cons _ _ _
    exact .congr (fun later _ => rfl) hread
termination_by tokens.length
decreasing_by
  rw [hskip] at hle
  simp only [List.length_cons] at *
  omega

/-- Where the tokens are makes no difference to the statements. -/
theorem program_congr {tokens tokens' rest : Tokens} {statements : List Expr}
    (ht : tokens.map Located.token = tokens'.map Located.token)
    (h : program tokens = .ok (statements, rest)) :
    ∃ rest', program tokens' = .ok (statements, rest') := by
  have hplaced (tokens : Tokens) :
      (Extension.moving fun _ => .point 0).tokens tokens =
        (tokens.map Located.token).map anywhere := by
    rw [Extension.moving_tokens, List.map_map]
    rfl
  have hsame := program_moving (fun _ => .point 0) tokens'
  rw [hplaced, ← ht, ← hplaced, program_moving, h] at hsame
  cases hp : program tokens' with
  | error stop => rw [hp] at hsame; cases hsame
  | ok pair =>
    obtain ⟨read, left⟩ := pair
    rw [hp, Extension.result, Extension.result, Except.ok.injEq, Prod.mk.injEq] at hsame
    exact ⟨left, by rw [hsame.1]⟩

/-- A program that tokens in a new line complete is completed by what it owes. -/
theorem program_completed {tokens more rest : Tokens} {stop : Stop} {statements : List Expr}
    (hp : program tokens = .error stop)
    (h : program (tokens ++ lineEnd :: more) = .ok (statements, rest)) :
    ∃ statements' rest',
      program (tokens ++ lineEnd :: ((⟨[], true⟩ : Debt).afterAll tokens).tokens) =
        .ok (statements', rest') := by
  have hwaits : Waits (program tokens) := by
    refine ⟨stop, hp, ?_⟩
    apply Classical.byContradiction
    intro hend
    rw [(program_append_error hp hend lineEnd rfl more).1] at h
    cases h
  obtain ⟨statements', hread, -⟩ :=
    statementsFrom_crosses [] tokens true hwaits more statements rest h
  exact ⟨statements', [], hread⟩

def Closer.text : Closer → List Char
  | rightParen => [' ', ')']
  | rightBracket => [' ', ']']
  | endWord => ' ' :: "End".toList
  | equals => ' ' :: '=' :: ' ' :: "_".toList

def Debt.text (debt : Debt) : List Char :=
  (if debt.wanted then "_".toList else []) ++ debt.owed.flatMap Closer.text

theorem spells_underscore : Spells "_".toList [.underscore] := by
  have hword : Spells "_".toList [Token.ofWord "_"] := .word rfl rfl (List.forall_mem_nil _)
  exact hword

theorem Closer.spells (closer : Closer) : Spells closer.text closer.words := by
  cases closer with
  | rightParen => exact .blank (.sign (fun _ => rfl) .nil)
  | rightBracket => exact .blank (.sign (fun _ => rfl) .nil)
  | endWord =>
    have hword : Spells "End".toList [.endWord] := .keyword rfl rfl rfl rfl
    exact hword.blank
  | equals => exact .blank (.sign (fun _ => rfl) (.blank spells_underscore))

theorem spells_owed (owed : List Closer) :
    Spells (owed.flatMap Closer.text) (owed.flatMap Closer.words) ∧
      Breaks (owed.flatMap Closer.text) := by
  induction owed with
  | nil => exact ⟨.nil, .nil⟩
  | cons closer rest ih =>
    refine ⟨closer.spells.append ih.1 ih.2, ?_⟩
    cases closer <;> exact .cons rfl _

theorem Debt.spells (debt : Debt) : Spells debt.text debt.words := by
  obtain ⟨owed, wanted⟩ := debt
  obtain ⟨howed, hbreaks⟩ := spells_owed owed
  cases wanted with
  | false => exact howed
  | true => exact spells_underscore.append howed hbreaks

end Grammar

/-- The text that pays what the tokens of a text owe. -/
def closingText (source : String) : String :=
  match tokenize source.toList with
  | .ok tokens => String.ofList ((⟨[], true⟩ : Grammar.Debt).afterAll tokens).text
  | .error _ => ""

/-- The tokens of the closing text. -/
theorem tokenize_closingText {source : String} {tokens : List Located}
    (h : tokenize source.toList = .ok tokens) :
    ∃ closers, tokenize (closingText source).toList = .ok closers ∧
      closers.map Located.token = ((⟨[], true⟩ : Grammar.Debt).afterAll tokens).words := by
  rw [closingText, h]
  dsimp only
  rw [String.toList_ofList]
  exact tokenize_of_lexed (lexed_of_spells (Grammar.Debt.spells _))

/-- What is read after a text that has tokens, up to the places of the tokens. -/
theorem parseProgram_joined_iff {source more : String} {tokens later : List Located}
    (ht : tokenize source.toList = .ok tokens) (hm : tokenize more.toList = .ok later)
    {words : List Token} (hw : later.map Located.token = words) :
    (∃ statements, parseProgram (source ++ "\n" ++ more) = .ok statements) ↔
      ∃ statements rest, Grammar.program (tokens ++ Grammar.lineEnd :: words.map Grammar.anywhere) =
        .ok (statements, rest) := by
  have hjoined : tokenize (source ++ "\n" ++ more).toList = .ok (tokens ++
      newlineAfter source.toList :: later.map (Located.shift (byteLength source.toList + 1))) := by
    rw [tokenize_joined ht, hm]
    exact congrArg Except.ok (List.append_assoc _ _ _)
  have htokens : (tokens ++ newlineAfter source.toList ::
      later.map (Located.shift (byteLength source.toList + 1))).map Located.token =
        (tokens ++ Grammar.lineEnd :: words.map Grammar.anywhere).map Located.token := by
    rw [← hw]
    simp [Located.shift, newlineAfter, Grammar.lineEnd, Grammar.anywhere, Function.comp_def]
  constructor
  · rintro ⟨statements, h⟩
    obtain ⟨all, rest, hall, hprogram⟩ := parseProgram_eq_ok h
    rw [hjoined] at hall
    cases hall
    exact ⟨statements, Grammar.program_congr htokens hprogram⟩
  · rintro ⟨statements, rest, hprogram⟩
    obtain ⟨left, hread⟩ := Grammar.program_congr htokens.symm hprogram
    exact ⟨statements, by rw [parseProgram, Grammar.readAll, hjoined]; dsimp only; rw [hread]⟩

theorem exists_tokenize_of_joined {source more : String} {tokens : List Located}
    {statements : List Expr} (ht : tokenize source.toList = .ok tokens)
    (hm : parseProgram (source ++ "\n" ++ more) = .ok statements) :
    ∃ later, tokenize more.toList = .ok later := by
  obtain ⟨all, -, hall, -⟩ := parseProgram_eq_ok hm
  rw [tokenize_joined ht] at hall
  cases hmore : tokenize more.toList with
  | ok later => exact ⟨later, rfl⟩
  | error fault =>
    rw [hmore] at hall
    cases hall

/-- If any lines complete a text, the closing text does. -/
theorem parseProgram_closingText {source more : String} {tokens : List Located} {e : SyntaxError}
    {statements : List Expr} (ht : tokenize source.toList = .ok tokens)
    (h : parseProgram source = .error e)
    (hm : parseProgram (source ++ "\n" ++ more) = .ok statements) :
    ∃ statements', parseProgram (source ++ "\n" ++ closingText source) = .ok statements' := by
  obtain ⟨closers, hclosers, hwords⟩ := tokenize_closingText ht
  obtain ⟨stop, hstop⟩ : ∃ stop, Grammar.program tokens = .error stop := by
    rcases parseProgram_eq_error h with ⟨error, herror, -⟩ | ⟨other, stop, hother, hstop, -⟩
    · rw [ht] at herror
      cases herror
    · rw [ht] at hother
      cases hother
      exact ⟨stop, hstop⟩
  obtain ⟨later, hlater⟩ := exists_tokenize_of_joined ht hm
  obtain ⟨read, rest, hread⟩ := (parseProgram_joined_iff ht hlater rfl).1 ⟨statements, hm⟩
  exact (parseProgram_joined_iff ht hclosers hwords).2 (Grammar.program_completed hstop hread)

/-- A text that has tokens but is no program can be completed in a new line exactly if it came to
its end too early and what it owes completes it. -/
theorem completes_iff_closingText {source : String} {tokens : List Located} {e : SyntaxError}
    (ht : tokenize source.toList = .ok tokens) (h : parseProgram source = .error e) :
    (∃ more statements, parseProgram (source ++ "\n" ++ more) = .ok statements) ↔
      e.isIncomplete = true ∧
        ∃ statements, parseProgram (source ++ "\n" ++ closingText source) = .ok statements := by
  constructor
  · rintro ⟨more, statements, hm⟩
    refine ⟨?_, parseProgram_closingText ht h hm⟩
    rw [← Bool.not_eq_false]
    intro he
    rcases parseProgram_joined_error h he more with hfinal | ⟨-, fault, -, hfinal⟩
    · rw [hfinal] at hm
      cases hm
    · rw [hfinal] at hm
      cases hm
  · rintro ⟨-, statements, hclosed⟩
    exact ⟨closingText source, statements, hclosed⟩

/-- Whether a text has tokens and came to its end too early. -/
def isOpen (source : String) : Bool :=
  match tokenize source.toList, parseProgram source with
  | .ok _, .error e => e.isIncomplete
  | _, _ => false

theorem exists_of_isOpen {source : String} (h : isOpen source = true) :
    ∃ tokens e, tokenize source.toList = .ok tokens ∧ parseProgram source = .error e ∧
      e.isIncomplete = true := by
  rw [isOpen] at h
  split at h
  case h_1 tokens e ht hp => exact ⟨tokens, e, ht, hp, h⟩
  case h_2 => cases h

/-- A list in the arguments of a call. -/
theorem completes_iff_closingText_list :
    isOpen "f([x," = true ∧ closingText "f([x," = "_ ] )" ∧
      ∃ more statements, parseProgram ("f([x," ++ "\n" ++ more) = .ok statements := by
  have hopen : isOpen "f([x," = true := by decide +kernel
  have hclosed : (parseProgram ("f([x," ++ "\n" ++ closingText "f([x,")).isOk = true := by
    decide +kernel
  obtain ⟨tokens, e, htokens, he, hincomplete⟩ := exists_of_isOpen hopen
  cases hread : parseProgram ("f([x," ++ "\n" ++ closingText "f([x,") with
  | error fault => rw [hread] at hclosed; cases hclosed
  | ok statements =>
    exact ⟨hopen, by decide +kernel,
      (completes_iff_closingText htokens he).2 ⟨hincomplete, statements, hread⟩⟩

theorem not_completes_of_closingText {source : String} (ho : isOpen source = true)
    (hc : (parseProgram (source ++ "\n" ++ closingText source)).isOk = false) :
    ¬∃ more statements, parseProgram (source ++ "\n" ++ more) = .ok statements := by
  rintro ⟨more, statements, hm⟩
  obtain ⟨tokens, e, htokens, he, -⟩ := exists_of_isOpen ho
  obtain ⟨read, hread⟩ := parseProgram_closingText htokens he hm
  rw [hread] at hc
  cases hc

/-- Texts that wait for more input and that no line completes: an operator before its operand takes
no line end, a guard takes none before its value, and the target of a declaration may be at fault
before the value comes. -/
theorem not_completes_operator_guard_target :
    (isOpen "Not" = true ∧
      ¬∃ more statements, parseProgram ("Not" ++ "\n" ++ more) = .ok statements) ∧
    (isOpen "f(x) When x" = true ∧
      ¬∃ more statements, parseProgram ("f(x) When x" ++ "\n" ++ more) = .ok statements) ∧
    (isOpen "f(g()) =" = true ∧
      ¬∃ more statements, parseProgram ("f(g()) =" ++ "\n" ++ more) = .ok statements) := by
  have hopen : ∀ source ∈ ["Not", "f(x) When x", "f(g()) ="], isOpen source = true ∧
      (parseProgram (source ++ "\n" ++ closingText source)).isOk = false := by decide +kernel
  have hnone (source : String) (hs : source ∈ ["Not", "f(x) When x", "f(g()) ="]) :
      isOpen source = true ∧
        ¬∃ more statements, parseProgram (source ++ "\n" ++ more) = .ok statements :=
    ⟨(hopen source hs).1, not_completes_of_closingText (hopen source hs).1 (hopen source hs).2⟩
  exact ⟨hnone _ (by simp), hnone _ (by simp), hnone _ (by simp)⟩

end Song
