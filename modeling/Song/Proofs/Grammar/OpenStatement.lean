import Song.Proofs.Grammar.Crossing

/-!
# Open lambdas, statements and blocks

A lambda, a statement or a block that goes on in a new line also goes on with the
tokens that pay its debt. Whether something can be declared depends on the target
alone, which has been read when the value is wanted.
-/
namespace Song

namespace Grammar

variable {α β : Type}

def Any (_ _ : α) : Prop :=
  True

def lambdaBody (patterns : List Expr) (guard : Option Expr) : Reader Expr := fun tokens =>
  expect .equals tokens >>= fun rest =>
    expression (skipNewlines rest) >>= fun read =>
      .ok (clause none patterns guard read.1, read.2)

/-- A lambda after its patterns. -/
def lambdaGuarded (patterns : List Expr) : Reader Expr := fun tokens =>
  guard? expression tokens >>= fun read => lambdaBody patterns read.1 read.2

def lambdaFrom (start : Option Span) : Reader Expr := fun tokens =>
  arguments expression tokens >>= fun read =>
    requirePatterns start read.1 >>= fun _ => lambdaGuarded read.1 read.2

theorem lambda_leftParen {next : Located} (hn : next.token = .leftParen) (tokens : Tokens) :
    lambda expression (next :: tokens) = lambdaFrom (place tokens) tokens := by
  rw [lambda, expect, eat?, if_pos hn]
  rfl

theorem lambdaBody_closing (patterns : List Expr) (guard : Option Expr) (owed : List Closer) :
    lambdaBody patterns guard (closing (.equals :: owed)) =
      .ok (clause none patterns guard .wildcard, closing owed) := by
  rw [lambdaBody, closing_equals, ← tokens_wanted, anywhere, bind_expect_cons,
    bind_of_eq_ok (skipped_wildcard owed)]

theorem lambdaGuarded_closing (patterns : List Expr) (owed : List Closer) :
    lambdaGuarded patterns (closing (.equals :: owed)) =
      .ok (clause none patterns none .wildcard, closing owed) :=
  lambdaBody_closing patterns none owed

theorem nonPatternAmong?_of_bind {start : Option Span} {patterns : List Expr}
    {next : Unit → Except Stop β} {value : β}
    (h : (requirePatterns start patterns >>= next) = .ok value) :
    Expr.nonPatternAmong? patterns = none := by
  rw [requirePatterns] at h
  split at h
  · cases h
  · assumption

theorem arguments_carried : (arguments expression).Carried :=
  fun x _ => Extension.arguments_carries expression_advances
    (fun tokens _ => x.expression_carries tokens) (Nat.lt_succ_self _)

def declared (start : Option Span) (target : Expr) (guard : Option Expr) : Reader Expr :=
  fun tokens =>
    expression (skipNewlines tokens) >>= fun read =>
      declaration start target guard read.1 >>= fun s => .ok (s, read.2)

def statementValue (start : Option Span) (target : Expr) (guard : Option Expr) : Reader Expr :=
  fun tokens =>
    match eat? .equals tokens with
    | some rest => declared start target guard rest
    | none =>
      if guard.isSome then .error (unexpected .equalsAfterGuard tokens) else .ok (target, tokens)

/-- A statement after its target. -/
def statementGuarded (start : Option Span) (target : Expr) : Reader Expr := fun tokens =>
  guard? expression tokens >>= fun read => statementValue start target read.1 read.2

theorem statement_eq (tokens : Tokens) :
    statement expression tokens =
      expression tokens >>= fun read => statementGuarded (place tokens) read.1 read.2 :=
  rfl

/-- A value is given only to a target that has no fault. -/
theorem targetFault?_of_statementValue {start : Option Span} {target guard value : Expr}
    {tokens rest : Tokens}
    (h : statementValue start target (some guard) tokens = .ok (value, rest)) :
    targetFault? target true = none := by
  rw [statementValue] at h
  split at h
  case h_1 more hmore =>
    rw [declared] at h
    cases hread : expression (skipNewlines more) with
    | error stop => rw [hread] at h; cases h
    | ok pair =>
      rw [bind_of_eq_ok hread, declaration_eq] at h
      cases hfault : targetFault? target true with
      | none => rfl
      | some fault =>
        rw [Option.isSome_some, hfault] at h
        cases h
  case h_2 => cases h

theorem statementValue_closing {target : Expr} (ht : targetFault? target true = none)
    (start : Option Span) (guard : Expr) (owed : List Closer) :
    statementValue start target (some guard) (closing (.equals :: owed)) =
      .ok (declaredBy target (some guard) .wildcard, closing owed) := by
  rw [statementValue, closing_equals, ← tokens_wanted, anywhere, eat?_cons]
  dsimp only
  rw [declared, bind_of_eq_ok (skipped_wildcard owed), declaration_eq, Option.isSome_some, ht]
  rfl

theorem statementGuarded_closing {owed : List Closer} (ho : owed.head? ≠ some .equals)
    (start : Option Span) (target : Expr) :
    statementGuarded start target (closing owed) = .ok (target, closing owed) := by
  cases owed with
  | nil => rfl
  | cons closer rest =>
    cases closer with
    | equals => exact absurd rfl ho
    | _ => rfl

theorem statement_wildcard {owed : List Closer} (ho : owed.head? ≠ some .equals) :
    statement expression (⟨owed, true⟩ : Debt).tokens = .ok (.wildcard, closing owed) := by
  rw [statement_eq, tokens_wanted, bind_of_eq_ok (expression_wildcard _)]
  exact statementGuarded_closing ho _ .wildcard

theorem statement_carried : (statement expression).Carried :=
  fun x _ => Extension.statement_carries expression_advances
    (fun tokens _ => x.expression_carries tokens) (Nat.lt_succ_self _)

def blockSeparated (statements : List Expr) : Reader Expr := fun tokens =>
  match eat? .endWord (tokens.dropWhile isSeparator) with
  | some rest => .ok (.block statements.reverse, rest)
  | none =>
    if (tokens.head?.map isSeparator).getD false then
      iterate (blockStatement expression) statements (tokens.dropWhile isSeparator)
    else .error (unexpected .separator tokens)

theorem iterate_blockStatement_eq (statements : List Expr) (tokens : Tokens) :
    iterate (blockStatement expression) statements tokens =
      match eat? .endWord tokens with
      | some rest => .ok (.block statements.reverse, rest)
      | none => statement expression tokens >>= fun read =>
        blockSeparated (read.1 :: statements) read.2 := by
  rw [iterate_eq (.of_advances (blockStatement_advances expression_advances)), blockStatement]
  cases eat? .endWord tokens with
  | some rest => rfl
  | none =>
    dsimp only
    cases statement expression tokens with
    | error stop => rfl
    | ok pair =>
      obtain ⟨s, rest⟩ := pair
      rw [bind_of_eq_ok rfl, bind_of_eq_ok rfl, blockSeparated]
      dsimp only
      cases eat? .endWord (rest.dropWhile isSeparator) with
      | some final => rfl
      | none => cases (rest.head?.map isSeparator).getD false <;> rfl

theorem blockSeparated_closing (statements : List Expr) (owed : List Closer) :
    blockSeparated statements (closing (.endWord :: owed)) =
      .ok (.block statements.reverse, closing owed) :=
  rfl

theorem iterate_blockStatement_closing (statements : List Expr) (owed : List Closer) :
    iterate (blockStatement expression) statements (⟨.endWord :: owed, true⟩ : Debt).tokens =
      .ok (.block (Expr.wildcard :: statements).reverse, closing owed) := by
  have ho : (Closer.endWord :: owed).head? ≠ some .equals := by simp
  have hend : eat? .endWord (⟨.endWord :: owed, true⟩ : Debt).tokens = none := rfl
  rw [iterate_blockStatement_eq, hend]
  dsimp only
  rw [bind_of_eq_ok (statement_wildcard ho)]
  exact blockSeparated_closing _ owed

/-- Only separators are left, and the block is closed in the new line. -/
theorem blockSeparated_of_separators (statements : List Expr) {tokens : Tokens}
    (hdrop : tokens.dropWhile isSeparator = []) (owed : List Closer) (wanted : Bool) :
    ∃ value, blockSeparated statements
      (tokens ++ lineEnd :: (⟨.endWord :: owed, wanted⟩ : Debt).tokens) =
        .ok (value, closing owed) := by
  have hall : (tokens ++ lineEnd :: (⟨.endWord :: owed, wanted⟩ : Debt).tokens).dropWhile
      isSeparator = (⟨.endWord :: owed, wanted⟩ : Debt).tokens := by
    rw [List.dropWhile_append, hdrop]
    cases wanted <;> rfl
  have hhead : ((tokens ++ lineEnd :: (⟨.endWord :: owed, wanted⟩ : Debt).tokens).head?.map
      isSeparator).getD false = true := by
    cases tokens with
    | nil => rfl
    | cons next rest =>
      by_cases hn : isSeparator next = true
      · exact hn
      · rw [List.dropWhile_cons_of_neg hn] at hdrop
        cases hdrop
  rw [blockSeparated, hall, if_pos hhead]
  cases wanted with
  | false => exact ⟨_, rfl⟩
  | true => exact ⟨_, iterate_blockStatement_closing statements owed⟩

theorem blockSeparated_crosses (statements : List Expr) {tokens : Tokens} {owed : List Closer}
    (hrest : ∀ wanted, Crosses Any ⟨.endWord :: owed, wanted⟩ owed
      (iterate (blockStatement expression) statements) (tokens.dropWhile isSeparator)) :
    Crosses Any ⟨.endWord :: owed, false⟩ owed (blockSeparated statements) tokens := by
  obtain ⟨wanted, hdebt⟩ := Debt.exists_afterAll_dropWhile (.endWord :: owed) false tokens
  cases hdrop : tokens.dropWhile isSeparator with
  | nil =>
    intro _ more value rest _
    rw [hdrop, Debt.afterAll_nil] at hdebt
    rw [← hdebt]
    obtain ⟨value', hread⟩ := blockSeparated_of_separators statements hdrop owed wanted
    exact ⟨value', hread, trivial⟩
  | cons next rest =>
    have hall (more : Tokens) :
        (tokens ++ more).dropWhile isSeparator = tokens.dropWhile isSeparator ++ more := by
      rw [List.dropWhile_append, hdrop]
      rfl
    obtain ⟨first, others, rfl⟩ : ∃ first others, tokens = first :: others := by
      cases tokens with
      | nil => cases hdrop
      | cons first others => exact ⟨first, others, rfl⟩
    by_cases hend : next.token = .endWord
    · apply Crosses.of_not_waits
      rw [blockSeparated, hdrop, eat?, if_pos hend]
      exact not_waits_ok _
    by_cases hsep : isSeparator first = true
    · have hgoes (more : Tokens) : blockSeparated statements (first :: others ++ more) =
          iterate (blockStatement expression) statements
            ((first :: others).dropWhile isSeparator ++ more) := by
        rw [blockSeparated, hall, hdrop, List.cons_append, List.cons_append, eat?, if_neg hend]
        exact if_pos hsep
      have hself := hgoes []
      rw [List.append_nil, List.append_nil] at hself
      intro hwaits more value final hread
      rw [hself] at hwaits
      rw [hgoes] at hread
      rw [hgoes, ← hdebt]
      exact hrest wanted hwaits more value final hread
    · apply Crosses.of_not_waits
      rw [blockSeparated, hdrop, eat?, if_neg hend]
      dsimp only
      rw [List.head?_cons, Option.map_some, Option.getD_some, if_neg hsep]
      exact not_waits_unexpected_cons _ _ _

/-! ### Going on in a new line -/

section Rules

variable {bound : Nat}
  (h : ∀ tokens, tokens.length < bound → ∀ owed wanted,
    Crosses KeepsPattern ⟨owed, wanted⟩ owed expression tokens)

include h

/-- The value after a sign of equality. -/
theorem value_crosses (f : Expr → Expr) {tokens : Tokens} (ht : tokens.length < bound)
    (owed : List Closer) :
    Crosses Any ⟨owed, true⟩ owed (fun tokens =>
      expression (skipNewlines tokens) >>= fun read => .ok (f read.1, read.2)) tokens := by
  apply Crosses.bind skipped_carried (skipped_settles _ true) (skipped_crosses h ht _)
  · intro e e' rest value final _ _
    exact ⟨f e', rfl, trivial⟩
  · intro e left _
    exact .of_not_waits (not_waits_ok _)

theorem lambdaBody_crosses (patterns : List Expr) (guard : Option Expr) {tokens : Tokens}
    (ht : tokens.length < bound) (owed : List Closer) :
    Crosses Any ⟨.equals :: owed, false⟩ owed (lambdaBody patterns guard) tokens := by
  cases tokens with
  | nil => exact .nil fun more => ⟨_, rfl⟩
  | cons next rest =>
    by_cases hequals : next.token = .equals
    · have hgoes (later : Tokens) : lambdaBody patterns guard (next :: later) =
          expression (skipNewlines later) >>= fun read =>
            .ok (clause none patterns guard read.1, read.2) := by
        rw [lambdaBody, expect, eat?, if_pos hequals]
        rfl
      apply Crosses.cons hgoes
      rw [hequals]
      exact value_crosses h _ (Nat.lt_of_succ_lt ht) owed
    · apply Crosses.of_not_waits
      rw [lambdaBody, expect, eat?, if_neg hequals]
      exact not_waits_unexpected_cons _ _ _

theorem lambdaGuarded_crosses (patterns : List Expr) {tokens : Tokens}
    (ht : tokens.length < bound) (owed : List Closer) :
    Crosses Any ⟨.equals :: owed, false⟩ owed (lambdaGuarded patterns) tokens := by
  cases tokens with
  | nil => exact .nil fun more => ⟨_, rfl⟩
  | cons next rest =>
    have hrest := Nat.lt_of_succ_lt ht
    by_cases hwhen : next.token = .whenWord
    · have hgoes (later : Tokens) : lambdaGuarded patterns (next :: later) =
          expression (skipNewlines later) >>= fun read =>
            lambdaBody patterns (some read.1) read.2 := by
        rw [lambdaGuarded, guard?, eat?, if_pos hwhen]
        dsimp only
        cases expression (skipNewlines later) <;> rfl
      apply Crosses.cons hgoes
      rw [hwhen]
      apply Crosses.bind skipped_carried (skipped_settles _ true) (skipped_crosses h hrest _)
      · intro e e' left value final _ _
        exact ⟨_, lambdaBody_closing patterns (some e') owed, trivial⟩
      · intro e left hread
        have hlt := (skipped_advances expression_advances).length_lt hread
        exact lambdaBody_crosses h patterns (some e) (Nat.lt_trans hlt hrest) owed
    · refine .congr ?_ (lambdaBody_crosses h patterns none ht owed)
      intro later _
      rw [lambdaGuarded, List.cons_append, guard?, eat?, if_neg hwhen]
      rfl

theorem lambdaFrom_crosses (start : Option Span) {tokens : Tokens} (ht : tokens.length < bound)
    (owed : List Closer) :
    Crosses Any ⟨.rightParen :: .equals :: owed, true⟩ owed (lambdaFrom start) tokens := by
  apply Crosses.bind arguments_carried (arguments_settles _) (arguments_crosses h ht _)
  · intro patterns patterns' rest value final hkeeps hread
    have hpatterns : Expr.nonPatternAmong? patterns' = none := by
      rw [nonPatternAmong?_eq_none]
      exact hkeeps (nonPatternAmong?_eq_none.1 (nonPatternAmong?_of_bind hread))
    refine ⟨clause none patterns' none .wildcard, ?_, trivial⟩
    dsimp only
    rw [bind_requirePatterns hpatterns]
    exact lambdaGuarded_closing patterns' owed
  · intro patterns left hread
    have hlt := (arguments_advances expression_advances).length_lt hread
    dsimp only
    cases hpatterns : Expr.nonPatternAmong? patterns with
    | some part =>
      intro _ more value rest hok
      rw [nonPatternAmong?_of_bind hok] at hpatterns
      cases hpatterns
    | none =>
      refine .congr ?_ (lambdaGuarded_crosses h patterns (Nat.lt_trans hlt ht) owed)
      intro later _
      rw [bind_requirePatterns hpatterns]

theorem lambda_crosses {tokens : Tokens} (ht : tokens.length < bound) (owed : List Closer) :
    Crosses Any ⟨.equals :: owed, true⟩ owed (lambda expression) tokens := by
  cases tokens with
  | nil => exact .nil fun more => ⟨_, rfl⟩
  | cons next rest =>
    have hrest := Nat.lt_of_succ_lt ht
    by_cases hparen : next.token = .leftParen
    · apply Crosses.cons (lambda_leftParen hparen)
      rw [hparen]
      cases rest with
      | cons first more =>
        exact .congr (fun later _ => rfl) (lambdaFrom_crosses h (place (first :: more)) hrest owed)
      | nil =>
        -- the place of the patterns is in the new line, but no pattern is at fault
        intro _ more value final _
        refine ⟨clause none [.wildcard] none .wildcard, ?_, trivial⟩
        have hargs : arguments expression
            (lineEnd :: (⟨.rightParen :: .equals :: owed, true⟩ : Debt).tokens) =
              .ok ([.wildcard], closing (.equals :: owed)) := iterate_item_closing [] _
        dsimp only [Debt.afterAll_nil, List.nil_append, Debt.after]
        rw [lambdaFrom, bind_of_eq_ok hargs, bind_requirePatterns rfl]
        exact lambdaGuarded_closing [.wildcard] owed
    · apply Crosses.of_not_waits
      rw [lambda, expect, eat?, if_neg hparen]
      exact not_waits_unexpected_cons _ _ _

theorem declared_crosses (start : Option Span) (target : Expr) (guard : Option Expr)
    {tokens : Tokens} (ht : tokens.length < bound) (owed : List Closer) :
    Crosses Any ⟨owed, true⟩ owed (declared start target guard) tokens := by
  unfold declared
  simp only [declaration_eq]
  cases targetFault? target guard.isSome with
  | none => exact value_crosses h (declaredBy target guard) ht owed
  | some fault =>
    intro _ more value rest hread
    dsimp only at hread
    cases hvalue : expression (skipNewlines (tokens ++ lineEnd :: more)) with
    | error stop => rw [hvalue] at hread; cases hread
    | ok pair => rw [hvalue] at hread; cases hread

theorem statementValue_crosses (start : Option Span) (target : Expr) (guard : Option Expr)
    {tokens : Tokens} (ht : tokens.length < bound) {before : Debt} {owed : List Closer}
    (hd : before.after .equals = ⟨owed, true⟩) :
    Crosses Any before owed (statementValue start target guard) tokens := by
  cases tokens with
  | nil =>
    cases guard with
    | none => exact .of_not_waits (not_waits_ok _)
    | some e => exact .nil fun more => ⟨_, rfl⟩
  | cons next rest =>
    by_cases hequals : next.token = .equals
    · have hgoes (later : Tokens) : statementValue start target guard (next :: later) =
          declared start target guard later := by
        rw [statementValue, eat?, if_pos hequals]
      apply Crosses.cons hgoes
      rw [hequals, hd]
      exact declared_crosses h start target guard (Nat.lt_of_succ_lt ht) owed
    · apply Crosses.of_not_waits
      rw [statementValue, eat?, if_neg hequals]
      dsimp only
      split
      · exact not_waits_unexpected_cons _ _ _
      · exact not_waits_ok _

section Statement

variable {owed : List Closer} (ho : owed.head? ≠ some .equals)

include ho

theorem statementGuarded_crosses (start : Option Span) (target : Expr) {tokens : Tokens}
    (ht : tokens.length < bound) :
    Crosses Any ⟨owed, false⟩ owed (statementGuarded start target) tokens := by
  cases tokens with
  | nil => exact .of_not_waits (not_waits_ok _)
  | cons next rest =>
    have hrest := Nat.lt_of_succ_lt ht
    by_cases hwhen : next.token = .whenWord
    · have hgoes (later : Tokens) : statementGuarded start target (next :: later) =
          expression (skipNewlines later) >>= fun read =>
            statementValue start target (some read.1) read.2 := by
        rw [statementGuarded, guard?, eat?, if_pos hwhen]
        dsimp only
        cases expression (skipNewlines later) <;> rfl
      have howe : oweValue owed = .equals :: owed := if_neg ho
      apply Crosses.cons hgoes
      rw [hwhen, Debt.after, howe]
      apply Crosses.bind skipped_carried (skipped_settles _ true) (skipped_crosses h hrest _)
      · intro e e' left value final _ hread
        have hfault := targetFault?_of_statementValue hread
        exact ⟨_, statementValue_closing hfault start e' owed, trivial⟩
      · intro e left hread
        have hlt := (skipped_advances expression_advances).length_lt hread
        exact statementValue_crosses h start target (some e) (Nat.lt_trans hlt hrest) rfl
    · have hpay : (⟨owed, false⟩ : Debt).after .equals = ⟨owed, true⟩ := by
        rw [Debt.after, pay_equals ho]
      refine .congr ?_ (statementValue_crosses h start target none ht hpay)
      intro later _
      rw [statementGuarded, List.cons_append, guard?, eat?, if_neg hwhen]
      rfl

theorem statement_crosses {tokens : Tokens} (ht : tokens.length < bound) (wanted : Bool) :
    Crosses Any ⟨owed, wanted⟩ owed (statement expression) tokens := by
  cases tokens with
  | nil => exact .nil fun more => ⟨_, rfl⟩
  | cons next rest =>
    have hread : Crosses Any ⟨owed, wanted⟩ owed (fun tokens => expression tokens >>= fun read =>
        statementGuarded (place (next :: rest)) read.1 read.2) (next :: rest) := by
      apply Crosses.bind expression_carried (expression_settles _ wanted) (h _ ht _ wanted)
      · intro e e' left value final _ _
        exact ⟨e', statementGuarded_closing ho _ e', trivial⟩
      · intro e left hread
        have hlt := expression_advances.length_lt hread
        exact statementGuarded_crosses h ho _ e (Nat.lt_trans hlt ht)
    exact .congr (fun later _ => rfl) hread

end Statement

theorem iterate_blockStatement_crosses (statements : List Expr) {tokens : Tokens}
    (ht : tokens.length < bound) (owed : List Closer) (wanted : Bool) :
    Crosses Any ⟨.endWord :: owed, wanted⟩ owed (iterate (blockStatement expression) statements)
      tokens := by
  have ho : (Closer.endWord :: owed).head? ≠ some .equals := by simp
  cases tokens with
  | nil => exact .nil fun more => ⟨_, rfl⟩
  | cons next rest =>
    by_cases hend : next.token = .endWord
    · apply Crosses.of_not_waits
      rw [iterate_blockStatement_eq, eat?, if_pos hend]
      exact not_waits_ok _
    have hread : Crosses Any ⟨.endWord :: owed, wanted⟩ owed (fun tokens =>
        statement expression tokens >>= fun read => blockSeparated (read.1 :: statements) read.2)
        (next :: rest) := by
      apply Crosses.bind statement_carried (statement_settles ho wanted)
        (statement_crosses h ho ht wanted)
      · intro s s' left value final _ _
        exact ⟨_, blockSeparated_closing _ owed, trivial⟩
      · intro s left hread
        have hlt := (statement_advances expression_advances).length_lt hread
        have hle := (List.dropWhile_suffix (l := left) isSeparator).length_le
        apply blockSeparated_crosses _
        intro wanted
        exact iterate_blockStatement_crosses (s :: statements)
          (Nat.lt_of_le_of_lt hle (Nat.lt_trans hlt ht)) owed wanted
    refine .congr ?_ hread
    intro later _
    rw [iterate_blockStatement_eq, List.cons_append, eat?, if_neg hend]
termination_by tokens.length

theorem block_crosses {tokens : Tokens} (ht : tokens.length < bound) (owed : List Closer) :
    Crosses Any ⟨.endWord :: owed, true⟩ owed (block expression) tokens := by
  refine .skip ?_ fun _ =>
    iterate_blockStatement_crosses h [] (Extension.length_skipNewlines_lt ht) owed true
  intro more value rest _
  exact ⟨_, iterate_blockStatement_closing [] owed, trivial⟩

end Rules

end Grammar
end Song
