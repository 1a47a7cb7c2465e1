import Song.Proofs.Grammar.Completion

/-!
# Where no line ends

No line of a program ends after an operator before its operand, after a dot, after the keyword or
the parameters of a lambda, or after a guard. So a text that ends at such a place is completed by no
lines, although it waits for them. Neither is a declaration whose target is at fault, where reading
says so only after the value.
-/
namespace Song

namespace Grammar

def Seam.start : Seam :=
  .owing ⟨[], true⟩

theorem Seam.torn_afterAll {seam : Seam} (h : seam.torn = true) (tokens : Tokens) :
    (seam.afterAll tokens).torn = true := by
  induction tokens generalizing seam with
  | nil => exact h
  | cons next rest ih =>
    have hafter : (seam.after next.token).torn = true := by
      rw [Seam.after.eq_def]
      split <;> simp [h]
    exact ih hafter

/-- What is torn at the end of the statements was torn before them. -/
theorem statementsFrom_torn {read statements : List Expr} {tokens rest : Tokens} {seam : Seam}
    (h : statementsFrom read tokens = .ok (statements, rest)) (ho : seam.debt.owed = [])
    (ht : seam.tight = false) : (seam.afterAll tokens).torn = seam.torn := by
  have hr : seam.refuses = false := by simp [Seam.refuses, ho, ht]
  obtain ⟨starts, hskip⟩ := Seam.exists_skipNewlines rfl hr
  rw [statementsFrom_eq_programFrom] at h
  rw [← hskip]
  cases hnext : skipNewlines tokens with
  | nil => rfl
  | cons next more =>
    rw [hnext, programFrom] at h
    cases hs : statement expression (next :: more) with
    | error stop =>
      rw [hs] at h
      cases h
    | ok pair =>
      obtain ⟨s, left⟩ := pair
      rw [bind_of_eq_ok hs] at h
      have hhead : ({ seam with starts } : Seam).debt.owed.head? ≠ some .equals := by simp [ho]
      obtain ⟨after, rfl, hafter⟩ :=
        statement_traverses expression_traverses hhead (next :: more) s left hs
      rw [← hafter]
      cases left with
      | nil => rfl
      | cons line left =>
        rw [programNext] at h
        split at h
        case isTrue hline =>
          have hlt := (statement_advances expression_advances).length_lt hs
          have hle := (skipNewlines_suffix tokens).length_le
          have hdone : (Seam.done seam.debt.owed seam.torn).after .newline =
              ⟨⟨[], false⟩, true, false, seam.torn⟩ := by
            simp [Seam.done, Seam.after, Seam.refuses, separates, ho]
          rw [Seam.afterAll_cons, hline, hdone]
          exact statementsFrom_torn h rfl rfl
        case isFalse => cases h
termination_by tokens.length
decreasing_by
  rw [hnext] at hle
  simp only [List.length_cons] at hlt hle
  omega

/-- No line of a program ends at a place that refuses it. -/
theorem program_not_torn {tokens rest : Tokens} {statements : List Expr}
    (h : program tokens = .ok (statements, rest)) : (Seam.start.afterAll tokens).torn = false :=
  statementsFrom_torn h rfl rfl

theorem program_ne_ok_of_refuses {tokens : Tokens} (h : (Seam.start.afterAll tokens).refuses = true)
    (more : Tokens) (statements : List Expr) (rest : Tokens) :
    program (tokens ++ lineEnd :: more) ≠ .ok (statements, rest) := by
  intro hprogram
  have hline : ((Seam.start.afterAll tokens).after .newline).torn = true := by
    simp [Seam.after, h]
  have htorn := Seam.torn_afterAll hline more
  rw [← lineEnd_token, ← Seam.afterAll_cons, ← Seam.afterAll_append,
    program_not_torn hprogram] at htorn
  cases htorn

namespace Seam

variable (seam : Seam)

theorem refuses_dot : (seam.after .dot).refuses = true :=
  rfl

theorem refuses_fnWord : (seam.after .fnWord).refuses = true :=
  rfl

/-- A line does not end after an operator that stands before its operand. -/
theorem refuses_operator (h : seam.debt.wanted = true ∨ seam.starts = true) (o : Operator) :
    (seam.after (.operator o)).refuses = true := by
  rcases h with h | h <;> simp [after, refuses, h]

/-- A line does not end after the parameters of a lambda. -/
theorem refuses_parameters {tokens : Tokens} {patterns : List Expr}
    (h : arguments expression tokens = .ok (patterns, [])) :
    (((seam.after .fnWord).after .leftParen).afterAll tokens).refuses = true := by
  obtain ⟨after, rfl, hafter⟩ :=
    arguments_traverses expression_traverses (seam.after .fnWord) tokens patterns [] h
  rw [← hafter]
  rfl

/-- A line does not end after a guard. -/
theorem refuses_guard {tokens : Tokens} {guard : Expr}
    (h : expression (skipNewlines tokens) = .ok (guard, [])) :
    ((seam.after .whenWord).afterAll tokens).refuses = true := by
  have hr : (seam.after .whenWord).refuses = false := by simp [after, refuses, Debt.after]
  obtain ⟨after, rfl, hafter⟩ := expr_reaches expression_traverses rfl hr guard [] h
  rw [← hafter]
  have howe : (oweValue seam.debt.owed).head? = some .equals := by
    rw [oweValue]
    split
    · assumption
    · rfl
  simp [done, refuses, Seam.after, Debt.after, howe]

end Seam

theorem declared_ne_ok {target : Expr} {guard : Option Expr} {fault : SyntaxFault}
    (h : targetFault? target guard.isSome = some fault) (start : Option Span) (tokens : Tokens)
    (s : Expr) (rest : Tokens) : declared start target guard tokens ≠ .ok (s, rest) := by
  intro hread
  rw [declared] at hread
  cases hvalue : expression (skipNewlines tokens) with
  | error stop =>
    rw [hvalue] at hread
    cases hread
  | ok value =>
    rw [bind_of_eq_ok hvalue, declaration_eq, h] at hread
    cases hread

/-- The statement has read a target with which nothing can be declared, and its sign of equality or
its guard. -/
def IsFaulty (tokens : Tokens) : Prop :=
  ∃ target next left fault, expression tokens = .ok (target, next :: left) ∧
    (next.token = .equals ∧ targetFault? target false = some fault ∨
      next.token = .whenWord ∧ targetFault? target true = some fault)

theorem IsFaulty.statement_ne_ok {tokens : Tokens} (h : IsFaulty tokens) (more : Tokens) (s : Expr)
    (rest : Tokens) : statement expression (tokens ++ lineEnd :: more) ≠ .ok (s, rest) := by
  intro hread
  obtain ⟨target, next, left, fault, htarget, hnext⟩ := h
  rw [statement_eq, bind_of_eq_ok (expression_carried.ok htarget more), statementGuarded,
    List.cons_append, guard?] at hread
  rcases hnext with ⟨hequals, hfault⟩ | ⟨hwhen, hfault⟩
  · rw [eat?, if_neg (by simp [hequals])] at hread
    rw [bind_of_eq_ok rfl, statementValue, eat?, if_pos hequals] at hread
    exact declared_ne_ok hfault _ _ s rest hread
  · rw [eat?, if_pos hwhen] at hread
    dsimp only at hread
    cases hguard : expression (skipNewlines (left ++ lineEnd :: more)) with
    | error stop =>
      rw [hguard] at hread
      cases hread
    | ok guard =>
      rw [hguard] at hread
      have hnone := targetFault?_of_statementValue hread
      rw [hfault] at hnone
      cases hnone

theorem program_ne_ok_of_isFaulty {tokens : Tokens} (h : IsFaulty (skipNewlines tokens))
    (more : Tokens) (statements : List Expr) (rest : Tokens) :
    program (tokens ++ lineEnd :: more) ≠ .ok (statements, rest) := by
  intro hread
  have hne : skipNewlines tokens ≠ [] := by
    intro hnil
    obtain ⟨target, next, left, fault, htarget, -⟩ := h
    rw [hnil] at htarget
    cases htarget
  have hprogram : programFrom [] (skipNewlines tokens ++ lineEnd :: more) =
      .ok (statements, rest) := by
    rw [← skipNewlines_append hne, ← statementsFrom_eq_programFrom]
    exact hread
  cases hnext : skipNewlines tokens with
  | nil => exact hne hnext
  | cons next left =>
    rw [hnext] at h hprogram
    rw [List.cons_append, programFrom] at hprogram
    cases hs : statement expression (next :: (left ++ lineEnd :: more)) with
    | error stop =>
      rw [hs] at hprogram
      cases hprogram
    | ok pair => exact h.statement_ne_ok more pair.1 pair.2 hs

end Grammar

section Completion

variable {source : String} {tokens : List Located} (ht : tokenize source.toList = .ok tokens)

include ht

theorem not_completes_of_program_ne_ok
    (h : ∀ more statements rest,
      Grammar.program (tokens ++ Grammar.lineEnd :: more) ≠ .ok (statements, rest)) :
    ¬∃ more statements, parseProgram (source ++ "\n" ++ more) = .ok statements := by
  rintro ⟨more, statements, hread⟩
  obtain ⟨later, hlater⟩ := exists_tokenize_of_joined ht hread
  obtain ⟨all, rest, hprogram⟩ := (parseProgram_joined_iff ht hlater rfl).1 ⟨statements, hread⟩
  exact h _ all rest hprogram

/-- A text that ends where no line may end is completed by no lines. -/
theorem not_completes_of_refuses (h : (Grammar.Seam.start.afterAll tokens).refuses = true) :
    ¬∃ more statements, parseProgram (source ++ "\n" ++ more) = .ok statements :=
  not_completes_of_program_ne_ok ht (Grammar.program_ne_ok_of_refuses h)

/-- A text that declares something with a target at fault is completed by no lines. -/
theorem not_completes_of_isFaulty (h : Grammar.IsFaulty (Grammar.skipNewlines tokens)) :
    ¬∃ more statements, parseProgram (source ++ "\n" ++ more) = .ok statements :=
  not_completes_of_program_ne_ok ht (Grammar.program_ne_ok_of_isFaulty h)

end Completion

example : (tokenize "g([x, Fn(y)".toList).toOption.map
    (fun tokens => (Grammar.Seam.start.afterAll tokens).refuses) = some true := by
  decide +kernel

end Song
