import Song.Proofs.Grammar.Joined
import Song.Proofs.Grammar.Spacing

/-!
# Programs with more line ends

Line ends may be added to the tokens of a program wherever they say nothing, at any depth and any
number of them: it is the same program.
-/
namespace Song

namespace Grammar

variable {β σ : Type}

theorem skipNewlines_cons {next : Located} (h : next.token = .newline) (rest : Tokens) :
    skipNewlines (next :: rest) = skipNewlines rest :=
  List.dropWhile_cons_of_pos (by simpa using h)

/-- The next statement, or the end, comes after line ends. -/
theorem nextLine_eq (state : σ) {tokens : Tokens} (h : Follows (· = .newline) tokens) :
    (if tokens.isEmpty then (.ok (.again state, []) : Except Stop (Round σ β × Tokens))
      else expect .newline tokens >>= fun rest => .ok (.again state, skipNewlines rest)) =
      .ok (.again state, skipNewlines tokens) := by
  cases tokens with
  | nil => rfl
  | cons next rest =>
    have hnext : next.token = .newline := by simpa using h next rfl
    rw [List.isEmpty_cons, if_neg Bool.false_ne_true, expect, eat?, if_pos hnext,
      skipNewlines_cons hnext]
    rfl

/-- After a statement nothing but line ends comes before the next one. -/
theorem nextLine_agrees (state : σ) {tokens spaced : Tokens} (hs : Exits [] tokens spaced) :
    Agrees (Round.Relates (Enters []) fun _ rest => rest = [])
      (if tokens.isEmpty then (.ok (.again state, []) : Except Stop (Round σ β × Tokens))
        else expect .newline tokens >>= fun rest => .ok (.again state, skipNewlines rest))
      (if spaced.isEmpty then .ok (.again state, [])
        else expect .newline spaced >>= fun rest => .ok (.again state, skipNewlines rest)) := by
  by_cases hline : Follows (· = .newline) tokens
  · have hline' : Follows (· = .newline) spaced := by
      cases hs with
      | done => exact .nil
      | @next _ t t' _ rest ht =>
        have ht' : decide (t'.token = .newline) = true := by
          rw [ht]
          exact hline t rfl
        exact .cons ht' t'.span rest
      | @line _ line _ rest hl => exact .cons (by simpa using hl) line.span rest
    rw [nextLine_eq state hline, nextLine_eq state hline']
    apply Agrees.ok
    obtain ⟨margin, hmargin, hskip⟩ := hs.skip .nil
    have hsolid := solid_skipNewlines spaced
    rcases hmargin with rfl | ⟨-, hkept⟩
    · exact ⟨.free, by decide, hskip, hsolid⟩
    · -- no line end was there to pass over, and so nothing is left
      have hnil : tokens = [] := by
        cases tokens with
        | nil => rfl
        | cons next rest =>
          have hnot := List.dropWhile_eq_self_iff.1 hkept (Nat.zero_lt_succ _)
          exact absurd (hline next rfl) hnot
      subst hnil
      rw [hskip.eq_of_nil hsolid]
      exact ⟨.free, by decide, .done .free, .nil⟩
  · cases tokens with
    | nil => exact absurd .nil hline
    | cons next rest =>
      rw [List.isEmpty_cons, if_neg Bool.false_ne_true, expect, eat?, if_neg]
      · exact .error _ _
      · intro hnext
        exact hline (.cons (by simpa using hnext) next.span rest)

theorem programStatement_agrees (statements : List Expr) (tokens spaced : Tokens)
    (hs : Enters [] tokens spaced) :
    Agrees (Round.Relates (Enters []) fun _ rest => rest = []) (programStatement statements tokens)
      (programStatement statements spaced) := by
  have hstatement := statement_agrees .nil (expression_agrees .nil) hs
  obtain ⟨margin, -, hspaced, hsolid⟩ := hs
  cases tokens with
  | nil =>
    rw [hspaced.eq_of_nil hsolid]
    exact .ok rfl
  | cons next rest =>
    obtain ⟨next', rest', rfl, -, -⟩ := hspaced.uncons hsolid
    apply hstatement.bind
    intro s left left' hleft
    exact nextLine_agrees (s :: statements) hleft

/-- Line ends where they say nothing leave a program as it is. -/
theorem program_agrees {tokens spaced : Tokens} (hs : Spaced [] .free tokens spaced)
    {statements : List Expr} {rest : Tokens} (h : program tokens = .ok (statements, rest)) :
    program spaced = .ok (statements, []) := by
  have hagrees := iterate_agrees programStatement_advances programStatement_agrees []
    (hs.enters .nil)
  obtain ⟨rest', hspaced, rfl⟩ := hagrees statements rest h
  exact hspaced

/-- A line end between the tokens says nothing: at the start and at the end, after a token that
leads on and before one that trails, and after an operator between two operands. -/
inductive Breakable : List Token → List Token → Prop
  | start (after : List Token) : Breakable [] after
  | finish (before : List Token) : Breakable before []
  | following (before after : List Token) {t : Token} (ht : t.leadsOn = true) :
    Breakable (before ++ [t]) after
  | preceding (before after : List Token) {t : Token} (ht : t.trails = true) :
    Breakable before (t :: after)
  | operation (before after : List Token) {t : Token} {o : Operator} (ht : t.completes = true)
    (ho : o.isInfix = true) : Breakable (before ++ [t, .operator o]) after

/-- The tokens with line ends added, one after the other, where they say nothing. -/
inductive Loosened (words : List Token) : List Token → Prop
  | same : Loosened words words
  | line {before after : List Token} (h : Loosened words (before ++ after))
    (hb : Breakable before after) : Loosened words (before ++ .newline :: after)

def Margin.afterAll (margin : Margin) (words : List Token) : Margin :=
  words.foldl after margin

theorem Spaced.of_line {line : Located} (hline : line.token = .newline) {before after : Tokens}
    {margin : Margin}
    (hplace : margin.afterAll (before.map Located.token) = .free ∨ Follows Token.trails after) :
    Spaced [] margin (before ++ after) (before ++ line :: after) := by
  induction before generalizing margin with
  | nil =>
    have hafter : Spaced [] margin after (after ++ []) := .of_map_eq rfl [] margin
    rw [List.append_nil] at hafter
    exact .line hline hplace hafter
  | cons t before ih => exact .next rfl (ih hplace)

/-- Where a line end says nothing the tokens before it or the one after it show that. -/
theorem Breakable.place {before after : List Token} (h : Breakable before after) :
    Margin.free.afterAll before = .free ∨ ∀ t ∈ after.head?, t.trails = true := by
  cases h with
  | start => exact Or.inl rfl
  | finish => exact Or.inr fun t hmem => absurd hmem (Option.not_mem_none t)
  | following before _ ht =>
    rw [Margin.afterAll, List.foldl_append]
    exact Or.inl (Margin.after_of_leadsOn ht _)
  | preceding _ _ ht =>
    apply Or.inr
    intro t hmem
    cases hmem
    exact ht
  | operation before _ ht ho =>
    rw [Margin.afterAll, List.foldl_append]
    simp only [List.foldl_cons, List.foldl_nil]
    rw [Margin.after_completes ht, Margin.after, Token.isInfix, ho]
    exact Or.inl rfl

/-- Tokens that are a program are the same program, wherever they stand, with line ends added where
they say nothing. -/
theorem program_loosened {tokens loosened : Tokens} {statements : List Expr} {rest : Tokens}
    (h : program tokens = .ok (statements, rest))
    (hl : Loosened (tokens.map Located.token) (loosened.map Located.token)) :
    program loosened = .ok (statements, []) := by
  generalize hwords : loosened.map Located.token = words at hl
  induction hl generalizing loosened with
  | same =>
    have hspaced := Spaced.of_map_eq hwords.symm [] .free
    rw [List.append_nil] at hspaced
    exact program_agrees hspaced h
  | line _ hb ih =>
    obtain ⟨before, later, rfl, rfl, hlater⟩ := List.map_eq_append_iff.1 hwords
    obtain ⟨span, after, rfl, rfl⟩ := map_token_cons hlater
    have hbefore : program (before ++ after) = .ok (statements, []) := ih List.map_append
    have hplace : Margin.free.afterAll (before.map Located.token) = .free ∨
        Follows Token.trails after :=
      hb.place.imp_right fun htrails next hnext =>
        htrails next.token (by rw [List.head?_map, hnext]; rfl)
    exact program_agrees (Spaced.of_line rfl hplace) hbefore

/-- The clause `f(x) = Do x + 1 End`. -/
def successor : Expr :=
  .function ⟨some "f", [.name "x"], .bool true, .block [.call "+" [.name "x", .int 1]]⟩

/-- The tokens of the clause and, on a line of its own, of the call `f(2)`. -/
def successorWords : List Token :=
  [.identifier "f", .leftParen, .identifier "x", .rightParen, .equals, .doWord, .identifier "x",
    .operator .plus, .int 1, .endWord, .newline, .identifier "f", .leftParen, .int 2, .rightParen]

/-- The same with line ends after `=`, after the operator, before `End` and next to a line end. -/
def successorLines : List Token :=
  [.identifier "f", .leftParen, .identifier "x", .rightParen, .equals, .newline, .doWord,
    .identifier "x", .operator .plus, .newline, .int 1, .newline, .endWord, .newline, .newline,
    .identifier "f", .leftParen, .int 2, .rightParen]

theorem program_loosened_successor :
    program (successorLines.map (⟨·, .point 0⟩)) =
      .ok ([successor, .call "f" [.int 2]], []) := by
  have hread : program (successorWords.map (⟨·, .point 0⟩)) =
      .ok ([successor, .call "f" [.int 2]], []) := by
    rfl
  have hequals := @Loosened.line successorWords (successorLines.take 5) (successorWords.drop 5)
    .same (.following (successorLines.take 4) _ rfl)
  have hplus := @Loosened.line successorWords (successorLines.take 9) (successorWords.drop 8)
    hequals (.operation (successorLines.take 7) _ rfl rfl)
  have hend := @Loosened.line successorWords (successorLines.take 11) (successorWords.drop 9)
    hplus (.preceding _ (successorWords.drop 10) rfl)
  have hnext := @Loosened.line successorWords (successorLines.take 14) (successorWords.drop 11)
    hend (.following (successorLines.take 13) _ rfl)
  exact program_loosened hread hnext

end Grammar
end Song
