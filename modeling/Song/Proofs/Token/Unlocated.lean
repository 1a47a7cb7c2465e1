import Song.Token.Lexer

/-!
# Tokens without their places

What tokens a text holds does not depend on where it starts. Without places the
lexer is a plain recursion: it takes a lexeme off the front and goes on with what
the lexeme leaves.
-/
namespace Song

/-- Tokens without their places, or the fault without its place. -/
def unlocated : Except LexicalError (List Located) → Except LexicalFault (List Token)
  | .ok tokens => .ok (tokens.map Located.token)
  | .error e => .error e.fault

def lexed (source : List Char) : Except LexicalFault (List Token) :=
  unlocated (tokenize source)

/-- What a lexeme adds in front of the tokens that follow it. -/
def Reading.before : Reading → Except LexicalFault (List Token) → Except LexicalFault (List Token)
  | skip, later => later
  | token t, later => later.map (t :: ·)
  | fault f, _ => .error f

theorem unlocated_tokensFrom_cons (offset : Nat) (c : Char) (rest : List Char) :
    unlocated (tokensFrom 0 offset (c :: rest)) =
      (Lexeme.scan c rest).reading.before
        (unlocated (tokensFrom (Lexeme.scan c rest).extra (offset + c.utf8Size) rest)) := by
  rw [tokensFrom]
  cases (Lexeme.scan c rest).reading with
  | skip => rfl
  | fault f => rfl
  | token t =>
    dsimp only
    cases tokensFrom (Lexeme.scan c rest).extra (offset + c.utf8Size) rest <;> rfl

/-- The places of the tokens depend on the offset, the tokens do not. -/
theorem unlocated_tokensFrom (pass offset : Nat) (source : List Char) :
    unlocated (tokensFrom pass offset source) = lexed (source.drop pass) := by
  rw [lexed, tokenize]
  induction source generalizing pass offset with
  | nil =>
    rw [List.drop_nil]
    rfl
  | cons c rest ih =>
    cases pass with
    | succ pass => exact ih pass (offset + c.utf8Size)
    | zero =>
      rw [List.drop_zero, unlocated_tokensFrom_cons, unlocated_tokensFrom_cons,
        ih _ (offset + c.utf8Size), ih _ (0 + c.utf8Size)]

theorem lexed_nil : lexed [] = .ok [] :=
  rfl

theorem lexed_cons (c : Char) (rest : List Char) :
    lexed (c :: rest) = (Lexeme.scan c rest).reading.before
      (lexed (rest.drop (Lexeme.scan c rest).extra)) := by
  rw [lexed, tokenize, unlocated_tokensFrom_cons, unlocated_tokensFrom]

theorem tokenize_of_lexed {source : List Char} {words : List Token}
    (h : lexed source = .ok words) :
    ∃ tokens, tokenize source = .ok tokens ∧ tokens.map Located.token = words := by
  rw [lexed] at h
  cases ht : tokenize source with
  | error e =>
    rw [ht] at h
    cases h
  | ok tokens =>
    rw [ht] at h
    cases h
    exact ⟨tokens, rfl, rfl⟩

end Song
