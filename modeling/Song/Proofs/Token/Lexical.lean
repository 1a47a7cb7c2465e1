import Song.Proofs.Token.Literal

/-!
# What tokens can be

The identifiers that the lexer reads are words of the token grammar that are no
keywords, and the integers are not negative.
-/
namespace Song

/-- A word of letters, digits and underscores that starts with no digit and has no meaning of
its own. -/
def IsIdentifier (name : String) : Prop :=
  Token.ofWord name = .identifier name ∧ ∃ c rest, name.toList = c :: rest ∧
    (Lexeme.isLetter c || c = '_') = true ∧ ∀ d ∈ rest, Lexeme.isWordPart d = true

namespace Token

def Lexical : Token → Prop
  | identifier name => IsIdentifier name
  | int i => 0 ≤ i.toInt
  | _ => True

theorem ofWord_eq_identifier {word name : String} (h : ofWord word = identifier name) :
    word = name := by
  rw [ofWord.eq_def] at h
  split at h <;> cases h
  rfl

theorem ofWord_lexical {c : Char} {rest : List Char}
    (hc : (Lexeme.isLetter c || c = '_') = true)
    (hrest : ∀ d ∈ rest, Lexeme.isWordPart d = true) :
    (ofWord (String.ofList (c :: rest))).Lexical := by
  generalize hword : ofWord (String.ofList (c :: rest)) = t
  cases t with
  | identifier name =>
    have hname := ofWord_eq_identifier hword
    subst hname
    exact ⟨hword, c, rest, String.toList_ofList, hc, hrest⟩
  | int i =>
    rw [ofWord.eq_def] at hword
    split at hword <;> cases hword
  | _ => exact True.intro

end Token

namespace Lexeme

private def ReadsLexical (lexeme : Lexeme) : Prop :=
  ∀ t, lexeme.reading = .token t → t.Lexical

private theorem textLiteral_lexical (rest : List Char) : ReadsLexical (textLiteral rest) := by
  intro t h
  rw [textLiteral] at h
  split at h
  split at h
  · split at h <;> cases h
    exact True.intro
  · cases h

private theorem charLiteral_lexical (rest : List Char) : ReadsLexical (charLiteral rest) := by
  intro t h
  rcases charLiteral_cases rest with ⟨c, hread⟩ | ⟨f, hread, -⟩ | hread
  · rw [hread] at h
    cases h
    exact True.intro
  · rw [hread] at h
    cases h
  · rw [hread] at h
    cases h

private theorem number_lexical (c : Char) (rest : List Char) : ReadsLexical (number c rest) := by
  intro t h
  rw [number] at h
  dsimp only at h
  split at h
  · split at h <;> cases h
    case isTrue hlt =>
      change 0 ≤ (Int64.ofNat _).toInt
      rw [Int64.toInt_ofNat_of_lt hlt]
      exact Int.natCast_nonneg _
  · split at h <;> cases h
    exact True.intro

private theorem word_lexical {c : Char} (hc : (isLetter c || c = '_') = true) (rest : List Char) :
    ReadsLexical (word c rest) := by
  intro t h
  cases h
  apply Token.ofWord_lexical hc
  intro d hd
  exact List.all_eq_true.1 List.all_takeWhile d hd

private theorem sign_lexical (c : Char) (rest : List Char) : ReadsLexical (sign c rest) := by
  intro t h
  rw [sign.eq_def] at h
  split at h
  · cases h
    exact True.intro
  · cases h
    exact True.intro
  · split at h <;> cases h
    case h_1 hsign =>
      rw [Token.ofSign?.eq_def] at hsign
      split at hsign <;> cases hsign <;> exact True.intro

theorem scan_lexical (c : Char) (rest : List Char) (t : Token)
    (h : (scan c rest).reading = .token t) : t.Lexical := by
  rw [scan] at h
  split at h
  · cases h
  split at h
  · cases h
  split at h
  · exact number_lexical c rest t h
  split at h
  case isTrue hc => exact word_lexical hc rest t h
  split at h
  · exact textLiteral_lexical rest t h
  split at h
  · exact charLiteral_lexical rest t h
  · exact sign_lexical c rest t h

end Lexeme

theorem tokensFrom_lexical {pass offset : Nat} {source : List Char} {tokens : List Located}
    (h : tokensFrom pass offset source = .ok tokens) : ∀ t ∈ tokens, t.token.Lexical := by
  induction source generalizing pass offset tokens with
  | nil =>
    cases h
    intro t ht
    cases ht
  | cons c rest ih =>
    cases pass with
    | succ pass => exact ih h
    | zero =>
      rw [tokensFrom] at h
      split at h
      · exact ih h
      case h_2 read hread =>
        split at h <;> cases h
        case h_1 later hlater =>
          intro t ht
          rcases List.mem_cons.1 ht with rfl | ht
          · exact Lexeme.scan_lexical c rest read hread
          · exact ih hlater t ht
      · cases h

theorem tokenize_lexical {source : List Char} {tokens : List Located}
    (h : tokenize source = .ok tokens) : ∀ t ∈ tokens, t.token.Lexical :=
  tokensFrom_lexical h

end Song
