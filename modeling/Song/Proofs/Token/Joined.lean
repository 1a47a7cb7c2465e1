import Song.Proofs.Token.Continuation

/-!
# The tokens of texts joined by a line end

No lexeme goes on over a line end but an open string literal, and no lexeme depends
on the text before it. So the tokens of two texts that are joined by a line end are
those of the first, the line end and those of the second, each in its place.
-/
namespace Song

def Span.shift (count : Nat) (span : Span) : Span :=
  ⟨span.start + count, span.stop + count⟩

def Located.shift (count : Nat) (next : Located) : Located :=
  ⟨next.token, next.span.shift count⟩

def LexicalError.shift (count : Nat) (error : LexicalError) : LexicalError :=
  ⟨error.fault, error.span.shift count⟩

def shiftTokens (count : Nat) :
    Except LexicalError (List Located) → Except LexicalError (List Located)
  | .ok tokens => .ok (tokens.map (Located.shift count))
  | .error e => .error (e.shift count)

/-- Text that starts later has the same tokens in later places. -/
theorem tokensFrom_shift (count pass offset : Nat) (source : List Char) :
    tokensFrom pass (offset + count) source =
      shiftTokens count (tokensFrom pass offset source) := by
  induction source generalizing pass offset with
  | nil => rfl
  | cons c rest ih =>
    cases pass with
    | succ pass =>
      rw [tokensFrom, tokensFrom, Nat.add_right_comm]
      exact ih pass (offset + c.utf8Size)
    | zero =>
      have hrest := ih (Lexeme.scan c rest).extra (offset + c.utf8Size)
      rw [tokensFrom, tokensFrom, Nat.add_right_comm offset count c.utf8Size, hrest,
        Nat.add_right_comm offset count]
      cases (Lexeme.scan c rest).reading with
      | skip => rfl
      | fault f => rfl
      | token t =>
        cases tokensFrom (Lexeme.scan c rest).extra (offset + c.utf8Size) rest <;> rfl

namespace Lexeme

section Enclosed

variable {quote : Char} {stops : Char → Bool}

theorem enclosed_stop {c : Char} (hc : c ≠ '\\') (hq : c ≠ quote) (hs : stops c = true)
    (rest : List Char) : enclosed quote stops (c :: rest) = ([], false) := by
  rw [enclosed.eq_def]
  split
  case h_4 d more h1 h2 h =>
    cases h
    rw [if_neg hq, hs]
    rfl
  all_goals simp_all

/-- A literal that cannot hold a line end is not changed by one after it. -/
theorem enclosed_append_newline (hq : quote ≠ '\\') (hline : quote ≠ '\n')
    (hs : stops '\n' = true) (text more : List Char) :
    enclosed quote stops (text ++ '\n' :: more) = enclosed quote stops text := by
  fun_induction enclosed quote stops text with
  | case1 => exact enclosed_stop (by decide) hline.symm hs more
  | case2 => exact enclosed_backslash (by simp)
  | case3 rest => exact enclosed_backslash (by simp)
  | case4 letter rest hl inner ih =>
    rw [List.cons_append, List.cons_append, enclosed_escape hl, ih]
  | case5 rest => exact enclosed_quote hq _
  | case6 c rest h1 h2 hne hstop =>
    have hc : c ≠ '\\' := by
      rintro rfl
      cases rest with
      | nil => exact h1 rfl rfl
      | cons letter more => exact h2 letter more rfl rfl
    exact enclosed_stop hc hne hstop _
  | case7 c rest h1 h2 hne hstop inner ih =>
    have hc : c ≠ '\\' := by
      rintro rfl
      cases rest with
      | nil => exact h1 rfl rfl
      | cons letter more => exact h2 letter more rfl rfl
    rw [List.cons_append, enclosed_plain hc hne (by simpa using hstop), ih]

theorem length_enclosed_le (text : List Char) :
    (enclosed quote stops text).1.length ≤ text.length := by
  obtain ⟨-, rest, htext, -⟩ : Pieces quote stops _ ∧ _ := enclosed_spec text
  have hlength := congrArg List.length htext
  rw [List.length_append] at hlength
  omega

end Enclosed

theorem charLiteral_append_newline (text more : List Char) :
    charLiteral (text ++ '\n' :: more) = charLiteral text := by
  rw [charLiteral, charLiteral, enclosed_append_newline (by decide) (by decide) rfl]

theorem charLiteral_extra_le_length (text : List Char) :
    (charLiteral text).extra ≤ text.length := by
  by_cases hclosed : (enclosed '\'' (fun c => c = '\n') text).2 = true
  · have hlt := length_enclosed_lt hclosed
    rcases charLiteral_cases text with ⟨c, hread⟩ | ⟨f, hread, -⟩ | hread
    · rw [hread]; exact hlt
    · rw [hread]; exact hlt
    · rw [hread]; exact Nat.le_of_lt hlt
  · rw [charLiteral]
    dsimp only
    rw [if_neg hclosed]
    exact length_enclosed_le text

/-- A string literal is closed unless its fault is that it is not. -/
theorem enclosed_of_ne_unterminatedText {text : List Char}
    (h : (textLiteral text).reading ≠ .fault .unterminatedText) :
    (enclosed '"' (fun _ => false) text).2 = true := by
  rw [← Bool.not_eq_false]
  intro hopen
  apply h
  rw [textLiteral]
  dsimp only
  rw [hopen]
  rfl

theorem textLiteral_extra_le_length {text : List Char}
    (h : (textLiteral text).reading ≠ .fault .unterminatedText) :
    (textLiteral text).extra ≤ text.length := by
  have hclosed := enclosed_of_ne_unterminatedText h
  have hlt := length_enclosed_lt hclosed
  rw [textLiteral]
  dsimp only
  rw [hclosed, if_pos rfl]
  split <;> exact hlt

/-- A lexeme before a line end is as it is at the end of the text, also if it is at fault; only an
open string literal goes on. -/
theorem scan_before_newline {c : Char} {text : List Char}
    (h : (scan c text).reading ≠ .fault .unterminatedText) (more : List Char) :
    scan c (text ++ '\n' :: more) = scan c text ∧ (scan c text).extra ≤ text.length := by
  rw [scan] at h
  rw [scan, scan]
  split_ifs at h ⊢
  · rw [(takeWhile_append_newline rfl text more).1]
    exact ⟨rfl, (List.takeWhile_sublist _).length_le⟩
  · rw [(takeWhile_append_newline rfl text more).1]
    exact ⟨rfl, (List.takeWhile_sublist _).length_le⟩
  · exact ⟨number_append_newline c text more, number_extra_le c text⟩
  · exact ⟨word_append_newline c text more, (List.takeWhile_sublist _).length_le⟩
  · refine ⟨?_, textLiteral_extra_le_length h⟩
    rw [textLiteral, textLiteral,
      enclosed_append (by decide) (enclosed_of_ne_unterminatedText h)]
  · exact ⟨charLiteral_append_newline text more, charLiteral_extra_le_length text⟩
  · exact ⟨sign_append_newline c text more, sign_extra_le c text⟩

end Lexeme

/-- The tokens of a text and of what comes after it, or the first error. -/
def joinTokens (first second : Except LexicalError (List Located)) :
    Except LexicalError (List Located) := do
  let tokens ← first
  let later ← second
  return tokens ++ later

/-- A text before a line end is read as it is by itself, unless it leaves a string literal open. -/
theorem tokensFrom_append_newline {pass offset : Nat} {source : List Char}
    (h : ∀ e, tokensFrom pass offset source = .error e → e.fault ≠ .unterminatedText)
    (hp : pass ≤ source.length) (more : List Char) :
    tokensFrom pass offset (source ++ '\n' :: more) =
      joinTokens (tokensFrom pass offset source)
        (tokensFrom 0 (offset + byteLength source) ('\n' :: more)) := by
  induction source generalizing pass offset with
  | nil =>
    obtain rfl : pass = 0 := Nat.le_zero.1 hp
    rw [List.nil_append, byteLength, Nat.add_zero]
    cases tokensFrom 0 offset ('\n' :: more) <;> rfl
  | cons c rest ih =>
    rw [byteLength, ← Nat.add_assoc, List.cons_append]
    cases pass with
    | succ pass =>
      rw [tokensFrom] at h
      rw [tokensFrom, tokensFrom]
      exact ih h (Nat.le_of_succ_le_succ hp)
    | zero =>
      rw [tokensFrom] at h
      have hfault : (Lexeme.scan c rest).reading ≠ .fault .unterminatedText := by
        intro hf
        rw [hf] at h
        exact h _ rfl rfl
      obtain ⟨hscan, hextra⟩ := Lexeme.scan_before_newline hfault more
      rw [tokensFrom, tokensFrom, hscan, List.take_append_of_le_length hextra]
      cases hread : (Lexeme.scan c rest).reading with
      | fault f => rfl
      | skip =>
        rw [hread] at h
        exact ih h hextra
      | token t =>
        rw [hread] at h
        dsimp only at h ⊢
        have hrest : ∀ e, tokensFrom (Lexeme.scan c rest).extra (offset + c.utf8Size) rest =
            .error e → e.fault ≠ .unterminatedText := by
          intro e he
          rw [he] at h
          exact h e rfl
        rw [ih hrest hextra]
        cases tokensFrom (Lexeme.scan c rest).extra (offset + c.utf8Size) rest with
        | error e => rfl
        | ok later =>
          cases tokensFrom 0 (offset + c.utf8Size + byteLength rest) ('\n' :: more) <;> rfl

def newlineAfter (source : List Char) : Located :=
  ⟨.newline, ⟨byteLength source, byteLength source + 1⟩⟩

theorem tokensFrom_newline (offset : Nat) (more : List Char) :
    tokensFrom 0 offset ('\n' :: more) =
      joinTokens (.ok [⟨.newline, ⟨offset, offset + 1⟩⟩]) (tokensFrom 0 (offset + 1) more) := by
  have hscan : Lexeme.scan '\n' more = ⟨0, .token .newline⟩ := rfl
  have hsize : '\n'.utf8Size = 1 := rfl
  rw [tokensFrom, hscan]
  dsimp only
  rw [hsize, List.take_zero, byteLength, byteLength, hsize]
  cases tokensFrom 0 (offset + 1) more <;> rfl

/-- The tokens of two texts that are joined by a line end, or the first error in them. -/
theorem tokenize_append_newline {first : List Char}
    (h : ∀ e, tokenize first = .error e → e.fault ≠ .unterminatedText) (second : List Char) :
    tokenize (first ++ '\n' :: second) =
      joinTokens (tokenize first) (joinTokens (.ok [newlineAfter first])
        (shiftTokens (byteLength first + 1) (tokenize second))) := by
  have hshift := tokensFrom_shift (byteLength first + 1) 0 0 second
  rw [Nat.zero_add] at hshift
  rw [tokenize, tokensFrom_append_newline h (Nat.zero_le _), Nat.zero_add, tokensFrom_newline,
    hshift]
  rfl

end Song
