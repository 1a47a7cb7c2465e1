import Song.Proofs.Token.Literal
import Song.Proofs.Token.Unlocated

/-!
# Lexing text that goes on in a new line

A lexeme that is complete stays as it is when a new line is added to the text. Only
an open string literal goes on in the next line, unless it was cut off: after a
backslash at the end of a line no text can close it.
-/
namespace Song

open Decimal (isDigit)
open Lexeme (Pieces Ending)

namespace Lexeme

variable {quote : Char} {stops : Char → Bool} {p : Char → Bool}

theorem takeWhile_append_newline (hp : p '\n' = false) (text more : List Char) :
    (text ++ '\n' :: more).takeWhile p = text.takeWhile p ∧
      (text ++ '\n' :: more).dropWhile p = text.dropWhile p ++ '\n' :: more := by
  induction text with
  | nil =>
    rw [List.nil_append, List.takeWhile_cons, List.dropWhile_cons, hp]
    exact ⟨rfl, rfl⟩
  | cons c text ih =>
    rw [List.cons_append, List.takeWhile_cons, List.takeWhile_cons, List.dropWhile_cons,
      List.dropWhile_cons]
    split
    · exact ⟨congrArg (c :: ·) ih.1, ih.2⟩
    · exact ⟨rfl, rfl⟩

theorem exponentPart_append_newline (text more : List Char) :
    exponentPart (text ++ '\n' :: more) = exponentPart text := by
  cases text with
  | nil => rfl
  | cons mark text =>
    let sign := (text.take 1).takeWhile fun c => c = '+' || c = '-'
    have hsign :
        ((text ++ '\n' :: more).take 1).takeWhile (fun c => c = '+' || c = '-') = sign := by
      cases text <;> rfl
    have hlength : sign.length ≤ text.length :=
      ((List.takeWhile_sublist _).trans (List.take_sublist 1 text)).length_le
    have hdigits := (takeWhile_append_newline (p := isDigit) rfl (text.drop sign.length) more).1
    rw [List.cons_append, exponentPart, exponentPart]
    dsimp only
    rw [hsign, List.drop_append_of_le_length hlength, hdigits]

theorem fractionPart_of_ne {c : Char} (hc : c ≠ '.') (rest : List Char) :
    fractionPart (c :: rest) = [] := by
  rw [fractionPart.eq_def]
  split
  case h_1 heq =>
    cases heq
    exact absurd rfl hc
  case h_2 => rfl

theorem fractionPart_append_newline (text more : List Char) :
    fractionPart (text ++ '\n' :: more) = fractionPart text := by
  cases text with
  | nil => rfl
  | cons c text =>
    by_cases hc : c = '.'
    · subst hc
      obtain ⟨htake, hdrop⟩ := takeWhile_append_newline (p := isDigit) rfl text more
      rw [List.cons_append, fractionPart, fractionPart, htake, hdrop,
        exponentPart_append_newline]
    · rw [List.cons_append, fractionPart_of_ne hc, fractionPart_of_ne hc]

theorem number_append_newline (c : Char) (text more : List Char) :
    number c (text ++ '\n' :: more) = number c text := by
  obtain ⟨htake, hdrop⟩ := takeWhile_append_newline (p := isDigit) rfl text more
  rw [number, number, htake, hdrop, fractionPart_append_newline]

theorem word_append_newline (c : Char) (text more : List Char) :
    word c (text ++ '\n' :: more) = word c text := by
  rw [word, word, (takeWhile_append_newline (p := isWordPart) rfl text more).1]

def single (c : Char) : Lexeme :=
  match Token.ofSign? c with
  | some t => ⟨0, .token t⟩
  | none => ⟨0, .fault (.unknownCharacter c)⟩

theorem sign_of_head?_ne {rest : List Char} (h : rest.head? ≠ some '=') (c : Char) :
    sign c rest = single c := by
  rw [sign.eq_def]
  split
  · exact absurd rfl h
  · exact absurd rfl h
  · rfl

theorem sign_of_ne {c : Char} (hlt : c ≠ '<') (hgt : c ≠ '>') (rest : List Char) :
    sign c rest = single c := by
  rw [sign.eq_def]
  split
  · exact absurd rfl hlt
  · exact absurd rfl hgt
  · rfl

theorem sign_append_newline (c : Char) (text more : List Char) :
    sign c (text ++ '\n' :: more) = sign c text := by
  by_cases htext : text.head? = some '='
  · obtain ⟨rest, rfl⟩ := List.head?_eq_some_iff.1 htext
    by_cases hlt : c = '<'
    · subst hlt
      rfl
    by_cases hgt : c = '>'
    · subst hgt
      rfl
    · rw [sign_of_ne hlt hgt, sign_of_ne hlt hgt]
  · rw [sign_of_head?_ne htext, sign_of_head?_ne]
    cases text with
    | nil => nofun
    | cons d text => exact htext

theorem enclosed_append {text : List Char} (hq : quote ≠ '\\')
    (h : (enclosed quote stops text).2 = true) (more : List Char) :
    enclosed quote stops (text ++ more) = enclosed quote stops text := by
  obtain ⟨hpieces, rest, htext, hend⟩ : Pieces quote stops _ ∧ _ := enclosed_spec text
  rw [h] at hend
  cases hend with
  | quote rest =>
    rw [htext, List.append_assoc, hpieces.enclosed_append, hpieces.enclosed_append,
      List.cons_append, enclosed_quote hq, enclosed_quote hq]

def IsWhole (lexeme : Lexeme) : Prop :=
  ∀ f, lexeme.reading ≠ .fault f

theorem textLiteral_closed {text : List Char} (h : IsWhole (textLiteral text)) :
    (enclosed '"' (fun _ => false) text).2 = true := by
  rw [← Bool.not_eq_false]
  intro hopen
  apply h .unterminatedText
  rw [textLiteral]
  dsimp only
  rw [hopen]
  rfl

theorem charLiteral_closed {text : List Char} (h : IsWhole (charLiteral text)) :
    (enclosed '\'' (fun c => c = '\n') text).2 = true := by
  rw [← Bool.not_eq_false]
  intro hopen
  apply h .unterminatedChar
  rw [charLiteral]
  dsimp only
  rw [hopen]
  rfl

theorem textLiteral_append {text : List Char} (h : IsWhole (textLiteral text))
    (more : List Char) : textLiteral (text ++ more) = textLiteral text := by
  rw [textLiteral, textLiteral, enclosed_append (by decide) (textLiteral_closed h)]

theorem charLiteral_append {text : List Char} (h : IsWhole (charLiteral text))
    (more : List Char) : charLiteral (text ++ more) = charLiteral text := by
  rw [charLiteral, charLiteral, enclosed_append (by decide) (charLiteral_closed h)]

/-- A lexeme that is complete stays as it is when a new line is added. -/
theorem scan_append_newline {c : Char} {text : List Char} (h : IsWhole (scan c text))
    (more : List Char) : scan c (text ++ '\n' :: more) = scan c text := by
  rw [scan] at h
  rw [scan, scan]
  split_ifs at h ⊢
  · rw [(takeWhile_append_newline rfl text more).1]
  · rw [(takeWhile_append_newline rfl text more).1]
  · exact number_append_newline c text more
  · exact word_append_newline c text more
  · exact textLiteral_append h _
  · exact charLiteral_append h _
  · exact sign_append_newline c text more

theorem length_takeWhile_add_dropWhile (text : List Char) :
    (text.takeWhile p).length + (text.dropWhile p).length = text.length := by
  rw [← List.length_append, List.takeWhile_append_dropWhile]

theorem length_exponentPart_le (text : List Char) : (exponentPart text).length ≤ text.length := by
  cases text with
  | nil => exact Nat.le_refl 0
  | cons mark more =>
    have hsign := ((List.takeWhile_sublist fun c => c = '+' || c = '-').trans
      (List.take_sublist 1 more)).length_le
    have hdigits (rest : List Char) := (List.takeWhile_sublist (l := rest) isDigit).length_le
    rw [exponentPart]
    dsimp only
    split_ifs
    · exact Nat.zero_le _
    · rw [List.length_append, List.length_cons, List.length_cons]
      apply Nat.le_trans (Nat.add_le_add_left (hdigits _) _)
      rw [List.length_drop]
      omega
    · exact Nat.zero_le _

theorem length_fractionPart_le (text : List Char) : (fractionPart text).length ≤ text.length := by
  rw [fractionPart.eq_def]
  split
  case h_1 more =>
    have hlength := length_takeWhile_add_dropWhile (p := isDigit) more
    have hexponent := length_exponentPart_le (more.dropWhile isDigit)
    dsimp only
    split_ifs
    · exact Nat.zero_le _
    · rw [List.length_append, List.length_cons, List.length_cons]
      omega
  case h_2 => exact Nat.zero_le _

theorem number_extra_le (c : Char) (text : List Char) :
    (number c text).extra ≤ text.length := by
  have hlength := length_takeWhile_add_dropWhile (p := isDigit) text
  have hfraction := length_fractionPart_le (text.dropWhile isDigit)
  have hextra : (number c text).extra = (text.takeWhile isDigit).length +
      (fractionPart (text.dropWhile isDigit)).length := by
    rw [number]
    dsimp only
    split_ifs
    · rfl
    · rfl
    · split <;> rfl
  omega

/-- A closed literal is followed by its quote. -/
theorem length_enclosed_lt {text : List Char} (h : (enclosed quote stops text).2 = true) :
    (enclosed quote stops text).1.length < text.length := by
  obtain ⟨-, rest, htext, hend⟩ : Pieces quote stops _ ∧ _ := enclosed_spec text
  rw [h] at hend
  cases hend with
  | quote rest =>
    have hlength := congrArg List.length htext
    rw [List.length_append, List.length_cons] at hlength
    omega

theorem textLiteral_extra_le {text : List Char} (h : IsWhole (textLiteral text)) :
    (textLiteral text).extra ≤ text.length := by
  have hclosed := textLiteral_closed h
  have hlt := length_enclosed_lt hclosed
  rw [textLiteral]
  dsimp only
  rw [hclosed, if_pos rfl]
  split <;> exact hlt

theorem charLiteral_extra_le {text : List Char} (h : IsWhole (charLiteral text)) :
    (charLiteral text).extra ≤ text.length := by
  have hlt := length_enclosed_lt (charLiteral_closed h)
  rcases charLiteral_cases text with ⟨c, hread⟩ | ⟨f, hread, -⟩ | hread
  · rw [hread]
    exact hlt
  · rw [hread]
    exact hlt
  · rw [hread] at h
    exact absurd rfl (h _)

theorem sign_extra_le (c : Char) (text : List Char) : (sign c text).extra ≤ text.length := by
  rw [sign.eq_def]
  split
  · exact Nat.le_add_left 1 _
  · exact Nat.le_add_left 1 _
  · split <;> exact Nat.zero_le _

theorem scan_extra_le {c : Char} {text : List Char} (h : IsWhole (scan c text)) :
    (scan c text).extra ≤ text.length := by
  rw [scan] at h ⊢
  split_ifs at h ⊢
  · exact (List.takeWhile_sublist _).length_le
  · exact (List.takeWhile_sublist _).length_le
  · exact number_extra_le c text
  · exact (List.takeWhile_sublist _).length_le
  · exact textLiteral_extra_le h
  · exact charLiteral_extra_le h
  · exact sign_extra_le c text

theorem textLiteral_unterminatedText {text : List Char}
    (h : (textLiteral text).reading = .fault .unterminatedText) :
    (enclosed '"' (fun _ => false) text).2 = false := by
  rw [← Bool.not_eq_true]
  intro hclosed
  rw [textLiteral] at h
  dsimp only at h
  rw [hclosed, if_pos rfl] at h
  split at h <;> cases h
  case h_2 hbody =>
    obtain ⟨c, hc⟩ := unescape_error hbody
    cases hc

theorem charLiteral_ne_unterminatedText (text : List Char) :
    (charLiteral text).reading ≠ .fault .unterminatedText := by
  intro h
  rcases charLiteral_cases text with ⟨c, hread⟩ | ⟨f, hread, hf⟩ | hread
  · rw [hread] at h
    cases h
  · rw [hread] at h
    cases h
    exact hf rfl
  · rw [hread] at h
    cases h

theorem number_ne_unterminatedText (c : Char) (text : List Char) :
    (number c text).reading ≠ .fault .unterminatedText := by
  intro h
  rw [number] at h
  dsimp only at h
  split_ifs at h
  · cases h
  · split at h <;> cases h

theorem sign_ne_unterminatedText (c : Char) (text : List Char) :
    (sign c text).reading ≠ .fault .unterminatedText := by
  intro h
  rw [sign.eq_def] at h
  split at h
  · cases h
  · cases h
  · split at h <;> cases h

/-- Only an open string literal can be completed by more text. -/
theorem scan_unterminatedText {c : Char} {text : List Char}
    (h : (scan c text).reading = .fault .unterminatedText) :
    c = '"' ∧ (enclosed '"' (fun _ => false) text).2 = false := by
  rw [scan] at h
  split_ifs at h with hgap hcomment hdigit hword htext hchar
  · exact absurd h (number_ne_unterminatedText c text)
  · cases h
  · exact ⟨htext, textLiteral_unterminatedText h⟩
  · exact absurd h (charLiteral_ne_unterminatedText text)
  · exact absurd h (sign_ne_unterminatedText c text)

theorem enclosed_backslash {after : List Char} (h : ∀ c ∈ after.head?, c = '\n') :
    enclosed quote stops ('\\' :: after) = ([], false) := by
  cases after with
  | nil => rw [enclosed]
  | cons c rest => rw [enclosed, if_pos (h c rfl)]

end Lexeme

open Lexeme (IsWhole scan enclosed textLiteral)

/-- Lexemes that are complete lead from the first text to the second. -/
inductive ReadsTo : List Char → List Char → Prop
  | refl (source : List Char) : ReadsTo source source
  | lexeme {c : Char} {text later : List Char} (h : IsWhole (scan c text))
    (hl : ReadsTo (text.drop (scan c text).extra) later) : ReadsTo (c :: text) later

theorem ReadsTo.append_newline {source later : List Char} (h : ReadsTo source later)
    (more : List Char) : ReadsTo (source ++ '\n' :: more) (later ++ '\n' :: more) := by
  induction h with
  | refl source => exact .refl _
  | @lexeme c text later h _ ih =>
    have hscan := Lexeme.scan_append_newline h more
    rw [← List.drop_append_of_le_length (Lexeme.scan_extra_le h), ← hscan] at ih
    exact .lexeme (hscan ▸ h) ih

theorem ReadsTo.lexed_eq_error {source later : List Char} (h : ReadsTo source later)
    {f : LexicalFault} (hf : lexed later = .error f) : lexed source = .error f := by
  induction h with
  | refl source => exact hf
  | @lexeme c text later h _ ih =>
    rw [lexed_cons, ih hf]
    cases hreading : (scan c text).reading with
    | skip => rfl
    | token t => rfl
    | fault g => exact absurd hreading (h g)

theorem ReadsTo.lexed_ok {source later : List Char} (h : ReadsTo source later)
    (hl : ∃ words, lexed later = .ok words) : ∃ words, lexed source = .ok words := by
  induction h with
  | refl source => exact hl
  | @lexeme c text later h _ ih =>
    obtain ⟨words, hwords⟩ := ih hl
    rw [lexed_cons, hwords]
    cases hreading : (scan c text).reading with
    | skip => exact ⟨words, rfl⟩
    | token t => exact ⟨t :: words, rfl⟩
    | fault g => exact absurd hreading (h g)

theorem ReadsTo.lexed_eq_fault {source text : List Char} {c : Char} {f : LexicalFault}
    (h : ReadsTo source (c :: text)) (hf : (scan c text).reading = .fault f) :
    lexed source = .error f := by
  apply h.lexed_eq_error
  rw [lexed_cons, hf]
  rfl

/-- Reading goes to the end of the text or to the first fault. -/
theorem exists_readsTo (source : List Char) :
    ReadsTo source [] ∨
      ∃ c text f, ReadsTo source (c :: text) ∧ (scan c text).reading = .fault f := by
  match source with
  | [] => exact Or.inl (.refl [])
  | c :: text =>
    by_cases hfault : ∃ f, (scan c text).reading = .fault f
    · obtain ⟨f, hf⟩ := hfault
      exact Or.inr ⟨c, text, f, .refl _, hf⟩
    · have hwhole : IsWhole (scan c text) := fun f hf => hfault ⟨f, hf⟩
      rcases exists_readsTo (text.drop (scan c text).extra) with hread | ⟨d, rest, f, hread, hf⟩
      · exact Or.inl (.lexeme hwhole hread)
      · exact Or.inr ⟨d, rest, f, .lexeme hwhole hread, hf⟩
termination_by source.length
decreasing_by
  rw [List.length_drop, List.length_cons]
  omega

theorem readsTo_of_lexed_ok {source : List Char} {words : List Token}
    (h : lexed source = .ok words) : ReadsTo source [] := by
  rcases exists_readsTo source with hread | ⟨c, text, f, hread, hf⟩
  · exact hread
  · rw [hread.lexed_eq_fault hf] at h
    cases h

/-! ### String literals that no text can close -/

/-- Reading comes to a string literal whose text breaks off after a backslash: there the whole
text ends, or a line. -/
def IsCutOff (source : List Char) : Prop :=
  ∃ body after, ReadsTo source ('"' :: (body ++ '\\' :: after)) ∧
    Pieces '"' (fun _ => false) body ∧ ∀ c ∈ after.head?, c = '\n'

namespace IsCutOff

variable {source : List Char}

theorem ne_nil (h : IsCutOff source) : source ≠ [] := by
  rintro rfl
  obtain ⟨body, after, hread, -⟩ := h
  cases hread

theorem lexed_eq (h : IsCutOff source) : lexed source = .error .unterminatedText := by
  obtain ⟨body, after, hread, hbody, hafter⟩ := h
  apply hread.lexed_eq_fault
  change (textLiteral _).reading = _
  rw [textLiteral, hbody.enclosed_append, Lexeme.enclosed_backslash hafter]
  rfl

/-- What is cut off stays cut off. -/
theorem append_newline (h : IsCutOff source) (more : List Char) :
    IsCutOff (source ++ '\n' :: more) := by
  obtain ⟨body, after, hread, hbody, hafter⟩ := h
  refine ⟨body, after ++ '\n' :: more, ?_, hbody, ?_⟩
  · have hlonger := hread.append_newline more
    rwa [List.cons_append, List.append_assoc] at hlonger
  · cases after with
    | nil =>
      intro c hc
      cases hc
      rfl
    | cons c rest => exact hafter

end IsCutOff

/-- An open string literal is cut off, or holds all of the text that is left. -/
theorem isCutOff_or_readsTo {source : List Char} (h : lexed source = .error .unterminatedText) :
    IsCutOff source ∨
      ∃ body, ReadsTo source ('"' :: body) ∧ Pieces '"' (fun _ => false) body := by
  rcases exists_readsTo source with hread | ⟨c, text, f, hread, hf⟩
  · obtain ⟨words, hwords⟩ := hread.lexed_ok ⟨[], lexed_nil⟩
    rw [hwords] at h
    cases h
  · have herror := hread.lexed_eq_fault hf
    rw [h] at herror
    cases herror
    obtain ⟨rfl, hopen⟩ := Lexeme.scan_unterminatedText hf
    obtain ⟨hpieces, rest, htext, hend⟩ : Pieces '"' (fun _ => false) _ ∧ _ :=
      Lexeme.enclosed_spec text
    rw [hopen] at hend
    cases hend with
    | text =>
      rw [List.append_nil] at htext
      exact Or.inr ⟨_, hread, htext ▸ hpieces⟩
    | backslash => exact Or.inl ⟨_, [], htext ▸ hread, hpieces, nofun⟩
    | line rest => exact Or.inl ⟨_, '\n' :: rest, htext ▸ hread, hpieces, by simp⟩
    | stop rest hstop => cases hstop

/-- A quote in the next line closes an open literal, and what comes after it is read on its own. -/
theorem lexed_close {body : List Char} (h : Pieces '"' (fun _ => false) body)
    (rest : List Char) :
    ∃ f, f ≠ .unterminatedText ∧
      lexed ('"' :: (body ++ '\n' :: '"' :: '@' :: rest)) = .error f := by
  have hclosed : enclosed '"' (fun _ => false) (body ++ '\n' :: '"' :: '@' :: rest) =
      (body ++ ['\n'], true) := by
    rw [h.enclosed_append, Lexeme.enclosed_plain (by decide) (by decide) rfl,
      Lexeme.enclosed_quote (by decide)]
  have hscan : scan '"' (body ++ '\n' :: '"' :: '@' :: rest) =
      textLiteral (body ++ '\n' :: '"' :: '@' :: rest) := rfl
  rw [lexed_cons, hscan, textLiteral, hclosed]
  dsimp only
  rw [if_pos rfl]
  -- the literal is closed, but an escape in it may still be at fault
  cases hbody : Lexeme.unescape (body ++ ['\n']) with
  | error f =>
    obtain ⟨c, rfl⟩ := Lexeme.unescape_error hbody
    exact ⟨.invalidEscape c, nofun, rfl⟩
  | ok chars =>
    have hdrop : (body ++ '\n' :: '"' :: '@' :: rest).drop ((body ++ ['\n']).length + 1) =
        '@' :: rest := by
      rw [List.append_cons body '\n' ('"' :: '@' :: rest), ← List.drop_drop, List.drop_left]
      rfl
    refine ⟨.unknownCharacter '@', nofun, ?_⟩
    dsimp only
    rw [hdrop, lexed_cons]
    rfl

end Song
