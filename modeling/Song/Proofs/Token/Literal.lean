import Mathlib.Tactic.SplitIfs
import Song.Token.Lexer

/-!
# Quoted literals

The lexer takes a quoted literal piece by piece: an escape, a closing quote or a
plain character. A text that is written out as a literal is read back from it.
-/
namespace Song

open Text (escape escapeLetter)

namespace Lexeme

variable {quote : Char} {stops : Char → Bool}

theorem enclosed_escape {letter : Char} (hl : letter ≠ '\n') (rest : List Char) :
    enclosed quote stops ('\\' :: letter :: rest) =
      ('\\' :: letter :: (enclosed quote stops rest).1, (enclosed quote stops rest).2) := by
  rw [enclosed, if_neg hl]

theorem enclosed_quote (hq : quote ≠ '\\') (rest : List Char) :
    enclosed quote stops (quote :: rest) = ([], true) := by
  rw [enclosed.eq_def]
  split
  case h_4 c more h1 h2 h =>
    cases h
    exact if_pos rfl
  all_goals simp_all

theorem enclosed_plain {c : Char} (hc : c ≠ '\\') (hq : c ≠ quote) (hs : stops c = false)
    (rest : List Char) :
    enclosed quote stops (c :: rest) =
      (c :: (enclosed quote stops rest).1, (enclosed quote stops rest).2) := by
  rw [enclosed.eq_def]
  split
  case h_4 d more h1 h2 h =>
    cases h
    rw [if_neg hq, hs]
    rfl
  all_goals simp_all

/-- Whole pieces of the inside of a literal: escapes and plain characters. -/
inductive Pieces (quote : Char) (stops : Char → Bool) : List Char → Prop
  | nil : Pieces quote stops []
  | escape {letter : Char} {rest : List Char} (hl : letter ≠ '\n')
    (hr : Pieces quote stops rest) : Pieces quote stops ('\\' :: letter :: rest)
  | plain {c : Char} {rest : List Char} (hc : c ≠ '\\') (hq : c ≠ quote)
    (hs : stops c = false) (hr : Pieces quote stops rest) : Pieces quote stops (c :: rest)

/-- Why the inside of a literal comes to an end, by whether the literal is closed: a quote, the
end of the text, a backslash before the end of the text or of a line, or a character that the
literal cannot hold. -/
inductive Ending (quote : Char) (stops : Char → Bool) : Bool → List Char → Prop
  | quote (rest : List Char) : Ending quote stops true (quote :: rest)
  | text : Ending quote stops false []
  | backslash : Ending quote stops false ['\\']
  | line (rest : List Char) : Ending quote stops false ('\\' :: '\n' :: rest)
  | stop {c : Char} (rest : List Char) (h : stops c = true) : Ending quote stops false (c :: rest)

/-- Whole pieces belong to the literal, whatever comes after them. -/
theorem Pieces.enclosed_append {body : List Char} (h : Pieces quote stops body)
    (text : List Char) :
    enclosed quote stops (body ++ text) =
      (body ++ (enclosed quote stops text).1, (enclosed quote stops text).2) := by
  induction h with
  | nil => rfl
  | escape hl _ ih => rw [List.cons_append, List.cons_append, enclosed_escape hl, ih]; rfl
  | plain hc hq hs _ ih => rw [List.cons_append, enclosed_plain hc hq hs, ih]; rfl

/-- A literal holds whole pieces up to its ending. -/
theorem enclosed_spec (text : List Char) :
    Pieces quote stops (enclosed quote stops text).1 ∧ ∃ rest,
      text = (enclosed quote stops text).1 ++ rest ∧
      Ending quote stops (enclosed quote stops text).2 rest := by
  fun_induction enclosed quote stops text with
  | case1 => exact ⟨.nil, [], rfl, .text⟩
  | case2 => exact ⟨.nil, _, rfl, .backslash⟩
  | case3 rest => exact ⟨.nil, _, rfl, .line rest⟩
  | case4 letter rest hl inner ih =>
    obtain ⟨hpieces, last, htext, hend⟩ := ih
    refine ⟨.escape hl hpieces, last, ?_, hend⟩
    exact congrArg (fun rest => '\\' :: letter :: rest) htext
  | case5 rest => exact ⟨.nil, _, rfl, .quote rest⟩
  | case6 c rest _ _ _ hs => exact ⟨.nil, _, rfl, .stop rest hs⟩
  | case7 c rest h1 h2 hq hs inner ih =>
    obtain ⟨hpieces, last, htext, hend⟩ := ih
    have hc : c ≠ '\\' := by
      intro hc
      cases rest with
      | nil => exact h1 hc rfl
      | cons letter more => exact h2 letter more hc rfl
    refine ⟨.plain hc hq (by simpa using hs) hpieces, last, ?_, hend⟩
    exact congrArg (c :: ·) htext

theorem unescape_escape {letter c : Char} (h : unescape? letter = some c) (rest : List Char) :
    unescape ('\\' :: letter :: rest) = (unescape rest).map (c :: ·) := by
  rw [unescape, h]

theorem unescape_plain {c : Char} (hc : c ≠ '\\') (rest : List Char) :
    unescape (c :: rest) = (unescape rest).map (c :: ·) := by
  rw [unescape.eq_def]
  split
  case h_4 d more h1 h2 h =>
    cases h
    rfl
  all_goals simp_all

theorem eq_error_of_map {ε α β : Type} {g : α → β} {result : Except ε α} {e : ε}
    (h : result.map g = .error e) : result = .error e := by
  cases result with
  | ok value => cases h
  | error e' =>
    cases h
    rfl

theorem unescape_error {text : List Char} {f : LexicalFault} (h : unescape text = .error f) :
    ∃ c, f = .invalidEscape c := by
  fun_induction unescape text with
  | case1 => cases h
  | case2 =>
    cases h
    exact ⟨_, rfl⟩
  | case3 =>
    cases h
    exact ⟨_, rfl⟩
  | case4 letter rest c hc ih => exact ih (eq_error_of_map h)
  | case5 c rest _ _ ih => exact ih (eq_error_of_map h)

/-- A character literal is closed and holds one character, is closed and at fault for what it
holds, or is not closed. -/
theorem charLiteral_cases (text : List Char) :
    (∃ c, charLiteral text =
      ⟨(enclosed '\'' (fun c => c = '\n') text).1.length + 1, .token (.char c)⟩) ∨
    (∃ f, charLiteral text =
      ⟨(enclosed '\'' (fun c => c = '\n') text).1.length + 1, .fault f⟩ ∧
        f ≠ .unterminatedText) ∨
    charLiteral text =
      ⟨(enclosed '\'' (fun c => c = '\n') text).1.length, .fault .unterminatedChar⟩ := by
  rw [charLiteral]
  dsimp only
  cases (enclosed '\'' (fun c => c = '\n') text).2 with
  | false => exact Or.inr (Or.inr rfl)
  | true =>
    cases hbody : unescape (enclosed '\'' (fun c => c = '\n') text).1 with
    | error f =>
      obtain ⟨c, rfl⟩ := unescape_error hbody
      exact Or.inr (Or.inl ⟨_, rfl, nofun⟩)
    | ok chars =>
      match chars with
      | [] => exact Or.inr (Or.inl ⟨_, rfl, nofun⟩)
      | [c] => exact Or.inl ⟨c, rfl⟩
      | _ :: _ :: _ => exact Or.inr (Or.inl ⟨_, rfl, nofun⟩)

end Lexeme

namespace Text

open Lexeme

variable {quote : Char}

theorem escapeLetter_eq_some {c letter : Char} (h : escapeLetter c = some letter) :
    letter ≠ '\n' ∧ unescape? letter = some c := by
  rw [escapeLetter] at h
  split_ifs at h with hc hc hc hc hc
  all_goals
    cases h
    subst hc
    exact ⟨by decide, rfl⟩

theorem escapeLetter_eq_none {c : Char} (h : escapeLetter c = none) : c ≠ '\\' ∧ c ≠ '\n' := by
  constructor
  · rintro rfl
    cases h
  · rintro rfl
    cases h

/-- A character is written as an escape for it or as itself. -/
theorem escape_cases (hq : unescape? quote = some quote) (c : Char) :
    (∃ letter, escape quote c = ['\\', letter] ∧ letter ≠ '\n' ∧ unescape? letter = some c) ∨
      (escape quote c = [c] ∧ c ≠ '\\' ∧ c ≠ '\n' ∧ c ≠ quote) := by
  cases hl : escapeLetter c with
  | some letter =>
    obtain ⟨hn, hu⟩ := escapeLetter_eq_some hl
    exact Or.inl ⟨letter, by rw [escape, hl], hn, hu⟩
  | none =>
    obtain ⟨hb, hn⟩ := escapeLetter_eq_none hl
    by_cases hc : c = quote
    · subst hc
      exact Or.inl ⟨c, by rw [escape, hl]; simp, hn, hq⟩
    · exact Or.inr ⟨by rw [escape, hl]; simp [hc], hb, hn, hc⟩

theorem pieces_flatMap_escape (hq : unescape? quote = some quote) {stops : Char → Bool}
    (hs : ∀ c, c ≠ '\n' → stops c = false) (chars : List Char) :
    Pieces quote stops (chars.flatMap (escape quote)) := by
  induction chars with
  | nil => exact .nil
  | cons c chars ih =>
    rw [List.flatMap_cons]
    rcases escape_cases hq c with ⟨letter, he, hn, -⟩ | ⟨he, hc, hn, hne⟩
    · rw [he]
      exact .escape hn ih
    · rw [he]
      exact .plain hc hne (hs c hn) ih

theorem enclosed_flatMap_escape (hq : unescape? quote = some quote) (hb : quote ≠ '\\')
    {stops : Char → Bool} (hs : ∀ c, c ≠ '\n' → stops c = false) (chars rest : List Char) :
    enclosed quote stops (chars.flatMap (escape quote) ++ quote :: rest) =
      (chars.flatMap (escape quote), true) := by
  rw [(pieces_flatMap_escape hq hs chars).enclosed_append, enclosed_quote hb, List.append_nil]

theorem unescape_flatMap_escape (hq : unescape? quote = some quote) (chars : List Char) :
    unescape (chars.flatMap (escape quote)) = .ok chars := by
  induction chars with
  | nil => rfl
  | cons c chars ih =>
    rw [List.flatMap_cons]
    rcases escape_cases hq c with ⟨letter, he, -, hu⟩ | ⟨he, hc, -⟩
    · rw [he, List.cons_append, List.cons_append, List.nil_append, unescape_escape hu, ih]
      rfl
    · rw [he, List.cons_append, List.nil_append, unescape_plain hc, ih]
      rfl

end Text
end Song
