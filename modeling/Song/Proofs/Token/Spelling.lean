import Mathlib.Tactic.SplitIfs
import Song.Number
import Song.Proofs.Token.Lexical
import Song.Proofs.Token.Literal
import Song.Proofs.Token.Unlocated

/-!
# How tokens are spelt

A text spells a list of tokens if the lexer reads these tokens from it before any
continuation at which words, numerals and signs come to an end. Spellings can be
put one after the other.
-/
namespace Song

open Decimal (isDigit)
open Lexeme (isLetter isWordPart isGap)

/-- Whether words, numerals and signs come to an end before the character. -/
def isBreak (c : Char) : Bool :=
  !isWordPart c && c ≠ '.' && c ≠ '='

def Breaks (text : List Char) : Prop :=
  ∀ c ∈ text.head?, isBreak c = true

/-- The lexer reads these tokens from the text, and goes on after it. -/
def Spells (text : List Char) (words : List Token) : Prop :=
  ∀ rest, Breaks rest → lexed (text ++ rest) = (lexed rest).map (words ++ ·)

theorem Breaks.nil : Breaks [] := by
  intro c hc
  cases hc

theorem Breaks.cons {c : Char} (h : isBreak c = true) (rest : List Char) : Breaks (c :: rest) := by
  intro d hd
  cases hd
  exact h

theorem Breaks.append {text rest : List Char} (ht : Breaks text) (hr : Breaks rest) :
    Breaks (text ++ rest) := by
  cases text with
  | nil => exact hr
  | cons c more => exact .cons (ht c rfl) (more ++ rest)

/-- What has to hold for a run of characters of one kind to end before a break. -/
theorem takeWhile_append_of_breaks {p : Char → Bool} (hp : ∀ c, isBreak c = true → p c = false)
    {run rest : List Char} (hrun : ∀ c ∈ run, p c = true) (hr : Breaks rest) :
    (run ++ rest).takeWhile p = run ∧ (run ++ rest).dropWhile p = rest := by
  have hrest : rest.takeWhile p = [] ∧ rest.dropWhile p = rest := by
    cases rest with
    | nil => exact ⟨rfl, rfl⟩
    | cons c more =>
      have hc := hp c (hr c rfl)
      rw [List.takeWhile_cons, List.dropWhile_cons, hc]
      exact ⟨rfl, rfl⟩
  rw [List.takeWhile_append_of_pos hrun, List.dropWhile_append_of_pos hrun, hrest.1, hrest.2,
    List.append_nil]
  exact ⟨rfl, rfl⟩

theorem isWordPart_of_isBreak (c : Char) (h : isBreak c = true) : isWordPart c = false := by
  rw [isBreak] at h
  simp_all

theorem isDigit_of_isBreak (c : Char) (h : isBreak c = true) : isDigit c = false := by
  have hc := isWordPart_of_isBreak c h
  rw [isWordPart] at hc
  simp_all

namespace Spells

variable {text more : List Char} {words later : List Token}

theorem nil : Spells [] [] := by
  intro rest _
  rw [List.nil_append]
  cases lexed rest <;> rfl

/-- Spellings one after the other, if the second one starts with a break. -/
theorem append (ht : Spells text words) (hm : Spells more later) (hb : Breaks more) :
    Spells (text ++ more) (words ++ later) := by
  intro rest hr
  rw [List.append_assoc, ht _ (hb.append hr), hm rest hr]
  cases lexed rest with
  | error f => rfl
  | ok tokens => simp [Except.map]

/-- A token that is read whatever comes next, before a spelling. -/
theorem before {c : Char} {t : Token}
    (h : ∀ rest, lexed (c :: rest) = (lexed rest).map (t :: ·)) (ht : Spells text words) :
    Spells (c :: text) (t :: words) := by
  intro rest hr
  rw [List.cons_append, h, ht rest hr]
  cases lexed rest <;> rfl

/-- A sign that is a token by itself, before a spelling. -/
theorem sign {c : Char} {t : Token} (h : ∀ rest, Lexeme.scan c rest = ⟨0, .token t⟩)
    (ht : Spells text words) : Spells (c :: text) (t :: words) := by
  apply ht.before
  intro rest
  rw [lexed_cons, h]
  rfl

end Spells

theorem drop_length_takeWhile (p : Char → Bool) (text : List Char) :
    text.drop (text.takeWhile p).length = text.dropWhile p :=
  calc
    text.drop (text.takeWhile p).length
      = (text.takeWhile p ++ text.dropWhile p).drop (text.takeWhile p).length := by
        rw [List.takeWhile_append_dropWhile]
    _ = text.dropWhile p := List.drop_left

theorem lexed_gap {c : Char} (hc : isGap c = true) (rest : List Char) :
    lexed (c :: rest) = lexed (rest.dropWhile isGap) := by
  rw [lexed_cons, Lexeme.scan, if_pos hc]
  exact congrArg lexed (drop_length_takeWhile isGap rest)

/-- A blank stands for nothing. -/
theorem lexed_blank (rest : List Char) : lexed (' ' :: rest) = lexed rest := by
  rw [lexed_gap rfl]
  cases rest with
  | nil => rfl
  | cons c more =>
    rw [List.dropWhile_cons]
    split
    case isTrue hc => rw [lexed_gap hc]
    case isFalse => rfl

theorem Spells.blank {text : List Char} {words : List Token} (ht : Spells text words) :
    Spells (' ' :: text) words := by
  intro rest hr
  rw [List.cons_append, lexed_blank, ht rest hr]

/-- What can continue a word is no blank and starts no comment. -/
theorem not_blank_of_isWordPart {c : Char} (h : isWordPart c = true) :
    isGap c = false ∧ c ≠ '#' := by
  constructor
  · rw [Bool.eq_false_iff]
    intro hg
    simp only [isGap, Bool.or_eq_true, decide_eq_true_eq] at hg
    rcases hg with (rfl | rfl) | rfl <;> cases h
  · rintro rfl
    cases h

/-- What a word starts with can continue a word, and is no digit. -/
theorem isWordPart_of_starts {c : Char} (hc : (isLetter c || c = '_') = true) :
    isWordPart c = true ∧ isDigit c = false := by
  constructor
  · rw [isWordPart, Bool.or_assoc, Bool.or_comm (isDigit c), ← Bool.or_assoc, hc]
    rfl
  · rw [Bool.eq_false_iff]
    intro hd
    simp only [isDigit, Bool.and_eq_true, decide_eq_true_eq] at hd
    simp only [isLetter, Bool.or_eq_true, Bool.and_eq_true, decide_eq_true_eq] at hc
    rcases hc with (⟨hlower, -⟩ | ⟨hupper, -⟩) | rfl
    · exact absurd (Char.le_trans hlower hd.2) (by decide)
    · exact absurd (Char.le_trans hupper hd.2) (by decide)
    · exact absurd hd (by decide)

theorem scan_word {c : Char} (hc : (isLetter c || c = '_') = true) (rest : List Char) :
    Lexeme.scan c rest = Lexeme.word c rest := by
  obtain ⟨hpart, hdigit⟩ := isWordPart_of_starts hc
  obtain ⟨hgap, hcomment⟩ := not_blank_of_isWordPart hpart
  rw [Lexeme.scan, hgap, hdigit, if_neg hcomment, if_pos hc]
  rfl

theorem Spells.word {name : String} {c : Char} {more : List Char} (hn : name.toList = c :: more)
    (hc : (isLetter c || c = '_') = true) (hm : ∀ d ∈ more, isWordPart d = true) :
    Spells name.toList [Token.ofWord name] := by
  intro rest hr
  obtain ⟨htake, -⟩ := takeWhile_append_of_breaks isWordPart_of_isBreak hm hr
  rw [hn, List.cons_append, lexed_cons, scan_word hc, Lexeme.word, htake, List.drop_left, ← hn,
    String.ofList_toList]
  rfl

theorem Spells.identifier {name : String} (h : IsIdentifier name) :
    Spells name.toList [.identifier name] := by
  obtain ⟨hword, c, rest, hn, hc, hm⟩ := h
  rw [← hword]
  exact .word hn hc hm

/-- A keyword that is written with letters. -/
theorem Spells.keyword {name : String} {c : Char} {more : List Char} {t : Token}
    (hn : name.toList = c :: more) (hc : isLetter c = true)
    (hm : more.all isWordPart = true) (ht : Token.ofWord name = t) : Spells name.toList [t] := by
  rw [← ht]
  exact .word hn (by rw [hc]; rfl) (List.all_eq_true.1 hm)

/-- A sign that two signs can start with. -/
theorem Spells.half {c : Char} {t : Token}
    (h : ∀ rest, Breaks rest → Lexeme.scan c rest = ⟨0, .token t⟩) : Spells [c] [t] := by
  intro rest hr
  rw [List.singleton_append, lexed_cons, h rest hr]
  rfl

theorem sign_of_breaks {c : Char} {t : Token} {rest : List Char} (hr : Breaks rest)
    (ht : Token.ofSign? c = some t) : Lexeme.sign c rest = ⟨0, .token t⟩ := by
  rw [Lexeme.sign.eq_def]
  split
  · cases hr '=' rfl
  · cases hr '=' rfl
  · rw [ht]

theorem Spells.operator (o : Operator) : Spells o.symbol.toList [.operator o] := by
  cases o with
  | plus | minus | times | divide | remainder | power => exact .sign (fun _ => rfl) .nil
  | quotient | modulo | equal | notEqual | and | or | not => exact .keyword rfl rfl rfl rfl
  | less | greater => exact .half fun rest hr => sign_of_breaks hr rfl
  | lessOrEqual | greaterOrEqual =>
    intro rest _
    exact lexed_cons _ _

theorem scan_digit {c : Char} (hc : isDigit c = true) (rest : List Char) :
    Lexeme.scan c rest = Lexeme.number c rest := by
  have hpart : isWordPart c = true := by
    rw [isWordPart, hc, Bool.or_true]
    rfl
  obtain ⟨hgap, hcomment⟩ := not_blank_of_isWordPart hpart
  rw [Lexeme.scan, hgap, if_neg hcomment, if_pos hc]
  rfl

theorem fractionPart_of_breaks {rest : List Char} (hr : Breaks rest) :
    Lexeme.fractionPart rest = [] := by
  rw [Lexeme.fractionPart.eq_def]
  split
  case h_1 more => cases hr '.' rfl
  case h_2 => rfl

theorem Spells.digits {c : Char} {more : List Char} (hc : isDigit c = true)
    (hm : ∀ d ∈ more, isDigit d = true) (hn : Decimal.natural (c :: more) < Nat.pow 2 63) :
    Spells (c :: more) [.int (Int64.ofNat (Decimal.natural (c :: more)))] := by
  intro rest hr
  obtain ⟨htake, hdrop⟩ := takeWhile_append_of_breaks isDigit_of_isBreak hm hr
  have hnumber : Lexeme.number c (more ++ rest) =
      ⟨more.length, .token (.int (Int64.ofNat (Decimal.natural (c :: more))))⟩ := by
    rw [Lexeme.number, htake, hdrop, fractionPart_of_breaks hr]
    exact if_pos hn
  rw [List.cons_append, lexed_cons, scan_digit hc, hnumber, List.drop_left]
  rfl

theorem natural_digitsOf (n : Nat) : Decimal.natural (Decimal.Layout.digitsOf n) = n := by
  rw [Decimal.natural, ← Nat.ofDigitChars_eq_foldl]
  exact Nat.ofDigitChars_ten_toDigits

theorem Spells.numeral {n : Nat} (hn : n < Nat.pow 2 63) :
    Spells (Decimal.Layout.digitsOf n) [.int (Int64.ofNat n)] := by
  have hdigits : ∀ c ∈ Decimal.Layout.digitsOf n, isDigit c = true :=
    fun c hc => Nat.isDigit_of_mem_toDigits (by decide) (Nat.le_refl 10) hc
  have hnatural := natural_digitsOf n
  cases hd : Decimal.Layout.digitsOf n with
  | nil => exact absurd hd Nat.toDigits_ne_nil
  | cons c more =>
    rw [hd] at hdigits hnatural
    obtain ⟨hc, hm⟩ := List.forall_mem_cons.1 hdigits
    have h := Spells.digits hc hm (hnatural.symm ▸ hn)
    rwa [hnatural] at h

def intTokens (i : Int64) : List Token :=
  if i.toInt < 0 then [.operator .minus, .int (-i)] else [.int i]

theorem Spells.int {i : Int64} (h : i ≠ Int64.minValue) :
    Spells (Number.renderInt i).toList (intTokens i) := by
  have hlt := i.toInt_lt
  have hle := i.le_toInt
  have hne : i.toInt ≠ -2 ^ 63 := fun he => h (Int64.toInt_inj.1 he)
  rw [Number.renderInt, String.toList_ofList, intTokens]
  cases hi : i.toInt with
  | ofNat n =>
    have hnat : i.toInt = (n : Int) := hi
    have hn : n < 2 ^ 63 := by omega
    have hvalue : Int64.ofNat n = i := by
      rw [← Int64.toInt_inj, Int64.toInt_ofNat_of_lt hn, hnat]
    rw [if_neg (show ¬Int.ofNat n < 0 from Int.not_lt.2 (Int.natCast_nonneg n)), ← hvalue]
    exact .numeral hn
  | negSucc n =>
    have hn : n + 1 < 2 ^ 63 := by omega
    have hvalue : -Int64.ofNat (n + 1) = i := by
      rw [← Int64.toInt_inj, Int64.toInt_neg_ofNat_of_le (Nat.le_of_lt hn), hi]
      rfl
    rw [if_pos (Int.negSucc_lt_zero n), ← hvalue, Int64.neg_neg]
    exact .sign (fun _ => rfl) (.numeral hn)

/-- A quoted literal that the lexer reads as one token whatever comes next. -/
theorem Spells.quoted {quote : Char} {chars : List Char} {t : Token}
    (h : ∀ rest, Lexeme.scan quote (chars.flatMap (Text.escape quote) ++ quote :: rest) =
      ⟨(chars.flatMap (Text.escape quote)).length + 1, .token t⟩) :
    Spells (Text.literal quote chars).toList [t] := by
  intro rest _
  have hdrop : (chars.flatMap (Text.escape quote) ++ quote :: rest).drop
      ((chars.flatMap (Text.escape quote)).length + 1) = rest := by
    rw [← List.drop_drop, List.drop_left]
    rfl
  rw [Text.literal, String.toList_ofList, List.cons_append, List.cons_append, List.append_assoc,
    List.singleton_append, lexed_cons, h, hdrop]
  rfl

theorem Spells.text (chars : List Char) :
    Spells (Text.literal '"' chars).toList [.text chars] := by
  apply Spells.quoted
  intro rest
  have hbody : Lexeme.enclosed '"' (fun _ => false)
      (chars.flatMap (Text.escape '"') ++ '"' :: rest) = (chars.flatMap (Text.escape '"'), true) :=
    Text.enclosed_flatMap_escape rfl (by decide) (fun _ _ => rfl) chars rest
  change Lexeme.textLiteral _ = _
  rw [Lexeme.textLiteral, hbody]
  dsimp only
  rw [if_pos rfl, Text.unescape_flatMap_escape rfl]

theorem Spells.char (c : Char) : Spells (Text.literal '\'' [c]).toList [.char c] := by
  apply Spells.quoted
  intro rest
  have hbody : Lexeme.enclosed '\'' (fun c => c = '\n')
      ([c].flatMap (Text.escape '\'') ++ '\'' :: rest) = ([c].flatMap (Text.escape '\''), true) :=
    Text.enclosed_flatMap_escape rfl (by decide) (fun _ hne => decide_eq_false hne) [c] rest
  change Lexeme.charLiteral _ = _
  rw [Lexeme.charLiteral, hbody]
  dsimp only
  rw [if_pos rfl, Text.unescape_flatMap_escape rfl]

end Song
