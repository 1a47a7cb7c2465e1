import Mathlib.Computability.Language
import Song.Proofs.Token.Literal

/-!
# The lexical grammar

The patterns of the lexical grammar as languages of characters, built by union,
concatenation and repetition from single characters, and what a text that has one
of these patterns amounts to. Words and signs that are reserved are listed; a
reserved word is no identifier.
-/
namespace Song

namespace Pattern

open Computability
open Decimal (isDigit)
open Lexeme (isGap isLetter isWordPart)

def one (p : Char → Bool) : Language Char :=
  {text | ∃ c, p c = true ∧ text = [c]}

def oneOrMore (p : Char → Bool) : Language Char :=
  one p * (one p)∗

def gap : Language Char :=
  oneOrMore isGap

def comment : Language Char :=
  one (· = '#') * (one (· ≠ '\n'))∗

def digits : Language Char :=
  oneOrMore isDigit

def exponent : Language Char :=
  one (fun c => c = 'e' || c = 'E') * (1 + one fun c => c = '+' || c = '-') * digits

def decimal : Language Char :=
  digits * one (· = '.') * digits * (1 + exponent)

def quoted (quote : Char) (plain : Char → Bool) : Language Char :=
  one (· = quote) * (one plain + one (· = '\\') * one (· ≠ '\n'))∗ * one (· = quote)

def quotedChar : Language Char :=
  quoted '\'' fun c => c ≠ '\'' && c ≠ '\\' && c ≠ '\n'

def quotedText : Language Char :=
  quoted '"' fun c => c ≠ '"' && c ≠ '\\'

def identifier : Language Char :=
  one isLetter * (one isWordPart)∗ + one (· = '_') * oneOrMore isWordPart

def reservedWords : List (String × Token) :=
  [("true", .bool true), ("false", .bool false), ("When", .whenWord), ("Do", .doWord),
    ("End", .endWord), ("Fn", .fnWord), ("Eq", .operator .equal), ("Neq", .operator .notEqual),
    ("And", .operator .and), ("Or", .operator .or), ("Not", .operator .not),
    ("Div", .operator .quotient), ("Mod", .operator .modulo), ("_", .underscore)]

def signs : List (String × Token) :=
  [("\n", .newline), ("(", .leftParen), (")", .rightParen), ("[", .leftBracket),
    ("]", .rightBracket), (",", .comma), ("|", .bar), ("=", .equals), (".", .dot),
    ("+", .operator .plus), ("-", .operator .minus), ("*", .operator .times),
    ("/", .operator .divide), ("%", .operator .remainder), ("^", .operator .power),
    ("<", .operator .less), (">", .operator .greater), ("<=", .operator .lessOrEqual),
    (">=", .operator .greaterOrEqual)]

def reserved : List (String × Token) :=
  reservedWords ++ signs

def reservedText : Language Char :=
  {text | String.ofList text ∈ reserved.map Prod.fst}

def lexical : Language Char :=
  gap + comment + reservedText + identifier + digits + decimal + quotedChar + quotedText

variable {p : Char → Bool} {c : Char} {text : List Char} {language : Language Char}

theorem mem_one : text ∈ one p ↔ ∃ c, p c = true ∧ text = [c] :=
  Iff.rfl

theorem mem_one_mul : text ∈ one p * language ↔
    ∃ c rest, text = c :: rest ∧ p c = true ∧ rest ∈ language := by
  constructor
  · rintro ⟨_, ⟨c, hc, rfl⟩, rest, hrest, rfl⟩
    exact ⟨c, rest, rfl, hc, hrest⟩
  · rintro ⟨c, rest, rfl, hc, hrest⟩
    exact Language.append_mem_mul (a := [c]) ⟨c, hc, rfl⟩ hrest

theorem cons_mem_one_mul : c :: text ∈ one p * language ↔ p c = true ∧ text ∈ language := by
  rw [mem_one_mul]
  constructor
  · rintro ⟨_, _, ⟨⟩, h⟩
    exact h
  · intro h
    exact ⟨c, text, rfl, h⟩

theorem mem_kstar_one : text ∈ (one p)∗ ↔ ∀ c ∈ text, p c = true := by
  rw [Language.mem_kstar]
  constructor
  · rintro ⟨parts, rfl, hparts⟩ c hc
    obtain ⟨part, hpart, hc⟩ := List.mem_flatten.1 hc
    obtain ⟨d, hd, rfl⟩ := hparts part hpart
    rwa [List.mem_singleton.1 hc]
  · intro h
    refine ⟨text.map fun c => [c], by simp [← List.flatMap_def], ?_⟩
    intro part hpart
    obtain ⟨c, hc, rfl⟩ := List.mem_map.1 hpart
    exact ⟨c, h c hc, rfl⟩

theorem mem_oneOrMore : text ∈ oneOrMore p ↔ text ≠ [] ∧ ∀ c ∈ text, p c = true := by
  cases text with
  | nil => simp [oneOrMore, mem_one_mul]
  | cons c rest => simp [oneOrMore, cons_mem_one_mul, mem_kstar_one]

theorem mem_exponent : text ∈ exponent ↔ ∃ mark sign ds, text = mark :: sign ++ ds ∧
    (mark = 'e' ∨ mark = 'E') ∧ (sign = [] ∨ sign = ['+'] ∨ sign = ['-']) ∧ ds ∈ digits := by
  simp only [exponent, Language.mem_mul, Language.mem_add, Language.mem_one, mem_one,
    Bool.or_eq_true, decide_eq_true_eq]
  constructor
  · rintro ⟨_, ⟨_, ⟨mark, hmark, rfl⟩, sign, hsign, rfl⟩, ds, hds, rfl⟩
    refine ⟨mark, sign, ds, rfl, hmark, ?_, hds⟩
    rcases hsign with hsign | ⟨s, rfl | rfl, rfl⟩ <;> simp_all
  · rintro ⟨mark, sign, ds, rfl, hmark, hsign, hds⟩
    refine ⟨mark :: sign, ?_, ds, hds, rfl⟩
    refine ⟨[mark], ⟨mark, hmark, rfl⟩, sign, ?_, rfl⟩
    rcases hsign with rfl | rfl | rfl <;> simp

theorem mem_decimal : text ∈ decimal ↔ ∃ whole part last, text = whole ++ '.' :: part ++ last ∧
    whole ∈ digits ∧ part ∈ digits ∧ (last = [] ∨ last ∈ exponent) := by
  simp only [decimal, Language.mem_mul, Language.mem_add, Language.mem_one, mem_one,
    decide_eq_true_eq]
  constructor
  · rintro ⟨_, ⟨_, ⟨whole, hwhole, _, ⟨_, rfl, rfl⟩, rfl⟩, part, hpart, rfl⟩, last, hlast, rfl⟩
    exact ⟨whole, part, last, by simp, hwhole, hpart, hlast⟩
  · rintro ⟨whole, part, last, rfl, hwhole, hpart, hlast⟩
    have hdot : ∃ c, c = '.' ∧ ['.'] = [c] := ⟨'.', rfl, rfl⟩
    refine ⟨whole ++ ['.'] ++ part, ?_, last, hlast, by simp⟩
    exact ⟨whole ++ ['.'], ⟨whole, hwhole, ['.'], hdot, rfl⟩, part, hpart, rfl⟩

theorem mem_kstar_piece {quote : Char} {plain stops : Char → Bool}
    (hplain : ∀ c, plain c = true ↔ c ≠ '\\' ∧ c ≠ quote ∧ stops c = false) :
    text ∈ (one plain + one (· = '\\') * one (· ≠ '\n'))∗ ↔ Lexeme.Pieces quote stops text := by
  rw [Language.mem_kstar]
  constructor
  · rintro ⟨parts, rfl, hparts⟩
    induction parts with
    | nil => exact .nil
    | cons part parts ih =>
      obtain ⟨hpart, hrest⟩ := List.forall_mem_cons.1 hparts
      rcases hpart with ⟨c, hc, rfl⟩ | hescape
      · obtain ⟨hb, hq, hs⟩ := (hplain c).1 hc
        exact .plain hb hq hs (ih hrest)
      · obtain ⟨_, _, rfl, hb, letter, hl, rfl⟩ := mem_one_mul.1 hescape
        rw [decide_eq_true_eq] at hb hl
        subst hb
        exact .escape hl (ih hrest)
  · intro h
    induction h with
    | nil => exact ⟨[], rfl, nofun⟩
    | @escape letter rest hl _ ih =>
      obtain ⟨parts, rfl, hparts⟩ := ih
      refine ⟨['\\', letter] :: parts, rfl, ?_⟩
      rw [List.forall_mem_cons]
      refine ⟨?_, hparts⟩
      right
      exact cons_mem_one_mul.2 ⟨by simp, letter, by simpa using hl, rfl⟩
    | @plain c rest hc hq hs _ ih =>
      obtain ⟨parts, rfl, hparts⟩ := ih
      refine ⟨[c] :: parts, rfl, ?_⟩
      rw [List.forall_mem_cons]
      refine ⟨?_, hparts⟩
      left
      exact ⟨c, (hplain c).2 ⟨hc, hq, hs⟩, rfl⟩

theorem mem_quoted {quote : Char} {plain stops : Char → Bool}
    (hplain : ∀ c, plain c = true ↔ c ≠ '\\' ∧ c ≠ quote ∧ stops c = false) :
    text ∈ quoted quote plain ↔ ∃ body, text = quote :: body ++ [quote] ∧
      Lexeme.Pieces quote stops body := by
  simp only [quoted, Language.mem_mul, mem_one, decide_eq_true_eq, mem_kstar_piece hplain]
  constructor
  · rintro ⟨_, ⟨_, ⟨_, rfl, rfl⟩, body, hbody, rfl⟩, _, ⟨_, rfl, rfl⟩, rfl⟩
    exact ⟨body, rfl, hbody⟩
  · rintro ⟨body, rfl, hbody⟩
    have hquote : ∃ c, c = quote ∧ [quote] = [c] := ⟨quote, rfl, rfl⟩
    exact ⟨quote :: body, ⟨[quote], hquote, body, hbody, rfl⟩, [quote], hquote, rfl⟩

theorem mem_quotedText : text ∈ quotedText ↔ ∃ body, text = '"' :: body ++ ['"'] ∧
    Lexeme.Pieces '"' (fun _ => false) body := by
  apply mem_quoted
  intro c
  simp [and_comm]

theorem mem_quotedChar : text ∈ quotedChar ↔ ∃ body, text = '\'' :: body ++ ['\''] ∧
    Lexeme.Pieces '\'' (fun c => c = '\n') body := by
  apply mem_quoted
  intro c
  simp only [ne_eq, Bool.and_eq_true, decide_eq_true_eq, decide_eq_false_iff_not]
  tauto

theorem mem_identifier : text ∈ identifier ↔ ∃ c rest, text = c :: rest ∧
    (isLetter c || c = '_') = true ∧ (∀ d ∈ rest, isWordPart d = true) ∧ text ≠ ['_'] := by
  cases text with
  | nil => simp only [identifier, Language.mem_add, mem_one_mul]; simp
  | cons c rest =>
    simp only [identifier, Language.mem_add, cons_mem_one_mul, mem_kstar_one, mem_oneOrMore,
      decide_eq_true_eq, Bool.or_eq_true]
    constructor
    · rintro (⟨hc, hrest⟩ | ⟨rfl, hne, hrest⟩)
      · refine ⟨c, rest, rfl, Or.inl hc, hrest, ?_⟩
        rintro ⟨⟩
        cases hc
      · exact ⟨_, rest, rfl, Or.inr rfl, hrest, by simpa using hne⟩
    · rintro ⟨_, _, ⟨⟩, hc | rfl, hrest, hne⟩
      · exact Or.inl ⟨hc, hrest⟩
      · exact Or.inr ⟨rfl, by simpa using hne, hrest⟩

end Pattern

namespace Lexeme

open Pattern

def escapes : List (Char × Char) :=
  [('n', '\n'), ('t', '\t'), ('r', '\r'), ('0', Char.ofNat 0), ('\\', '\\'), ('\'', '\''),
    ('"', '"')]

/-- The inside of a literal denotes some characters. -/
inductive Denotes : List Char → List Char → Prop
  | nil : Denotes [] []
  | plain {c : Char} {body chars : List Char} (hc : c ≠ '\\') (h : Denotes body chars) :
    Denotes (c :: body) (c :: chars)
  | escape {letter c : Char} {body chars : List Char} (hc : (letter, c) ∈ escapes)
    (h : Denotes body chars) : Denotes ('\\' :: letter :: body) (c :: chars)

/-- The first escape inside a literal that stands for nothing. -/
def FirstBadEscape (body : List Char) (letter : Char) : Prop :=
  letter ∉ escapes.map Prod.fst ∧ ∃ before chars after,
    body = before ++ '\\' :: letter :: after ∧ Denotes before chars

/-- The text has a pattern of the grammar and amounts to the reading. A reserved word counts as
such before it counts as an identifier. -/
inductive Takes : List Char → Reading → Prop
  | gap {text : List Char} (h : text ∈ Pattern.gap) : Takes text .skip
  | comment {text : List Char} (h : text ∈ Pattern.comment) : Takes text .skip
  | reserved {text : List Char} {t : Token} (h : (String.ofList text, t) ∈ Pattern.reserved) :
    Takes text (.token t)
  | identifier {text : List Char} (h : text ∈ Pattern.identifier)
    (hr : text ∉ reservedText) :
    Takes text (.token (.identifier (String.ofList text)))
  | int {text : List Char} (h : text ∈ digits) (hn : Decimal.natural text < Nat.pow 2 63) :
    Takes text (.token (.int (Int64.ofNat (Decimal.natural text))))
  | intOverflow {text : List Char} (h : text ∈ digits)
    (hn : Nat.pow 2 63 ≤ Decimal.natural text) : Takes text (.fault .intOverflow)
  | float {text : List Char} {x : Float} (h : text ∈ decimal)
    (hx : Decimal.read? text = some x) : Takes text (.token (.float x))
  | text {body chars : List Char} (h : '"' :: body ++ ['"'] ∈ quotedText)
    (hb : Denotes body chars) : Takes ('"' :: body ++ ['"']) (.token (.text chars))
  | textEscape {body : List Char} {letter : Char} (h : '"' :: body ++ ['"'] ∈ quotedText)
    (hb : FirstBadEscape body letter) :
    Takes ('"' :: body ++ ['"']) (.fault (.invalidEscape letter))
  | char {body : List Char} {c : Char} (h : '\'' :: body ++ ['\''] ∈ quotedChar)
    (hb : Denotes body [c]) : Takes ('\'' :: body ++ ['\'']) (.token (.char c))
  | charEscape {body : List Char} {letter : Char} (h : '\'' :: body ++ ['\''] ∈ quotedChar)
    (hb : FirstBadEscape body letter) :
    Takes ('\'' :: body ++ ['\'']) (.fault (.invalidEscape letter))
  | emptyChar (h : ['\'', '\''] ∈ quotedChar) : Takes ['\'', '\''] (.fault .emptyChar)
  | severalChars {body : List Char} {c d : Char} {chars : List Char}
    (h : '\'' :: body ++ ['\''] ∈ quotedChar) (hb : Denotes body (c :: d :: chars)) :
    Takes ('\'' :: body ++ ['\'']) (.fault .severalChars)

/-- No text that starts where this one does and goes on in `more` is longer and has a pattern. -/
def IsLongest (text more : List Char) : Prop :=
  ∀ longer, longer <+: text ++ more → longer ∈ lexical → longer.length ≤ text.length

end Lexeme
end Song
