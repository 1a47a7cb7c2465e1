import Song.Proofs.Token.Continuation
import Song.Proofs.Token.Pattern
import Song.Proofs.Token.Spelling

/-!
# Lexemes are longest matches

At each place of a text the lexer takes the longest lexeme of the lexical grammar,
with the reading that the grammar gives it. The first character decides between the
patterns, so each kind of lexeme has one lemma: what it takes has a pattern, and no
text that starts there and has a pattern is longer.
-/
namespace Song

open Pattern
open Decimal (isDigit)

namespace Lexeme

variable {c : Char} {rest : List Char}

inductive Kind where
  | gap
  | comment
  | number
  | word
  | text
  | char
  | sign
deriving DecidableEq

def kind (c : Char) : Kind :=
  if isGap c then .gap
  else if c = '#' then .comment
  else if isDigit c then .number
  else if isLetter c || c = '_' then .word
  else if c = '"' then .text
  else if c = '\'' then .char
  else .sign

theorem kind_of_isDigit (hc : isDigit c = true) : kind c = .number := by
  have hpart : isWordPart c = true := by simp [isWordPart, hc]
  obtain ⟨hgap, hcomment⟩ := not_blank_of_isWordPart hpart
  simp [kind, hgap, hcomment, hc]

theorem kind_of_isLetter (hc : (isLetter c || c = '_') = true) : kind c = .word := by
  obtain ⟨hpart, hdigit⟩ := isWordPart_of_starts hc
  obtain ⟨hgap, hcomment⟩ := not_blank_of_isWordPart hpart
  rw [kind, hgap, hdigit, if_neg hcomment, if_pos hc]
  rfl

/-- What may follow the first character of a lexeme, by the way in which it starts. -/
def GoesOn (c : Char) (rest : List Char) : Prop :=
  match kind c with
  | .gap => ∀ d ∈ rest, isGap d = true
  | .comment => ∀ d ∈ rest, d ≠ '\n'
  | .number => c :: rest ∈ digits ∨ c :: rest ∈ decimal
  | .word => ∀ d ∈ rest, isWordPart d = true
  | .text => ∃ body, rest = body ++ ['"'] ∧ Pieces '"' (fun _ => false) body
  | .char => ∃ body, rest = body ++ ['\''] ∧ Pieces '\'' (fun c => c = '\n') body
  | .sign => (Token.ofSign? c).isSome = true ∧
      (rest = [] ∨ rest = ['='] ∧ (c = '<' ∨ c = '>'))

theorem goesOn_of_reservedWord {word : String} (h : word ∈ reservedWords.map Prod.fst)
    (hw : word.toList = c :: rest) : GoesOn c rest := by
  have hall : ∀ word ∈ reservedWords.map Prod.fst, (word.toList.head?.any fun c =>
      isLetter c || c = '_') ∧ word.toList.tail.all isWordPart := by decide
  obtain ⟨hc, hrest⟩ := hall word h
  rw [hw] at hc hrest
  rw [GoesOn, kind_of_isLetter hc]
  exact List.all_eq_true.1 hrest

theorem goesOn_of_sign {text : String} (h : text ∈ signs.map Prod.fst)
    (ht : text.toList = c :: rest) : GoesOn c rest := by
  have hall : ∀ text ∈ signs.map Prod.fst,
      text.toList.head?.any (fun c => kind c = .sign ∧ (Token.ofSign? c).isSome = true) ∧
        (text.toList.tail = [] ∨ text.toList = ['<', '='] ∨ text.toList = ['>', '=']) := by
    decide
  obtain ⟨hc, hrest⟩ := hall text h
  rw [ht] at hc hrest
  obtain ⟨hkind, hsign⟩ : kind c = .sign ∧ (Token.ofSign? c).isSome = true := by simpa using hc
  rw [GoesOn, hkind]
  refine ⟨hsign, ?_⟩
  rcases hrest with h | h | h
  · exact Or.inl h
  · cases h
    exact Or.inr ⟨rfl, Or.inl rfl⟩
  · cases h
    exact Or.inr ⟨rfl, Or.inr rfl⟩

theorem goesOn_of_lexical (h : c :: rest ∈ lexical) : GoesOn c rest := by
  rcases h with ((((((h | h) | h) | h) | h) | h) | h) | h
  · obtain ⟨hc, hrest⟩ := List.forall_mem_cons.1 (mem_oneOrMore.1 h).2
    simpa [GoesOn, kind, hc] using hrest
  · obtain ⟨hc, hrest⟩ := cons_mem_one_mul.1 h
    obtain rfl : c = '#' := by simpa using hc
    intro d hd
    simpa using mem_kstar_one.1 hrest d hd
  · change String.ofList (c :: rest) ∈ reserved.map Prod.fst at h
    rw [reserved, List.map_append, List.mem_append] at h
    rcases h with h | h
    · exact goesOn_of_reservedWord h String.toList_ofList
    · exact goesOn_of_sign h String.toList_ofList
  · obtain ⟨_, _, ⟨⟩, hc, hrest, -⟩ := mem_identifier.1 h
    rw [GoesOn, kind_of_isLetter hc]
    exact hrest
  · have hc : isDigit c = true := (mem_oneOrMore.1 h).2 c List.mem_cons_self
    rw [GoesOn, kind_of_isDigit hc]
    exact Or.inl h
  · obtain ⟨whole, part, last, htext, hwhole, -⟩ := mem_decimal.1 h
    have hc : isDigit c = true := by
      obtain ⟨hne, hall⟩ := mem_oneOrMore.1 hwhole
      cases whole with
      | nil => exact absurd rfl hne
      | cons d whole =>
        cases htext
        exact hall c List.mem_cons_self
    rw [GoesOn, kind_of_isDigit hc]
    exact Or.inr h
  · obtain ⟨body, ⟨⟩, hbody⟩ := mem_quotedChar.1 h
    exact ⟨body, rfl, hbody⟩
  · obtain ⟨body, ⟨⟩, hbody⟩ := mem_quotedText.1 h
    exact ⟨body, rfl, hbody⟩

theorem nil_notMem_lexical : [] ∉ lexical := by
  rintro (((((((h | h) | h) | h) | h) | h) | h) | h)
  · exact (mem_oneOrMore.1 h).1 rfl
  · obtain ⟨_, _, h, -⟩ := mem_one_mul.1 h
    cases h
  · change "" ∈ reserved.map Prod.fst at h
    revert h
    decide
  · obtain ⟨_, _, h, -⟩ := mem_identifier.1 h
    cases h
  · exact (mem_oneOrMore.1 h).1 rfl
  · obtain ⟨whole, _, _, h, -⟩ := mem_decimal.1 h
    simp at h
  · obtain ⟨_, h, -⟩ := mem_quotedChar.1 h
    cases h
  · obtain ⟨_, h, -⟩ := mem_quotedText.1 h
    cases h

/-- A lexeme is the longest one if no way to go on after its first character is longer. -/
theorem isLongest_cons {text more : List Char} (h : ∀ longer, longer <+: text ++ more →
    GoesOn c longer → longer.length ≤ text.length) : IsLongest (c :: text) more := by
  intro longer hstarts hlexical
  cases longer with
  | nil => exact absurd hlexical nil_notMem_lexical
  | cons d longer =>
    rw [List.cons_append, List.cons_prefix_cons] at hstarts
    obtain ⟨rfl, hstarts⟩ := hstarts
    exact Nat.succ_le_succ (h longer hstarts (goesOn_of_lexical hlexical))

/-- No lexeme starts a text if there is no way to go on after its first character. -/
theorem notMem_lexical_of_not_goesOn (h : ∀ longer, longer <+: rest → ¬GoesOn c longer)
    {text : List Char} (ht : text <+: c :: rest) : text ∉ lexical := by
  intro hlexical
  cases text with
  | nil => exact nil_notMem_lexical hlexical
  | cons d text =>
    rw [List.cons_prefix_cons] at ht
    obtain ⟨rfl, ht⟩ := ht
    exact h text ht (goesOn_of_lexical hlexical)

section Runs

variable {p : Char → Bool} {run tail : List Char}

theorem length_le_takeWhile (hstarts : run <+: tail) (hrun : ∀ d ∈ run, p d = true) :
    run.length ≤ (tail.takeWhile p).length := by
  obtain ⟨more, rfl⟩ := hstarts
  rw [List.takeWhile_append_of_pos hrun, List.length_append]
  exact Nat.le_add_right _ _

theorem takeWhile_run (hrun : ∀ d ∈ run, p d = true) {d : Char} (hd : p d = false)
    (more : List Char) : (run ++ d :: more).takeWhile p = run ∧
      (run ++ d :: more).dropWhile p = d :: more := by
  rw [List.takeWhile_append_of_pos hrun, List.dropWhile_append_of_pos hrun, List.takeWhile_cons,
    List.dropWhile_cons, hd]
  simp

theorem forall_mem_takeWhile (p : Char → Bool) (text : List Char) :
    ∀ d ∈ text.takeWhile p, p d = true :=
  List.all_eq_true.1 List.all_takeWhile

end Runs

def exponentSign (text : List Char) : List Char :=
  (text.take 1).takeWhile fun c => c = '+' || c = '-'

theorem exponentPart_cons (mark : Char) (text : List Char) :
    exponentPart (mark :: text) =
      if mark = 'e' || mark = 'E' then
        if ((text.drop (exponentSign text).length).takeWhile isDigit).isEmpty then []
        else mark :: exponentSign text ++ (text.drop (exponentSign text).length).takeWhile isDigit
      else [] :=
  rfl

theorem exponentSign_spec (text : List Char) :
    (exponentSign text = [] ∨ exponentSign text = ['+'] ∨ exponentSign text = ['-']) ∧
      text = exponentSign text ++ text.drop (exponentSign text).length := by
  cases text with
  | nil => exact ⟨Or.inl rfl, rfl⟩
  | cons d more =>
    by_cases hplus : d = '+'
    · subst hplus
      exact ⟨Or.inr (Or.inl rfl), rfl⟩
    by_cases hminus : d = '-'
    · subst hminus
      exact ⟨Or.inr (Or.inr rfl), rfl⟩
    · have hnone : exponentSign (d :: more) = [] := by simp [exponentSign, hplus, hminus]
      rw [hnone]
      exact ⟨Or.inl rfl, rfl⟩

/-- A sign that is followed by digits is the one that is found. -/
theorem exponentSign_append {sign ds : List Char} (hs : sign = [] ∨ sign = ['+'] ∨ sign = ['-'])
    (hd : ds ∈ digits) (more : List Char) : exponentSign (sign ++ ds ++ more) = sign := by
  rcases hs with rfl | rfl | rfl
  · obtain ⟨hne, hall⟩ := mem_oneOrMore.1 hd
    cases ds with
    | nil => exact absurd rfl hne
    | cons d ds =>
      have hdigit : isDigit d = true := hall d List.mem_cons_self
      have hsign : d ≠ '+' ∧ d ≠ '-' := by
        constructor <;> (rintro rfl; cases hdigit)
      simp [exponentSign, hsign]
  · rfl
  · rfl

theorem exponentPart_starts (text : List Char) : exponentPart text <+: text := by
  cases text with
  | nil => exact List.nil_prefix
  | cons mark more =>
    rw [exponentPart_cons]
    split_ifs
    · exact List.nil_prefix
    · nth_rewrite 4 [(exponentSign_spec more).2]
      rw [List.cons_append, List.cons_prefix_cons, List.prefix_append_right_inj]
      exact ⟨rfl, List.takeWhile_prefix isDigit⟩
    · exact List.nil_prefix

theorem exponentPart_mem (text : List Char) :
    exponentPart text = [] ∨ exponentPart text ∈ exponent := by
  cases text with
  | nil => exact Or.inl rfl
  | cons mark more =>
    rw [exponentPart_cons]
    split_ifs with hmark hempty
    · exact Or.inl rfl
    · right
      rw [mem_exponent]
      refine ⟨mark, _, _, rfl, ?_, (exponentSign_spec more).1, ?_⟩
      · simpa using hmark
      · exact mem_oneOrMore.2 ⟨by simpa using hempty, forall_mem_takeWhile _ _⟩
    · exact Or.inl rfl

theorem exponentPart_longest {text longer : List Char} (hstarts : longer <+: text)
    (h : longer ∈ exponent) : longer.length ≤ (exponentPart text).length := by
  obtain ⟨more, rfl⟩ := hstarts
  obtain ⟨mark, sign, ds, rfl, hmark, hsign, hds⟩ := mem_exponent.1 h
  obtain ⟨hne, hall⟩ := mem_oneOrMore.1 hds
  have hfound := exponentSign_append hsign hds more
  have hdigits : ((sign ++ ds ++ more).drop sign.length).takeWhile isDigit =
      ds ++ more.takeWhile isDigit := by
    rw [List.append_assoc, List.drop_left, List.takeWhile_append_of_pos hall]
  have hnonempty : (ds ++ more.takeWhile isDigit).isEmpty = false := by simp [hne]
  rw [List.cons_append, List.cons_append, exponentPart_cons, hfound, hdigits, hnonempty,
    if_pos (by simpa using hmark)]
  simp only [Bool.false_eq_true, if_false, List.length_cons, List.length_append]
  omega

theorem fractionPart_cons (text : List Char) :
    fractionPart ('.' :: text) =
      if (text.takeWhile isDigit).isEmpty then []
      else '.' :: text.takeWhile isDigit ++ exponentPart (text.dropWhile isDigit) :=
  rfl

theorem fractionPart_starts (text : List Char) : fractionPart text <+: text := by
  rw [fractionPart.eq_def]
  split
  case h_1 more =>
    dsimp only
    split_ifs
    · exact List.nil_prefix
    · nth_rewrite 3 [← List.takeWhile_append_dropWhile (p := isDigit) (l := more)]
      rw [List.cons_append, List.cons_prefix_cons, List.prefix_append_right_inj]
      exact ⟨rfl, exponentPart_starts _⟩
  case h_2 => exact List.nil_prefix

/-- Digits and a fraction after them are a decimal. -/
theorem fractionPart_mem {whole : List Char} (hw : whole ∈ digits) {text : List Char}
    (h : fractionPart text ≠ []) : whole ++ fractionPart text ∈ decimal := by
  rw [fractionPart.eq_def] at h ⊢
  split at h
  case h_1 more =>
    dsimp only at h ⊢
    split_ifs at h ⊢ with hempty
    · exact absurd rfl h
    · rw [mem_decimal]
      refine ⟨whole, more.takeWhile isDigit, exponentPart (more.dropWhile isDigit), by simp, hw, ?_,
        exponentPart_mem _⟩
      exact mem_oneOrMore.2 ⟨by simpa using hempty, forall_mem_takeWhile _ _⟩
  case h_2 => exact absurd rfl h

theorem fractionPart_longest {text part last : List Char} (hstarts : '.' :: part ++ last <+: text)
    (hpart : part ∈ digits) (hlast : last = [] ∨ last ∈ exponent) :
    ('.' :: part ++ last).length ≤ (fractionPart text).length := by
  obtain ⟨more, rfl⟩ := hstarts
  obtain ⟨hne, hall⟩ := mem_oneOrMore.1 hpart
  rw [List.cons_append, List.cons_append, fractionPart_cons, List.append_assoc,
    List.takeWhile_append_of_pos hall, List.dropWhile_append_of_pos hall, if_neg (by simp [hne])]
  rcases hlast with rfl | hlast
  · simp only [List.length_cons, List.length_append, List.length_nil]
    omega
  · -- the mark of the exponent ends the digits
    obtain ⟨mark, sign, ds, rfl, hmark, -⟩ := mem_exponent.1 hlast
    have hdigit : isDigit mark = false := by rcases hmark with rfl | rfl <;> rfl
    obtain ⟨htake, hdrop⟩ : (mark :: sign ++ ds ++ more).takeWhile isDigit = [] ∧
        (mark :: sign ++ ds ++ more).dropWhile isDigit = mark :: sign ++ ds ++ more :=
      takeWhile_run (List.forall_mem_nil _) hdigit _
    have hlongest := exponentPart_longest (List.prefix_append _ more) hlast
    rw [htake, hdrop]
    simp only [List.length_cons, List.length_append, List.length_nil] at hlongest ⊢
    omega

theorem splitSign_digits {ds : List Char} (h : ds ∈ digits) (more : List Char) :
    Decimal.splitSign (ds ++ more) = (false, ds ++ more) := by
  obtain ⟨hne, hall⟩ := mem_oneOrMore.1 h
  cases ds with
  | nil => exact absurd rfl hne
  | cons d ds =>
    have hdigit : isDigit d = true := hall d List.mem_cons_self
    rw [Decimal.splitSign.eq_def]
    split
    case h_1 heq => cases heq; cases hdigit
    case h_2 heq => cases heq; cases hdigit
    case h_3 => rfl

theorem exponent?_isSome {sign ds : List Char} (hs : sign = [] ∨ sign = ['+'] ∨ sign = ['-'])
    (hd : ds ∈ digits) : (Decimal.exponent? (sign ++ ds)).isSome = true := by
  have hsplit : (Decimal.splitSign (sign ++ ds)).2 = ds := by
    rcases hs with rfl | rfl | rfl
    · have h := splitSign_digits hd []
      rw [List.append_nil] at h
      rw [List.nil_append, h]
    · rfl
    · rfl
  obtain ⟨hne, hall⟩ := mem_oneOrMore.1 hd
  have hvalid : ¬(ds.isEmpty || !ds.all isDigit) = true := by
    simpa [hne] using hall
  rw [Decimal.exponent?]
  dsimp only
  rw [hsplit, if_neg hvalid]
  rfl

/-- How an unsigned decimal with a point is read. -/
theorem unsigned?_of_point {text more : List Char} (h : text.dropWhile isDigit = '.' :: more) :
    Decimal.unsigned? text =
      let part := more.takeWhile isDigit
      let scaled (e : Int) : Decimal.Scaled :=
        ⟨Decimal.natural (text.takeWhile isDigit ++ part), e - part.length⟩
      if (text.takeWhile isDigit ++ part).isEmpty then none
      else
        match more.dropWhile isDigit with
        | [] => some (scaled 0)
        | mark :: rest =>
          if mark = 'e' || mark = 'E' then (Decimal.exponent? rest).map scaled else none := by
  rw [Decimal.unsigned?, h]
  rfl

theorem unsigned?_isSome_of_decimal {text : List Char} (h : text ∈ decimal) :
    (Decimal.unsigned? text).isSome = true := by
  obtain ⟨whole, part, last, rfl, hwhole, hpart, hlast⟩ := mem_decimal.1 h
  obtain ⟨hne, hdigits⟩ := mem_oneOrMore.1 hwhole
  obtain ⟨htake, hdrop⟩ := takeWhile_run hdigits (d := '.') rfl (part ++ last)
  have hpoint : whole ++ '.' :: part ++ last = whole ++ '.' :: (part ++ last) := by simp
  have hrest : (part ++ last).dropWhile isDigit = last := by
    rw [List.dropWhile_append_of_pos (mem_oneOrMore.1 hpart).2]
    rcases hlast with rfl | hlast
    · rfl
    · obtain ⟨mark, sign, ds, rfl, hmark, -⟩ := mem_exponent.1 hlast
      have hdigit : isDigit mark = false := by rcases hmark with rfl | rfl <;> rfl
      exact (takeWhile_run (List.forall_mem_nil _) hdigit _).2
  have hsome : ¬(whole ++ (part ++ last).takeWhile isDigit).isEmpty = true := by simp [hne]
  rw [hpoint, unsigned?_of_point hdrop, htake]
  dsimp only
  rw [if_neg hsome, hrest]
  rcases hlast with rfl | hlast
  · rfl
  · obtain ⟨mark, sign, ds, rfl, hmark, hsign, hds⟩ := mem_exponent.1 hlast
    have hmark : (mark = 'e' || mark = 'E') = true := by simpa using hmark
    rw [List.cons_append]
    dsimp only
    rw [if_pos hmark, Option.isSome_map]
    exact exponent?_isSome hsign hds

/-- A decimal can be read as a number. -/
theorem read?_isSome_of_decimal {text : List Char} (h : text ∈ decimal) :
    (Decimal.read? text).isSome = true := by
  have hsigned : Decimal.splitSign text = (false, text) := by
    obtain ⟨whole, part, last, rfl, hwhole, -⟩ := mem_decimal.1 h
    rw [List.append_assoc]
    exact splitSign_digits hwhole _
  rw [Decimal.read?, hsigned]
  simp [unsigned?_isSome_of_decimal h]

/-! ### What scanning finds -/

def noLexeme (c : Char) : LexicalFault :=
  if c = '"' then .unterminatedText
  else if c = '\'' then .unterminatedChar
  else .unknownCharacter c

/-- The lexeme is the longest one that the text starts with, and its reading is the one that the
grammar gives it; or the text starts with no lexeme. -/
def Fits (text : List Char) (lexeme : Lexeme) : Prop :=
  (∃ taken more, text = taken ++ more ∧ taken.length = lexeme.extra + 1 ∧
    Takes taken lexeme.reading ∧ IsLongest taken more) ∨
  (∀ taken, taken <+: text → taken ∉ lexical) ∧
    ∃ c, text.head? = some c ∧ lexeme.reading = .fault (noLexeme c)

/-- A first character and what a run takes after it is the longest lexeme if every lexeme that
starts so is such a run. -/
theorem fits_run {p : Char → Bool} {reading : Reading}
    (htakes : Takes (c :: rest.takeWhile p) reading)
    (hgoes : ∀ longer, GoesOn c longer → ∀ d ∈ longer, p d = true) :
    Fits (c :: rest) ⟨(rest.takeWhile p).length, reading⟩ := by
  left
  refine ⟨c :: rest.takeWhile p, rest.dropWhile p, ?_, rfl, htakes, ?_⟩
  · rw [List.cons_append, List.takeWhile_append_dropWhile]
  · apply isLongest_cons
    intro longer hstarts hlonger
    rw [List.takeWhile_append_dropWhile] at hstarts
    exact length_le_takeWhile hstarts (hgoes longer hlonger)

theorem fits_gap (hc : isGap c = true) :
    Fits (c :: rest) ⟨(rest.takeWhile isGap).length, .skip⟩ := by
  refine fits_run (.gap ?_) fun longer hgoes => ?_
  · exact mem_oneOrMore.2 ⟨List.cons_ne_nil _ _,
      List.forall_mem_cons.2 ⟨hc, forall_mem_takeWhile _ _⟩⟩
  · simpa [GoesOn, kind, hc] using hgoes

theorem fits_comment : Fits ('#' :: rest) ⟨(rest.takeWhile (· ≠ '\n')).length, .skip⟩ := by
  refine fits_run (.comment ?_) fun longer hgoes d hd => ?_
  · exact cons_mem_one_mul.2 ⟨rfl, mem_kstar_one.2 (forall_mem_takeWhile _ _)⟩
  · exact decide_eq_true (hgoes d hd)

theorem number_reading (c : Char) (rest : List Char) :
    number c rest = ⟨(rest.takeWhile isDigit).length +
      (fractionPart (rest.dropWhile isDigit)).length, (number c rest).reading⟩ := by
  rw [number]
  dsimp only
  split_ifs
  · rfl
  · rfl
  · split <;> rfl

theorem number_takes (hc : isDigit c = true) :
    Takes (c :: rest.takeWhile isDigit ++ fractionPart (rest.dropWhile isDigit))
      (number c rest).reading := by
  have hwhole : c :: rest.takeWhile isDigit ∈ digits :=
    mem_oneOrMore.2 ⟨List.cons_ne_nil _ _,
      List.forall_mem_cons.2 ⟨hc, forall_mem_takeWhile _ _⟩⟩
  rw [number]
  dsimp only
  split_ifs with hempty hlt
  · rw [List.isEmpty_iff.1 hempty, List.append_nil]
    exact .int hwhole hlt
  · rw [List.isEmpty_iff.1 hempty, List.append_nil]
    exact .intOverflow hwhole (Nat.le_of_not_lt hlt)
  · have hdecimal := fractionPart_mem hwhole (mt List.isEmpty_iff.2 hempty)
    split
    case h_1 x hx => exact .float hdecimal hx
    case h_2 hnone =>
      have hsome := read?_isSome_of_decimal hdecimal
      rw [hnone] at hsome
      cases hsome

theorem fits_number (hc : isDigit c = true) : Fits (c :: rest) (number c rest) := by
  obtain ⟨more, hmore⟩ := fractionPart_starts (rest.dropWhile isDigit)
  have hrest : rest = rest.takeWhile isDigit ++ fractionPart (rest.dropWhile isDigit) ++ more := by
    rw [List.append_assoc, hmore, List.takeWhile_append_dropWhile]
  left
  refine ⟨c :: (rest.takeWhile isDigit ++ fractionPart (rest.dropWhile isDigit)), more, ?_, ?_,
    number_takes hc, ?_⟩
  · rw [List.cons_append, ← hrest]
  · rw [number_reading]
    simp only [List.length_append, List.length_cons]
  · apply isLongest_cons
    intro longer hstarts hgoes
    rw [← hrest] at hstarts
    rw [GoesOn, kind_of_isDigit hc] at hgoes
    rcases hgoes with hdigits | hdecimal
    · have hall := (List.forall_mem_cons.1 (mem_oneOrMore.1 hdigits).2).2
      exact (length_le_takeWhile hstarts hall).trans (by simp)
    · obtain ⟨whole, part, last, htext, hwhole, hpart, hlast⟩ := mem_decimal.1 hdecimal
      obtain ⟨hne, hall⟩ := mem_oneOrMore.1 hwhole
      cases whole with
      | nil => exact absurd rfl hne
      | cons d whole =>
        -- the point ends the digits before it
        rw [List.cons_append, List.cons_append] at htext
        obtain ⟨rfl, rfl⟩ := List.cons.inj htext
        obtain ⟨tail, rfl⟩ := hstarts
        have hpoint : whole ++ '.' :: part ++ last ++ tail =
            whole ++ '.' :: (part ++ last ++ tail) := by simp
        obtain ⟨htake, hdrop⟩ := takeWhile_run (List.forall_mem_cons.1 hall).2 (d := '.') rfl
          (part ++ last ++ tail)
        have hlongest : ('.' :: part ++ last).length ≤
            (fractionPart ('.' :: (part ++ last ++ tail))).length :=
          fractionPart_longest ⟨tail, by simp⟩ hpart hlast
        rw [hpoint, htake, hdrop]
        simp only [List.length_append, List.length_cons] at hlongest ⊢
        omega

theorem ofWord_cases (word : String) :
    (word, Token.ofWord word) ∈ reservedWords ∨
      Token.ofWord word = .identifier word ∧ word ∉ reservedWords.map Prod.fst := by
  rw [Token.ofWord.eq_def]
  split
  case h_15 => exact Or.inr ⟨rfl, by simp_all [reservedWords]⟩
  all_goals exact Or.inl (by decide)

/-- A word among the reserved texts is a reserved word. -/
theorem reservedWord_of_reservedText (hc : (isLetter c || c = '_') = true)
    (h : c :: rest ∈ reservedText) : String.ofList (c :: rest) ∈ reservedWords.map Prod.fst := by
  change String.ofList (c :: rest) ∈ reserved.map Prod.fst at h
  rw [reserved, List.map_append, List.mem_append] at h
  apply h.resolve_right
  intro hsign
  have hall : ∀ text ∈ signs.map Prod.fst, text.toList.head?.all fun c => kind c = .sign := by
    decide
  have hkind := hall _ hsign
  rw [String.toList_ofList, List.head?_cons, Option.all_some, kind_of_isLetter hc] at hkind
  cases hkind

theorem fits_word (hc : (isLetter c || c = '_') = true) : Fits (c :: rest) (word c rest) := by
  apply fits_run
  · rcases ofWord_cases (String.ofList (c :: rest.takeWhile isWordPart)) with h | ⟨heq, hne⟩
    · exact .reserved (List.mem_append_left _ h)
    · have hfree : c :: rest.takeWhile isWordPart ∉ reservedText :=
        fun h => hne (reservedWord_of_reservedText hc h)
      rw [heq]
      refine .identifier ?_ hfree
      rw [mem_identifier]
      refine ⟨c, _, rfl, hc, forall_mem_takeWhile _ _, ?_⟩
      intro h
      rw [h] at hne
      exact hne (by decide)
  · intro longer hgoes
    rw [GoesOn, kind_of_isLetter hc] at hgoes
    exact hgoes

theorem mem_escapes_iff {letter c : Char} : (letter, c) ∈ escapes ↔ unescape? letter = some c := by
  constructor
  · intro h
    have hall : ∀ pair ∈ escapes, unescape? pair.1 = some pair.2 := by decide
    exact hall _ h
  · intro h
    rw [unescape?.eq_def] at h
    split at h <;> cases h <;> decide

theorem notMem_escapes_iff {letter : Char} :
    letter ∉ escapes.map Prod.fst ↔ unescape? letter = none := by
  cases h : unescape? letter with
  | none =>
    refine iff_of_true ?_ rfl
    intro hmem
    obtain ⟨⟨_, c⟩, hpair, rfl⟩ := List.mem_map.1 hmem
    rw [mem_escapes_iff.1 hpair] at h
    cases h
  | some c =>
    refine iff_of_false ?_ nofun
    rw [not_not]
    exact List.mem_map_of_mem (mem_escapes_iff.2 h)

/-- The inside of a literal denotes characters, or its first bad escape is at fault. -/
theorem unescape_cases {quote : Char} {stops : Char → Bool} {body : List Char}
    (h : Pieces quote stops body) :
    (∃ chars, unescape body = .ok chars ∧ Denotes body chars) ∨
      ∃ letter, unescape body = .error (.invalidEscape letter) ∧ FirstBadEscape body letter := by
  induction h with
  | nil => exact Or.inl ⟨[], rfl, .nil⟩
  | @escape letter rest _ _ ih =>
    cases hl : unescape? letter with
    | none =>
      refine Or.inr ⟨letter, by rw [unescape, hl], notMem_escapes_iff.2 hl, [], [], rest, rfl, .nil⟩
    | some c =>
      rw [unescape_escape hl]
      rcases ih with ⟨chars, hchars, hdenotes⟩ | ⟨bad, hbad, hnone, before, chars, after, rfl, hb⟩
      · rw [hchars]
        exact Or.inl ⟨c :: chars, rfl, .escape (mem_escapes_iff.2 hl) hdenotes⟩
      · rw [hbad]
        exact Or.inr ⟨bad, rfl, hnone, '\\' :: letter :: before, c :: chars, after, rfl,
          .escape (mem_escapes_iff.2 hl) hb⟩
  | @plain c rest hc _ _ _ ih =>
    rw [unescape_plain hc]
    rcases ih with ⟨chars, hchars, hdenotes⟩ | ⟨bad, hbad, hnone, before, chars, after, rfl, hb⟩
    · rw [hchars]
      exact Or.inl ⟨c :: chars, rfl, .plain hc hdenotes⟩
    · rw [hbad]
      exact Or.inr ⟨bad, rfl, hnone, c :: before, c :: chars, after, rfl, .plain hc hb⟩

/-- Pieces up to a quote are all that a literal holds. -/
theorem enclosed_eq_of_starts {quote : Char} {stops : Char → Bool} (hq : quote ≠ '\\')
    {body : List Char} (hbody : Pieces quote stops body) (hstarts : body ++ [quote] <+: rest) :
    enclosed quote stops rest = (body, true) := by
  obtain ⟨more, rfl⟩ := hstarts
  rw [List.append_assoc, hbody.enclosed_append, List.singleton_append, enclosed_quote hq,
    List.append_nil]

/-- A closed literal is the longest lexeme; an open one is none. -/
theorem fits_quoted (quote : Char) (stops : Char → Bool) (hq : quote ≠ '\\')
    (hgoes : ∀ longer, GoesOn quote longer →
      ∃ body, longer = body ++ [quote] ∧ Pieces quote stops body)
    {lexeme : Lexeme}
    (hclosed : ∀ body, Pieces quote stops body → enclosed quote stops rest = (body, true) →
      lexeme.extra = body.length + 1 ∧ Takes (quote :: body ++ [quote]) lexeme.reading)
    (hopen : (enclosed quote stops rest).2 = false →
      lexeme.reading = .fault (noLexeme quote)) :
    Fits (quote :: rest) lexeme := by
  obtain ⟨hpieces, tail, htext, hend⟩ : Pieces quote stops _ ∧ _ := enclosed_spec rest
  cases hflag : (enclosed quote stops rest).2 with
  | true =>
    rw [hflag] at hend
    cases hend with
    | quote more =>
      generalize hbody : (enclosed quote stops rest).1 = body at hpieces htext
      obtain ⟨hextra, htakes⟩ := hclosed body hpieces (Prod.ext hbody hflag)
      left
      refine ⟨quote :: (body ++ [quote]), more, ?_, ?_, htakes, ?_⟩
      · rw [htext]
        simp
      · simp [hextra]
      · apply isLongest_cons
        intro longer hstarts hlonger
        obtain ⟨other, rfl, hother⟩ := hgoes longer hlonger
        have hrest : body ++ [quote] ++ more = rest := by
          rw [htext]
          simp
        rw [hrest] at hstarts
        have hsame := enclosed_eq_of_starts hq hother hstarts
        rw [← hbody, hsame]
  | false =>
    right
    refine ⟨?_, quote, rfl, hopen hflag⟩
    intro taken htaken
    refine notMem_lexical_of_not_goesOn ?_ htaken
    intro longer hstarts hlonger
    obtain ⟨body, rfl, hbody⟩ := hgoes longer hlonger
    rw [enclosed_eq_of_starts hq hbody hstarts] at hflag
    cases hflag

theorem fits_text : Fits ('"' :: rest) (textLiteral rest) := by
  apply fits_quoted '"' (fun _ => false) (by decide) (fun longer h => h)
  · intro body hpieces henclosed
    have hmem : '"' :: body ++ ['"'] ∈ quotedText := mem_quotedText.2 ⟨body, rfl, hpieces⟩
    rw [textLiteral, henclosed]
    dsimp only
    rw [if_pos rfl]
    rcases unescape_cases hpieces with ⟨chars, hchars, hd⟩ | ⟨letter, hletter, hbad⟩
    · rw [hchars]
      exact ⟨rfl, .text hmem hd⟩
    · rw [hletter]
      exact ⟨rfl, .textEscape hmem hbad⟩
  · intro hopen
    rw [textLiteral]
    dsimp only
    rw [hopen]
    rfl

theorem fits_char : Fits ('\'' :: rest) (charLiteral rest) := by
  apply fits_quoted '\'' (fun c => c = '\n') (by decide) (fun longer h => h)
  · intro body hpieces henclosed
    have hmem : '\'' :: body ++ ['\''] ∈ quotedChar := mem_quotedChar.2 ⟨body, rfl, hpieces⟩
    rw [charLiteral, henclosed]
    dsimp only
    rw [if_pos rfl]
    rcases unescape_cases hpieces with ⟨chars, hchars, hd⟩ | ⟨letter, hletter, hbad⟩
    · rw [hchars]
      cases chars with
      | nil =>
        cases hd
        exact ⟨rfl, .emptyChar hmem⟩
      | cons c more =>
        cases more with
        | nil => exact ⟨rfl, .char hmem hd⟩
        | cons d more => exact ⟨rfl, .severalChars hmem hd⟩
    · rw [hletter]
      exact ⟨rfl, .charEscape hmem hbad⟩
  · intro hopen
    rw [charLiteral]
    dsimp only
    rw [hopen]
    rfl

theorem ofSign?_mem {t : Token} (h : Token.ofSign? c = some t) :
    (String.ofList [c], t) ∈ signs := by
  rw [Token.ofSign?.eq_def] at h
  split at h <;> cases h <;> decide

theorem fits_single (hk : kind c = .sign) (hrest : rest.head? = some '=' → c ≠ '<' ∧ c ≠ '>') :
    Fits (c :: rest) (single c) := by
  rw [single]
  cases hsign : Token.ofSign? c with
  | some t =>
    left
    refine ⟨[c], rest, rfl, rfl, .reserved ?_, ?_⟩
    · exact List.mem_append_right _ (ofSign?_mem hsign)
    · apply isLongest_cons
      intro longer hstarts hgoes
      rw [GoesOn, hk] at hgoes
      rcases hgoes.2 with rfl | ⟨rfl, hc⟩
      · exact Nat.le_refl 0
      · obtain ⟨more, hmore⟩ := hstarts
        have hhead : rest.head? = some '=' := by
          rw [← List.nil_append rest, ← hmore]
          rfl
        obtain ⟨hlt, hgt⟩ := hrest hhead
        exact absurd hc (not_or.2 ⟨hlt, hgt⟩)
  | none =>
    right
    refine ⟨?_, c, rfl, ?_⟩
    · intro taken htaken
      refine notMem_lexical_of_not_goesOn ?_ htaken
      intro longer _ hgoes
      rw [GoesOn, hk, hsign] at hgoes
      cases hgoes.1
    · have hquote : c ≠ '"' ∧ c ≠ '\'' := by constructor <;> (rintro rfl; cases hk)
      rw [noLexeme, if_neg hquote.1, if_neg hquote.2]

/-- Two signs that form one operator. -/
theorem fits_double (hc : c = '<' ∨ c = '>') (more : List Char) :
    Fits (c :: '=' :: more) (sign c ('=' :: more)) := by
  left
  refine ⟨[c, '='], more, rfl, ?_, ?_, ?_⟩
  · rcases hc with rfl | rfl <;> rfl
  · rcases hc with rfl | rfl
    · exact .reserved (t := .operator .lessOrEqual) (by decide)
    · exact .reserved (t := .operator .greaterOrEqual) (by decide)
  · apply isLongest_cons
    intro longer _ hgoes
    have hk : kind c = .sign := by rcases hc with rfl | rfl <;> rfl
    rw [GoesOn, hk] at hgoes
    rcases hgoes.2 with rfl | ⟨rfl, -⟩
    · exact Nat.zero_le _
    · exact Nat.le_refl 1

theorem fits_sign (hk : kind c = .sign) : Fits (c :: rest) (sign c rest) := by
  by_cases hhead : rest.head? = some '='
  · obtain ⟨more, rfl⟩ := List.head?_eq_some_iff.1 hhead
    by_cases hc : c = '<' ∨ c = '>'
    · exact fits_double hc more
    · obtain ⟨hlt, hgt⟩ := not_or.1 hc
      rw [sign_of_ne hlt hgt]
      exact fits_single hk fun _ => ⟨hlt, hgt⟩
  · rw [sign_of_head?_ne hhead]
    exact fits_single hk fun h => absurd h hhead

/-- Scanning finds the longest lexeme, if there is one. -/
theorem scan_fits (c : Char) (rest : List Char) : Fits (c :: rest) (scan c rest) := by
  rw [scan]
  split_ifs with hgap hcomment hdigit hword htext hchar
  · exact fits_gap hgap
  · subst hcomment
    exact fits_comment
  · exact fits_number hdigit
  · exact fits_word hword
  · subst htext
    exact fits_text
  · subst hchar
    exact fits_char
  · apply fits_sign
    simp [kind, hgap, hcomment, hdigit, hword, htext, hchar]

/-- A comment that is the longest lexeme goes on up to the end of its line. -/
theorem comment_ends {text more : List Char} (h : text ∈ comment) (hl : IsLongest text more) :
    more = [] ∨ more.head? = some '\n' := by
  cases more with
  | nil => exact Or.inl rfl
  | cons d more =>
    right
    by_contra hd
    have hd : d ≠ '\n' := fun heq => hd (congrArg some heq)
    obtain ⟨c, rest, rfl, hc, hrest⟩ := mem_one_mul.1 h
    have hlonger : c :: (rest ++ [d]) ∈ comment :=
      cons_mem_one_mul.2 ⟨hc, mem_kstar_one.2 (List.forall_mem_append.2
        ⟨mem_kstar_one.1 hrest, List.forall_mem_singleton.2 (decide_eq_true hd)⟩)⟩
    have hlength := hl (c :: (rest ++ [d])) ⟨more, by simp⟩
      (Or.inl (Or.inl (Or.inl (Or.inl (Or.inl (Or.inl (Or.inr hlonger)))))))
    simp only [List.length_cons, List.length_append, List.length_nil] at hlength
    omega

theorem mem_lexical_of_takes {text : List Char} {reading : Reading} (h : Takes text reading) :
    text ∈ lexical := by
  cases h with
  | gap h => simp only [lexical, Language.mem_add, h, true_or]
  | comment h => simp only [lexical, Language.mem_add, h, true_or, or_true]
  | reserved h =>
    have hmem : text ∈ reservedText := by
      change String.ofList text ∈ reserved.map Prod.fst
      exact List.mem_map_of_mem h
    simp only [lexical, Language.mem_add, hmem, true_or, or_true]
  | identifier h _ => simp only [lexical, Language.mem_add, h, true_or, or_true]
  | int h _ => simp only [lexical, Language.mem_add, h, true_or, or_true]
  | intOverflow h _ => simp only [lexical, Language.mem_add, h, true_or, or_true]
  | float h _ => simp only [lexical, Language.mem_add, h, true_or, or_true]
  | text h _ => simp only [lexical, Language.mem_add, h, or_true]
  | textEscape h _ => simp only [lexical, Language.mem_add, h, or_true]
  | char h _ => simp only [lexical, Language.mem_add, h, true_or, or_true]
  | charEscape h _ => simp only [lexical, Language.mem_add, h, true_or, or_true]
  | emptyChar h => simp only [lexical, Language.mem_add, h, true_or, or_true]
  | severalChars h _ => simp only [lexical, Language.mem_add, h, true_or, or_true]

theorem ne_nil_of_takes {text : List Char} {reading : Reading} (h : Takes text reading) :
    text ≠ [] := by
  rintro rfl
  exact nil_notMem_lexical (mem_lexical_of_takes h)

/-- A reserved text is no identifier. -/
theorem notMem_reserved_of_takes {text : List Char} {name : String}
    (h : Takes text (.token (.identifier name))) : name ∉ reserved.map Prod.fst := by
  cases h with
  | identifier _ hr => exact hr
  | reserved hmem =>
    have hall : ∀ entry ∈ reserved, ∀ name, entry.2 ≠ .identifier name := by
      simp [reserved, reservedWords, signs]
    exact absurd rfl (hall _ hmem name)

end Lexeme
end Song
