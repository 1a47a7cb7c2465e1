import Mathlib.Data.List.TakeWhile
import Song.Proofs.Grammar.Extension

/-!
# Line ends without meaning

A line end says nothing after an opening bracket, a separator or an infix operator, before a
closing bracket or the end of a block, and next to another line end. Tokens with more line ends in
such places are read as the same expression: every rule that comes to such a place passes over the
line ends, or stops there as it did before.
-/
namespace Song

namespace Token

/-- Whether a line end right after the token says nothing. -/
def leadsOn : Token → Bool
  | leftParen | leftBracket | comma | bar | equals | whenWord | doWord | newline => true
  | _ => false

/-- Whether a line end right before the token says nothing. -/
def trails : Token → Bool
  | rightParen | rightBracket | endWord | newline => true
  | _ => false

def completes : Token → Bool
  | bool _ | int _ | float _ | char _ | text _ | identifier _ | underscore
  | rightParen | rightBracket | endWord => true
  | _ => false

end Token

namespace Grammar

variable {α β σ : Type}

/-- What the tokens before a place say about a line end there. -/
inductive Margin where
  /-- It says nothing. -/
  | free
  /-- An operand has come to its end. -/
  | operand
  /-- It separates what belongs together. -/
  | tight
deriving DecidableEq

/-- What is known after one more token; an operator after an operand waits for the next one. -/
def Margin.after (margin : Margin) (t : Token) : Margin :=
  if t.leadsOn || (t.isInfix && margin = .operand) then .free
  else if t.completes then .operand
  else .tight

theorem Margin.after_of_leadsOn {t : Token} (h : t.leadsOn = true) (margin : Margin) :
    margin.after t = .free := by
  rw [after, h, Bool.true_or, if_pos rfl]

theorem Margin.after_completes {t : Token} (h : t.completes = true) (margin : Margin) :
    margin.after t = .operand := by
  cases t with
  | bool | int | float | char | text | identifier | underscore | rightParen | rightBracket
  | endWord => rfl
  | _ => cases h

/-- An operator that does not stand after an operand belongs to what comes next. -/
theorem Margin.after_operator {margin : Margin} (h : margin ≠ .operand) (o : Operator) :
    margin.after (.operator o) = .tight := by
  rw [after, decide_eq_false h, Bool.and_false]
  rfl

/-- The second tokens are the first ones, in any places, with line ends added where they say
nothing and with `more` after them. -/
inductive Spaced (more : Tokens) : Margin → Tokens → Tokens → Prop
  | done (margin : Margin) : Spaced more margin [] more
  | next {margin : Margin} {t t' : Located} {tokens spaced : Tokens} (ht : t'.token = t.token)
    (h : Spaced more (margin.after t.token) tokens spaced) :
    Spaced more margin (t :: tokens) (t' :: spaced)
  | line {margin : Margin} {line : Located} {tokens spaced : Tokens}
    (hline : line.token = .newline) (hplace : margin = .free ∨ Follows Token.trails tokens)
    (h : Spaced more margin tokens spaced) : Spaced more margin tokens (line :: spaced)

abbrev Solid (tokens : Tokens) : Prop :=
  Follows (· ≠ .newline) tokens

/-- Before an expression: no operand has just ended, and no line end comes next. -/
def Enters (more tokens spaced : Tokens) : Prop :=
  ∃ margin, margin ≠ .operand ∧ Spaced more margin tokens spaced ∧ Solid spaced

abbrev Exits (more tokens spaced : Tokens) : Prop :=
  Spaced more .operand tokens spaced

namespace Spaced

variable {more tokens spaced rest : Tokens} {margin : Margin} {t : Located} {w : Token}

theorem uncons (h : Spaced more margin (t :: tokens) spaced) (hs : Solid spaced) :
    ∃ t' rest', spaced = t' :: rest' ∧ t'.token = t.token ∧
      Spaced more (margin.after t.token) tokens rest' := by
  cases h with
  | next ht h => exact ⟨_, _, rfl, ht, h⟩
  | @line _ line _ spaced hline =>
    have hne := hs line rfl
    simp [hline] at hne

/-- A line end is added only where it says nothing. -/
theorem solid (h : Spaced more margin tokens spaced) (hm : margin ≠ .free)
    (ht : ¬Follows Token.trails tokens) : Solid spaced := by
  cases h with
  | done => exact absurd .nil ht
  | @next _ t t' tokens spaced ht' =>
    intro next hnext
    cases hnext
    rw [ht', decide_eq_true_eq]
    intro hline
    apply ht
    intro next hnext
    cases hnext
    rw [hline]
    rfl
  | line _ hplace => exact absurd (hplace.resolve_left hm) ht

theorem solid_cons (h : Spaced more margin (t :: tokens) spaced) (hm : margin ≠ .free)
    (ht : t.token.trails = false) : Solid spaced := by
  apply h.solid hm
  intro htrails
  rw [htrails t rfl] at ht
  cases ht

theorem eat? (h : Spaced more margin tokens spaced) (hs : Solid spaced)
    (heat : Grammar.eat? w tokens = some rest) :
    ∃ rest', Grammar.eat? w spaced = some rest' ∧ Spaced more (margin.after w) rest rest' := by
  obtain ⟨next, rfl, rfl⟩ := eat?_eq_some heat
  obtain ⟨t', rest', rfl, ht, hrest⟩ := h.uncons hs
  exact ⟨rest', by rw [Grammar.eat?, if_pos ht], hrest⟩

/-- A token that no line end can be added before. -/
theorem eat?_tight (h : Spaced more margin tokens spaced) (hm : margin ≠ .free)
    (hw : w.trails = false) (heat : Grammar.eat? w tokens = some rest) :
    ∃ rest', Grammar.eat? w spaced = some rest' ∧ Spaced more (margin.after w) rest rest' := by
  obtain ⟨next, rfl, rfl⟩ := eat?_eq_some heat
  exact h.eat? (h.solid_cons hm hw) heat

/-- A token that does not come next does not come next after a line end either. -/
theorem eat?_none (hmore : Follows (· = .rightParen) more) (h : Spaced more margin tokens spaced)
    (hline : w ≠ .newline) (hparen : w ≠ .rightParen) (heat : Grammar.eat? w tokens = none) :
    Grammar.eat? w spaced = none := by
  cases h with
  | done => exact hmore.eat?_eq_none (by simpa using hparen)
  | next ht =>
    rw [Grammar.eat?] at heat ⊢
    split at heat
    · cases heat
    case isFalse hne => rw [ht, if_neg hne]
  | line hl => rw [Grammar.eat?, hl, if_neg hline.symm]

/-- Where both have a token next it is the same one. -/
theorem eat?_cons_none (h : Spaced more margin (t :: tokens) spaced) (hs : Solid spaced)
    (heat : Grammar.eat? w (t :: tokens) = none) : Grammar.eat? w spaced = none := by
  obtain ⟨t', rest', rfl, ht, -⟩ := h.uncons hs
  rw [Grammar.eat?] at heat ⊢
  rw [ht]
  split at heat
  · cases heat
  case isFalse hne => rw [if_neg hne]

/-- Passing over separators brings both to the same token. -/
theorem dropWhile (hmore : Follows (· = .rightParen) more) {p : Token → Bool}
    (hnewline : p .newline = true) (hparen : p .rightParen = false)
    (hleads : ∀ t, p t = true → t.leadsOn = true) (h : Spaced more margin tokens spaced) :
    ∃ margin', (margin' = .free ∨ margin' = margin ∧
        tokens.dropWhile (fun next => p next.token) = tokens) ∧
      Spaced more margin' (tokens.dropWhile fun next => p next.token)
        (spaced.dropWhile fun next => p next.token) := by
  induction h with
  | done margin =>
    refine ⟨margin, Or.inr ⟨rfl, rfl⟩, ?_⟩
    cases more with
    | nil => exact .done margin
    | cons close rest =>
      have hclose : close.token = .rightParen := by simpa using hmore close rfl
      rw [List.dropWhile_cons_of_neg (by rw [hclose, hparen]; exact Bool.false_ne_true)]
      exact .done margin
  | @next margin t t' tokens spaced ht h ih =>
    cases hp : p t.token with
    | true =>
      obtain ⟨margin', hmargin, hrest⟩ := ih
      refine ⟨margin', Or.inl ?_, ?_⟩
      · rcases hmargin with hmargin | ⟨hmargin, -⟩
        · exact hmargin
        · rw [hmargin, Margin.after_of_leadsOn (hleads _ hp)]
      · rw [List.dropWhile_cons, List.dropWhile_cons, ht, hp, if_pos rfl, if_pos rfl]
        exact hrest
    | false =>
      rw [List.dropWhile_cons, List.dropWhile_cons, ht, hp, if_neg Bool.false_ne_true,
        if_neg Bool.false_ne_true]
      exact ⟨margin, Or.inr ⟨rfl, rfl⟩, .next ht h⟩
  | line hl _ _ ih =>
    obtain ⟨margin', hmargin, hrest⟩ := ih
    refine ⟨margin', hmargin, ?_⟩
    rw [List.dropWhile_cons_of_pos (by rw [hl, hnewline])]
    exact hrest

theorem skip (hmore : Follows (· = .rightParen) more) (h : Spaced more margin tokens spaced) :
    ∃ margin', (margin' = .free ∨ margin' = margin ∧ skipNewlines tokens = tokens) ∧
      Spaced more margin' (skipNewlines tokens) (skipNewlines spaced) :=
  h.dropWhile hmore (p := fun t => t = .newline) rfl rfl fun t ht => by
    rw [of_decide_eq_true ht]
    rfl

end Spaced

theorem solid_dropWhile {p : Token → Bool} (hp : p .newline = true) (tokens : Tokens) :
    Solid (tokens.dropWhile fun next => p next.token) := by
  intro next hnext
  have h := List.head?_dropWhile_not (fun next : Located => p next.token) tokens
  rw [hnext] at h
  dsimp only at h
  rw [decide_eq_true_eq]
  intro hline
  rw [hline, hp] at h
  cases h

theorem solid_skipNewlines (tokens : Tokens) : Solid (skipNewlines tokens) :=
  solid_dropWhile (p := fun t => t = .newline) rfl tokens

section Skip

variable {more tokens spaced : Tokens} (hmore : Follows (· = .rightParen) more)

include hmore

/-- Where a line end says nothing an expression comes next once they are passed over. -/
theorem Spaced.enters (h : Spaced more .free tokens spaced) :
    Enters more (skipNewlines tokens) (skipNewlines spaced) := by
  obtain ⟨margin, hmargin, hskip⟩ := h.skip hmore
  have hfree : margin = .free := hmargin.elim id And.left
  exact ⟨margin, hfree ▸ by decide, hskip, solid_skipNewlines spaced⟩

end Skip

/-- The second result is the first one, if that is not a fault, and so is what is left over. -/
def Agrees (after : α → Tokens → Tokens → Prop) (first second : Except Stop (α × Tokens)) : Prop :=
  ∀ value rest, first = .ok (value, rest) →
    ∃ rest', second = .ok (value, rest') ∧ after value rest rest'

namespace Agrees

variable {after : α → Tokens → Tokens → Prop}

theorem ok {value : α} {rest rest' : Tokens} (h : after value rest rest') :
    Agrees after (.ok (value, rest)) (.ok (value, rest')) := by
  intro v r hr
  cases hr
  exact ⟨rest', rfl, h⟩

theorem error (stop : Stop) (second : Except Stop (α × Tokens)) :
    Agrees after (.error stop) second := by
  intro v r hr
  cases hr

theorem of_waits {first : Except Stop (α × Tokens)} (h : Waits first)
    (second : Except Stop (α × Tokens)) : Agrees after first second := by
  obtain ⟨stop, rfl, -⟩ := h
  exact error stop second

theorem bind {before : β → Tokens → Tokens → Prop} {first first' : Except Stop (β × Tokens)}
    {next next' : β × Tokens → Except Stop (α × Tokens)} (h : Agrees before first first')
    (hn : ∀ value rest rest', before value rest rest' →
      Agrees after (next (value, rest)) (next' (value, rest'))) :
    Agrees after (first >>= next) (first' >>= next') := by
  cases first with
  | error stop => exact error stop _
  | ok pair =>
    obtain ⟨value, rest⟩ := pair
    obtain ⟨rest', rfl, hrest⟩ := h value rest rfl
    exact hn value rest rest' hrest

theorem bind_expect {w : Token} {tokens spaced : Tokens}
    {next next' : Tokens → Except Stop (α × Tokens)}
    (h : ∀ rest, eat? w tokens = some rest →
      ∃ rest', eat? w spaced = some rest' ∧ Agrees after (next rest) (next' rest')) :
    Agrees after (expect w tokens >>= next) (expect w spaced >>= next') := by
  rw [expect]
  cases heat : eat? w tokens with
  | none => exact error _ _
  | some rest =>
    obtain ⟨rest', heat', hrest⟩ := h rest heat
    rw [expect, heat']
    exact hrest

end Agrees

/-- What ends with a closing bracket. -/
theorem close_agrees {after : α → Tokens → Tokens → Prop} {more tokens spaced : Tokens}
    {margin : Margin} (hs : Spaced more margin tokens spaced) (hsolid : Solid spaced) {w : Token}
    (hw : w.completes = true) {value : α}
    (hafter : ∀ rest rest', Exits more rest rest' → after value rest rest') :
    Agrees after (expect w tokens >>= fun rest => .ok (value, rest))
      (expect w spaced >>= fun rest => .ok (value, rest)) := by
  apply Agrees.bind_expect
  intro rest hrest
  obtain ⟨rest', hrest', hexit⟩ := hs.eat? hsolid hrest
  rw [Margin.after_completes hw] at hexit
  exact ⟨rest', hrest', .ok (hafter rest rest' hexit)⟩

/-- What a round leaves: the tokens of the next round, or those after the repetition. -/
def Round.Relates (before after : Tokens → Tokens → Prop) : Round σ β → Tokens → Tokens → Prop
  | again _ => before
  | done _ => after

/-- A repetition agrees if its rounds do. -/
theorem iterate_agrees {before after : Tokens → Tokens → Prop}
    {round round' : σ → Reader (Round σ β)} (hround' : RoundAdvances round')
    (h : ∀ state tokens spaced, before tokens spaced →
      Agrees (Round.Relates before after) (round state tokens) (round' state spaced))
    (state : σ) {tokens spaced : Tokens} (hb : before tokens spaced) :
    Agrees (fun _ => after) (iterate round state tokens) (iterate round' state spaced) := by
  rw [iterate]
  generalize tokens.length + 1 = bound
  induction bound generalizing state tokens spaced with
  | zero => exact .error _ _
  | succ bound ih =>
    rw [repeatAtMost, iterate_eq hround']
    cases hread : round state tokens with
    | error stop => exact .error _ _
    | ok pair =>
      obtain ⟨read, rest⟩ := pair
      obtain ⟨rest', hread', hrest⟩ := h state tokens spaced hb read rest hread
      rw [hread']
      cases read with
      | again later => exact ih later hrest
      | done result => exact .ok hrest

/-! ### The rules -/

section Rules

variable {more : Tokens} (hmore : Follows (· = .rightParen) more) {expr expr' : Reader Expr}
  (hexpr : expr.Advances) (hexpr' : expr'.Advances)
  (h : ∀ tokens spaced, Enters more tokens spaced →
    Agrees (fun _ => Exits more) (expr tokens) (expr' spaced))

include hmore h

/-- An expression after tokens that lead on. -/
theorem skipped_agrees {tokens spaced : Tokens} (hs : Spaced more .free tokens spaced) :
    Agrees (fun _ => Exits more) (expr (skipNewlines tokens)) (expr' (skipNewlines spaced)) :=
  h _ _ (hs.enters hmore)

theorem item_agrees (items : List Expr) (tokens spaced : Tokens) (hs : Enters more tokens spaced) :
    Agrees (Round.Relates (Enters more) (Exits more)) (item expr .rightParen items tokens)
      (item expr' .rightParen items spaced) := by
  apply (h tokens spaced hs).bind
  intro e rest rest' hrest
  obtain ⟨margin, -, hskip⟩ := hrest.skip hmore
  have hsolid := solid_skipNewlines rest'
  dsimp only
  cases hcomma : eat? .comma (skipNewlines rest) with
  | some later =>
    obtain ⟨later', hcomma', hlater⟩ := hskip.eat? hsolid hcomma
    rw [hcomma']
    exact .ok (hlater.enters hmore)
  | none =>
    rw [hskip.eat?_none hmore (by decide) (by decide) hcomma]
    exact close_agrees hskip hsolid rfl fun _ _ hexit => hexit

include hexpr hexpr'

theorem arguments_agrees {tokens spaced : Tokens} (hs : Spaced more .free tokens spaced) :
    Agrees (fun _ => Exits more) (arguments expr tokens) (arguments expr' spaced) := by
  have hround := RoundAdvances.of_advances (item_advances hexpr' .rightParen)
  have henters := hs.enters hmore
  rw [arguments, items, arguments, items]
  cases hclose : eat? .rightParen (skipNewlines tokens) with
  | some rest =>
    obtain ⟨margin, -, hskip, hsolid⟩ := henters
    obtain ⟨rest', hclose', hrest⟩ := hskip.eat? hsolid hclose
    rw [hclose']
    exact .ok hrest
  | none =>
    -- a parenthesis that comes after the tokens is not taken for their own
    cases hskip : skipNewlines tokens with
    | nil => exact .of_waits (iterate_advances (item_advances hexpr .rightParen) []).waits _
    | cons next rest =>
      rw [hskip] at henters hclose
      obtain ⟨margin, hmargin, hspaced, hsolid⟩ := henters
      rw [hspaced.eat?_cons_none hsolid hclose]
      exact iterate_agrees hround (item_agrees hmore h) [] ⟨margin, hmargin, hspaced, hsolid⟩

omit hexpr hexpr' in
theorem listItem_agrees (heads : List Expr) (tokens spaced : Tokens)
    (hs : Enters more tokens spaced) :
    Agrees (Round.Relates (Enters more) (Exits more)) (listItem expr heads tokens)
      (listItem expr' heads spaced) := by
  apply (h tokens spaced hs).bind
  intro e rest rest' hrest
  obtain ⟨margin, -, hskip⟩ := hrest.skip hmore
  have hsolid := solid_skipNewlines rest'
  dsimp only
  cases hbar : eat? .bar (skipNewlines rest) with
  | some later =>
    obtain ⟨later', hbar', hlater⟩ := hskip.eat? hsolid hbar
    rw [hbar']
    apply (skipped_agrees hmore h hlater).bind
    intro tail last last' hlast
    obtain ⟨margin, -, hclose⟩ := hlast.skip hmore
    apply close_agrees hclose (solid_skipNewlines last') rfl
    intro _ _ hexit
    exact hexit
  | none =>
    rw [hskip.eat?_none hmore (by decide) (by decide) hbar]
    dsimp only
    cases hcomma : eat? .comma (skipNewlines rest) with
    | some later =>
      obtain ⟨later', hcomma', hlater⟩ := hskip.eat? hsolid hcomma
      rw [hcomma']
      exact .ok (hlater.enters hmore)
    | none =>
      rw [hskip.eat?_none hmore (by decide) (by decide) hcomma]
      exact close_agrees hskip hsolid rfl fun _ _ hexit => hexit

omit hexpr in
theorem listLiteral_agrees {tokens spaced : Tokens} (hs : Spaced more .free tokens spaced) :
    Agrees (fun _ => Exits more) (listLiteral expr tokens) (listLiteral expr' spaced) := by
  have hround := RoundAdvances.of_advances (listItem_advances hexpr')
  obtain ⟨margin, hmargin, hskip, hsolid⟩ := hs.enters hmore
  rw [listLiteral, listLiteral]
  cases hclose : eat? .rightBracket (skipNewlines tokens) with
  | some rest =>
    obtain ⟨rest', hclose', hrest⟩ := hskip.eat? hsolid hclose
    rw [hclose']
    exact .ok hrest
  | none =>
    rw [hskip.eat?_none hmore (by decide) (by decide) hclose]
    exact iterate_agrees hround (listItem_agrees hmore h) [] ⟨margin, hmargin, hskip, hsolid⟩

omit hexpr hexpr' in
theorem parenthesized_agrees {tokens spaced : Tokens} (hs : Spaced more .free tokens spaced) :
    Agrees (fun _ => Exits more) (parenthesized expr tokens) (parenthesized expr' spaced) := by
  apply (skipped_agrees hmore h hs).bind
  intro e rest rest' hrest
  obtain ⟨margin, -, hskip⟩ := hrest.skip hmore
  exact close_agrees hskip (solid_skipNewlines rest') rfl fun _ _ hexit => hexit

omit hexpr hexpr' in
theorem guard?_agrees {tokens spaced : Tokens} (hs : Exits more tokens spaced) :
    Agrees (fun _ => Exits more) (guard? expr tokens) (guard? expr' spaced) := by
  rw [guard?, guard?]
  cases hwhen : eat? .whenWord tokens with
  | some rest =>
    obtain ⟨rest', hwhen', hrest⟩ := hs.eat?_tight (by decide) rfl hwhen
    rw [hwhen']
    apply (skipped_agrees hmore h hrest).bind
    intro e final final' hfinal
    exact .ok hfinal
  | none =>
    rw [hs.eat?_none hmore (by decide) (by decide) hwhen]
    exact .ok hs

omit hmore h hexpr hexpr' in
/-- Whether expressions are patterns does not depend on their place. -/
theorem requirePatterns_agrees {after : α → Tokens → Tokens → Prop} {start start' : Option Span}
    {patterns : List Expr} {next next' : Unit → Except Stop (α × Tokens)}
    (hn : Agrees after (next ()) (next' ())) :
    Agrees after (requirePatterns start patterns >>= next)
      (requirePatterns start' patterns >>= next') := by
  rw [requirePatterns, requirePatterns]
  cases Expr.nonPatternAmong? patterns with
  | none => exact hn
  | some part => exact .error _ _

theorem lambda_agrees {tokens spaced : Tokens} (hs : Spaced more .tight tokens spaced) :
    Agrees (fun _ => Exits more) (lambda expr tokens) (lambda expr' spaced) := by
  apply Agrees.bind_expect
  intro opened hopened
  obtain ⟨opened', hopened', hspaced⟩ := hs.eat?_tight (by decide) rfl hopened
  refine ⟨opened', hopened', ?_⟩
  apply (arguments_agrees hmore hexpr hexpr' h hspaced).bind
  intro patterns rest rest' hrest
  apply requirePatterns_agrees
  apply (guard?_agrees hmore h hrest).bind
  intro guard guarded guarded' hguarded
  apply Agrees.bind_expect
  intro equals hequals
  obtain ⟨equals', hequals', hbody⟩ := hguarded.eat?_tight (by decide) rfl hequals
  refine ⟨equals', hequals', ?_⟩
  apply (skipped_agrees hmore h hbody).bind
  intro body final final' hfinal
  exact .ok hfinal

omit hexpr hexpr' in
theorem statement_agrees {tokens spaced : Tokens} (hs : Enters more tokens spaced) :
    Agrees (fun _ => Exits more) (statement expr tokens) (statement expr' spaced) := by
  apply (h tokens spaced hs).bind
  intro target rest rest' hrest
  apply (guard?_agrees hmore h hrest).bind
  intro guard guarded guarded' hguarded
  dsimp only
  cases hequals : eat? .equals guarded with
  | some equals =>
    obtain ⟨equals', hequals', hvalue⟩ := hguarded.eat?_tight (by decide) rfl hequals
    rw [hequals']
    apply (skipped_agrees hmore h hvalue).bind
    intro value final final' hfinal
    dsimp only
    rw [declaration_eq, declaration_eq]
    cases targetFault? target guard.isSome with
    | some fault => exact .error _ _
    | none => exact .ok hfinal
  | none =>
    rw [hguarded.eat?_none hmore (by decide) (by decide) hequals]
    dsimp only
    split
    · exact .error _ _
    · exact .ok hguarded

omit hmore h hexpr hexpr' in
/-- A separator comes next in both. -/
theorem Spaced.separator {margin : Margin} {tokens spaced : Tokens}
    (hs : Spaced more margin tokens spaced)
    (hseparator : (tokens.head?.map isSeparator).getD false = true) :
    (spaced.head?.map isSeparator).getD false = true := by
  cases hs with
  | done => cases hseparator
  | next ht =>
    simp only [List.head?_cons, Option.map_some, Option.getD_some, isSeparator] at hseparator ⊢
    rw [ht]
    exact hseparator
  | line hline =>
    simp only [List.head?_cons, Option.map_some, Option.getD_some, isSeparator, hline]
    rfl

omit h hexpr hexpr' in
/-- Passing over the separators of a block. -/
theorem Spaced.dropSeparators {margin : Margin} {tokens spaced : Tokens}
    (hs : Spaced more margin tokens spaced) :
    ∃ margin', (margin' = .free ∨ margin' = margin ∧ tokens.dropWhile isSeparator = tokens) ∧
      Spaced more margin' (tokens.dropWhile isSeparator) (spaced.dropWhile isSeparator) ∧
      Solid (spaced.dropWhile isSeparator) := by
  have hleads (t : Token) (ht : (decide (t = .newline) || decide (t = .comma)) = true) :
      t.leadsOn = true := by
    rw [Bool.or_eq_true, decide_eq_true_eq, decide_eq_true_eq] at ht
    rcases ht with rfl | rfl <;> rfl
  obtain ⟨margin', hmargin, hdrop⟩ := hs.dropWhile hmore rfl rfl hleads
  exact ⟨margin', hmargin, hdrop, solid_dropWhile (p := fun t => t = .newline || t = .comma) rfl _⟩

omit hexpr hexpr' in
theorem blockStatement_agrees (statements : List Expr) (tokens spaced : Tokens)
    (hs : Enters more tokens spaced) :
    Agrees (Round.Relates (Enters more) (Exits more)) (blockStatement expr statements tokens)
      (blockStatement expr' statements spaced) := by
  have hstatement := statement_agrees hmore h hs
  obtain ⟨margin, -, hspaced, hsolid⟩ := hs
  rw [blockStatement, blockStatement]
  cases hend : eat? .endWord tokens with
  | some rest =>
    obtain ⟨rest', hend', hrest⟩ := hspaced.eat? hsolid hend
    rw [hend']
    exact .ok hrest
  | none =>
    rw [hspaced.eat?_none hmore (by decide) (by decide) hend]
    apply hstatement.bind
    intro s rest rest' hrest
    obtain ⟨margin', hmargin, hdrop, hsolid⟩ := hrest.dropSeparators hmore
    dsimp only
    cases hend : eat? .endWord (rest.dropWhile isSeparator) with
    | some final =>
      obtain ⟨final', hend', hfinal⟩ := hdrop.eat? hsolid hend
      rw [hend']
      exact .ok hfinal
    | none =>
      rw [hdrop.eat?_none hmore (by decide) (by decide) hend]
      dsimp only
      split
      case isFalse => exact .error _ _
      case isTrue hseparator =>
        rw [if_pos (hrest.separator hseparator)]
        apply Agrees.ok
        refine ⟨margin', ?_, hdrop, hsolid⟩
        rcases hmargin with rfl | ⟨-, hkept⟩
        · decide
        · -- a separator was passed over
          cases rest with
          | nil => cases hseparator
          | cons next rest =>
            have hnot := List.dropWhile_eq_self_iff.1 hkept (Nat.zero_lt_succ _)
            exact absurd hseparator hnot

omit hexpr in
theorem block_agrees {tokens spaced : Tokens} (hs : Spaced more .free tokens spaced) :
    Agrees (fun _ => Exits more) (block expr tokens) (block expr' spaced) :=
  iterate_agrees (.of_advances (blockStatement_advances hexpr')) (blockStatement_agrees hmore h) []
    (hs.enters hmore)

theorem primary_agrees {tokens spaced : Tokens} (hs : Enters more tokens spaced) :
    Agrees (fun _ => Exits more) (primary expr tokens) (primary expr' spaced) := by
  obtain ⟨margin, hmargin, hspaced, hsolid⟩ := hs
  cases tokens with
  | nil => exact .error _ _
  | cons next rest =>
    obtain ⟨⟨t', span'⟩, rest', rfl, rfl, hrest⟩ := hspaced.uncons hsolid
    obtain ⟨t, span⟩ := next
    have hcall (callee : String) {later later' : Tokens}
        (hlater : Spaced more .free later later') :
        Agrees (fun _ => Exits more)
          (arguments expr later >>= fun read => .ok (Expr.call callee read.1, read.2))
          (arguments expr' later' >>= fun read => .ok (Expr.call callee read.1, read.2)) :=
      (arguments_agrees hmore hexpr hexpr' h hlater).bind fun args final final' hfinal => .ok hfinal
    rw [primary.eq_def, primary.eq_def]
    cases t with
    | operator o =>
      rw [Margin.after_operator hmargin] at hrest
      dsimp only
      cases hparen : eat? .leftParen rest with
      | none => exact .error _ _
      | some later =>
        obtain ⟨later', hparen', hlater⟩ := hrest.eat?_tight (by decide) rfl hparen
        rw [hparen']
        exact hcall o.symbol hlater
    | identifier name =>
      have hrest : Exits more rest rest' := hrest
      dsimp only
      cases hparen : eat? .leftParen rest with
      | none =>
        rw [hrest.eat?_none hmore (by decide) (by decide) hparen]
        exact .ok hrest
      | some later =>
        obtain ⟨later', hparen', hlater⟩ := hrest.eat?_tight (by decide) rfl hparen
        rw [hparen']
        exact hcall name hlater
    | leftBracket => exact listLiteral_agrees hmore hexpr' h hrest
    | leftParen => exact parenthesized_agrees hmore h hrest
    | doWord => exact block_agrees hmore hexpr' h hrest
    | fnWord => exact lambda_agrees hmore hexpr hexpr' h hrest
    | int _ | float _ | char _ | text _ | bool _ | underscore => exact .ok hrest
    | _ => exact .error _ _

omit hmore h hexpr hexpr' in
/-- Only a name can come after a dot, so that no line end is added there. -/
theorem methodName_agrees {tokens spaced : Tokens} (hs : Spaced more .tight tokens spaced) :
    Agrees (fun _ => Exits more) (methodName tokens) (methodName spaced) := by
  cases tokens with
  | nil => exact .error _ _
  | cons next rest =>
    obtain ⟨t, span⟩ := next
    cases t with
    | identifier name =>
      obtain ⟨⟨t', span'⟩, rest', rfl, rfl, hrest⟩ := hs.uncons (hs.solid_cons (by decide) rfl)
      exact .ok hrest
    | _ => exact .error _ _

theorem methodArguments_agrees {tokens spaced : Tokens} (hs : Exits more tokens spaced) :
    Agrees (fun _ => Exits more) (methodArguments expr tokens) (methodArguments expr' spaced) := by
  rw [methodArguments, methodArguments]
  cases hparen : eat? .leftParen tokens with
  | some rest =>
    obtain ⟨rest', hparen', hrest⟩ := hs.eat?_tight (by decide) rfl hparen
    rw [hparen']
    exact arguments_agrees hmore hexpr hexpr' h hrest
  | none =>
    rw [hs.eat?_none hmore (by decide) (by decide) hparen]
    exact .ok hs

theorem postfixRound_agrees (e : Expr) (tokens spaced : Tokens) (hs : Exits more tokens spaced) :
    Agrees (Round.Relates (Exits more) (Exits more)) (postfixRound expr e tokens)
      (postfixRound expr' e spaced) := by
  rw [postfixRound, postfixRound]
  cases hparen : eat? .leftParen tokens with
  | some rest =>
    obtain ⟨rest', hparen', hrest⟩ := hs.eat?_tight (by decide) rfl hparen
    rw [hparen']
    apply (arguments_agrees hmore hexpr hexpr' h hrest).bind
    intro args final final' hfinal
    exact .ok hfinal
  | none =>
    rw [hs.eat?_none hmore (by decide) (by decide) hparen]
    dsimp only
    cases hdot : eat? .dot tokens with
    | none =>
      rw [hs.eat?_none hmore (by decide) (by decide) hdot]
      exact .ok hs
    | some rest =>
      obtain ⟨rest', hdot', hrest⟩ := hs.eat?_tight (by decide) rfl hdot
      rw [hdot']
      apply (methodName_agrees hrest).bind
      intro method later later' hlater
      apply (methodArguments_agrees hmore hexpr hexpr' h hlater).bind
      intro args final final' hfinal
      exact .ok hfinal

theorem postfixes_agrees (e : Expr) {tokens spaced : Tokens} (hs : Exits more tokens spaced) :
    Agrees (fun _ => Exits more) (postfixes expr e tokens) (postfixes expr' e spaced) :=
  iterate_agrees (postfixRound_advances hexpr') (postfixRound_agrees hmore hexpr hexpr' h) e hs

theorem postfixed_agrees {tokens spaced : Tokens} (hs : Enters more tokens spaced) :
    Agrees (fun _ => Exits more) (postfixed expr tokens) (postfixed expr' spaced) :=
  (primary_agrees hmore hexpr hexpr' h hs).bind
    fun e _ _ hrest => postfixes_agrees hmore hexpr hexpr' h e hrest

omit hmore h hexpr hexpr' in
/-- No operand starts with a token that a line end may stand before. -/
theorem unary_trails (expr : Reader Expr) {tokens : Tokens} (ht : Follows Token.trails tokens) :
    ∃ stop, unary expr tokens = .error stop := by
  cases tokens with
  | nil => exact ⟨_, rfl⟩
  | cons next rest =>
    have hnext := ht next rfl
    obtain ⟨t, span⟩ := next
    cases t with
    | rightParen | rightBracket | endWord | newline => exact ⟨_, rfl⟩
    | _ => cases hnext

omit h hexpr hexpr' in
/-- What an operator belongs to does not depend on line ends that are added. -/
theorem lead_spaced {margin : Margin} {tokens spaced : Tokens} (t : Token)
    (hs : Spaced more margin tokens spaced) (hm : margin ≠ .free) :
    Lead.of t (spaced.head?.map Located.token) = Lead.of t (tokens.head?.map Located.token) := by
  have htrails {next : Token} (hnext : next.trails = true) :
      Lead.of t (some next) = Lead.of t none := by
    cases next with
    | rightParen | rightBracket | endWord | newline =>
      cases t with
      | operator o => cases o <;> rfl
      | _ => rfl
    | _ => cases hnext
  cases hs with
  | done =>
    cases more with
    | nil => rfl
    | cons close rest =>
      have hclose : close.token = .rightParen := by simpa using hmore close rfl
      exact htrails (by rw [hclose]; rfl)
  | next ht => rw [List.head?_cons, List.head?_cons, Option.map_some, Option.map_some, ht]
  | line hline hplace =>
    have hfollows := hplace.resolve_left hm
    rw [List.head?_cons, Option.map_some, htrails (by rw [hline]; rfl)]
    cases tokens with
    | nil => rfl
    | cons next rest => exact (htrails (hfollows next rfl)).symm

theorem unary_agrees {tokens spaced : Tokens} (hs : Enters more tokens spaced) :
    Agrees (fun _ => Exits more) (unary expr tokens) (unary expr' spaced) := by
  induction tokens generalizing spaced with
  | nil => exact .error _ _
  | cons next rest ih =>
    have hpostfixed := postfixed_agrees hmore hexpr hexpr' h hs
    obtain ⟨margin, hmargin, hspaced, hsolid⟩ := hs
    obtain ⟨next', rest', rfl, hnext, hrest⟩ := hspaced.uncons hsolid
    have htight {o : Operator} (ho : next.token = .operator o) : Spaced more .tight rest rest' := by
      rw [ho, Margin.after_operator hmargin] at hrest
      exact hrest
    have hlead : Lead.of next.token (rest'.head?.map Located.token) =
        Lead.of next.token (rest.head?.map Located.token) := by
      cases htoken : next.token with
      | operator o => exact lead_spaced hmore _ (htight htoken) (by decide)
      | _ => rfl
    rw [unary_cons, unary_cons, hnext, hlead]
    cases hcase : Lead.of next.token (rest.head?.map Located.token) with
    | nothing => exact hpostfixed
    | called symbol =>
      obtain ⟨o, ho⟩ := Lead.eq_operator_of_called hcase
      by_cases htrails : Follows Token.trails rest
      · obtain ⟨stop, hstop⟩ := unary_trails expr htrails
        rw [hstop]
        exact .error _ _
      · have hsolid := (htight ho).solid (by decide) htrails
        apply (ih ⟨.tight, by decide, htight ho, hsolid⟩).bind
        intro e final final' hfinal
        exact .ok hfinal
    | numeral e =>
      obtain ⟨ho, hnumeral⟩ := Lead.eq_minus_of_numeral hcase
      have hspaced := htight ho
      cases rest with
      | nil => rcases hnumeral with ⟨i, hi⟩ | ⟨x, hx⟩ <;> contradiction
      | cons numeral later =>
        have htoken : numeral.token.trails = false ∧
            Margin.tight.after numeral.token = .operand := by
          rcases hnumeral with ⟨i, hi⟩ | ⟨x, hx⟩
          · rw [Option.some.inj hi]
            exact ⟨rfl, rfl⟩
          · rw [Option.some.inj hx]
            exact ⟨rfl, rfl⟩
        obtain ⟨numeral', later', rfl, -, hlater⟩ :=
          hspaced.uncons (hspaced.solid_cons (by decide) htoken.1)
        rw [htoken.2] at hlater
        exact postfixes_agrees hmore hexpr hexpr' h e hlater

end Rules

section Chain

variable {more : Tokens} (hmore : Follows (· = .rightParen) more) {operand operand' : Reader Expr}
  (ho' : operand'.Advances)
  (h : ∀ tokens spaced, Enters more tokens spaced →
    Agrees (fun _ => Exits more) (operand tokens) (operand' spaced))

omit h in
/-- A chain goes on only with an operator. -/
theorem chainRound_of_not_isInfix {tokens : Tokens} (hf : Follows (fun t => !t.isInfix) tokens)
    (links : List (Operator × Expr)) :
    chainRound operand links tokens = .ok (.done links.reverse, tokens) := by
  rw [chainRound.eq_def]
  split
  case h_1 o span rest =>
    rw [if_neg]
    simpa [Token.isInfix] using hf _ rfl
  case h_2 => rfl

include hmore h

theorem chainRound_agrees (links : List (Operator × Expr)) (tokens spaced : Tokens)
    (hs : Exits more tokens spaced) :
    Agrees (Round.Relates (Exits more) (Exits more)) (chainRound operand links tokens)
      (chainRound operand' links spaced) := by
  by_cases hinfix : Follows (fun t => !t.isInfix) tokens
  · have hinfix' : Follows (fun t => !t.isInfix) spaced := by
      cases hs with
      | done => exact hmore.mono fun t ht => by rw [of_decide_eq_true ht]; rfl
      | next ht =>
        intro next hnext
        cases hnext
        rw [ht]
        exact hinfix _ rfl
      | line hline =>
        intro next hnext
        cases hnext
        rw [hline]
        rfl
    rw [chainRound_of_not_isInfix hinfix, chainRound_of_not_isInfix hinfix']
    exact .ok hs
  · cases tokens with
    | nil => exact absurd .nil hinfix
    | cons next rest =>
      obtain ⟨t, span⟩ := next
      cases t with
      | operator o =>
        have ho : o.isInfix = true := by
          by_contra hnot
          exact hinfix (.cons (by simpa [Token.isInfix] using hnot) span rest)
        have hfree : Margin.operand.after (.operator o) = .free := by
          rw [Margin.after, Token.isInfix, ho]
          rfl
        obtain ⟨⟨t', span'⟩, rest', rfl, rfl, hrest⟩ := hs.uncons (hs.solid_cons (by decide) rfl)
        rw [hfree] at hrest
        rw [chainRound, chainRound, if_pos ho, if_pos ho]
        apply (h _ _ (hrest.enters hmore)).bind
        intro e final final' hfinal
        exact .ok hfinal
      | _ => exact absurd (.cons rfl span rest) hinfix

include ho'

theorem chain_agrees {tokens spaced : Tokens} (hs : Enters more tokens spaced) :
    Agrees (fun _ => Exits more) (chain operand tokens) (chain operand' spaced) := by
  apply (h tokens spaced hs).bind
  intro first rest rest' hrest
  have hlinks := iterate_agrees (chainRound_advances ho') (chainRound_agrees hmore h) [] hrest
  exact hlinks.bind fun links final final' hfinal => .ok hfinal

end Chain

/-- Expressions of any depth agree with expressions. -/
theorem expressionWithin_agrees {more : Tokens} (hmore : Follows (· = .rightParen) more)
    (depth : Nat) (tokens spaced : Tokens) (hs : Enters more tokens spaced) :
    Agrees (fun _ => Exits more) (expressionWithin depth tokens) (expression spaced) := by
  induction depth generalizing tokens spaced with
  | zero => exact .error _ _
  | succ depth ih =>
    have hexpr := expressionWithin_advances depth
    rw [expression_eq]
    exact chain_agrees hmore (unary_advances expression_advances)
      (fun _ _ hs => unary_agrees hmore hexpr expression_advances ih hs) hs

theorem expression_agrees {more : Tokens} (hmore : Follows (· = .rightParen) more)
    (tokens spaced : Tokens) (hs : Enters more tokens spaced) :
    Agrees (fun _ => Exits more) (expression tokens) (expression spaced) :=
  expressionWithin_agrees hmore _ tokens spaced hs

theorem Spaced.eq_of_nil {more spaced : Tokens} {margin : Margin}
    (h : Spaced more margin [] spaced) (hs : Solid spaced) : spaced = more := by
  cases h with
  | done => rfl
  | @line _ line _ _ hline =>
    have hne := hs line rfl
    simp [hline] at hne

/-- The same tokens in other places, and tokens after them. -/
theorem Spaced.of_map_eq {tokens moved : Tokens}
    (h : tokens.map Located.token = moved.map Located.token) (more : Tokens) (margin : Margin) :
    Spaced more margin tokens (moved ++ more) := by
  induction tokens generalizing moved margin with
  | nil =>
    rw [List.map_nil, eq_comm, List.map_eq_nil_iff] at h
    rw [h]
    exact .done margin
  | cons t tokens ih =>
    obtain ⟨span, later, rfl, hlater⟩ := map_token_cons h.symm
    exact .next rfl (ih hlater.symm (margin.after t.token))

end Grammar
end Song
