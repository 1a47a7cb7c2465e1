import Song.Proofs.Grammar.Progress

/-!
# What open tokens still owe, and where lines may end

Every opening token owes the one that closes it, and a lambda or a guard owes the sign and the value
after it. Whatever a rule reads pays what it opened itself, so the debt at the end of the tokens is
found by one pass over them. The same pass finds the lines that end where none may: after an
operator before its operand, after a dot, after the keyword and the parameters of a lambda, and
after a guard. No rule takes the end of such a line.
-/
namespace Song.Grammar

variable {α β σ : Type}

/-- What closes something that is open; a sign of equality comes before a value. -/
inductive Closer where
  | rightParen
  | rightBracket
  | endWord
  | equals
deriving DecidableEq

/-- What is open, the innermost first, and whether an expression is wanted next. -/
structure Debt where
  owed : List Closer
  wanted : Bool

/-- What is owed once the closer has come; one that is not due pays nothing. -/
def pay (closer : Closer) : List Closer → List Closer
  | [] => []
  | due :: rest => if due = closer then rest else due :: rest

/-- What is owed after a guard, which stands before a sign of equality. -/
def oweValue (owed : List Closer) : List Closer :=
  if owed.head? = some .equals then owed else .equals :: owed

theorem pay_equals {owed : List Closer} (h : owed.head? ≠ some .equals) :
    pay .equals owed = owed := by
  cases owed with
  | nil => rfl
  | cons due rest => exact if_neg (by simpa using h)

namespace Debt

def after (debt : Debt) : Token → Debt
  | .newline => debt
  | .leftParen => ⟨.rightParen :: debt.owed, true⟩
  | .leftBracket => ⟨.rightBracket :: debt.owed, true⟩
  | .doWord => ⟨.endWord :: debt.owed, true⟩
  | .fnWord => ⟨.equals :: debt.owed, true⟩
  | .whenWord => ⟨oweValue debt.owed, true⟩
  | .rightParen => ⟨pay .rightParen debt.owed, false⟩
  | .rightBracket => ⟨pay .rightBracket debt.owed, false⟩
  | .endWord => ⟨pay .endWord debt.owed, false⟩
  | .equals => ⟨pay .equals debt.owed, true⟩
  | .operator _ | .comma | .bar | .dot => ⟨debt.owed, true⟩
  | _ => ⟨debt.owed, false⟩

def afterAll (debt : Debt) (tokens : Tokens) : Debt :=
  tokens.foldl (fun debt next => debt.after next.token) debt

@[simp] theorem afterAll_nil (debt : Debt) : debt.afterAll [] = debt :=
  rfl

@[simp] theorem afterAll_cons (debt : Debt) (next : Located) (rest : Tokens) :
    debt.afterAll (next :: rest) = (debt.after next.token).afterAll rest :=
  rfl

@[simp] theorem afterAll_skipNewlines (debt : Debt) (tokens : Tokens) :
    debt.afterAll (skipNewlines tokens) = debt.afterAll tokens := by
  induction tokens with
  | nil => rfl
  | cons next rest ih =>
    by_cases hn : next.token = .newline
    · rw [skipNewlines, List.dropWhile_cons_of_pos (by simpa using hn), afterAll_cons, hn]
      exact ih
    · rw [skipNewlines, List.dropWhile_cons_of_neg (by simpa using hn)]

/-- A sign and its numeral are one number. -/
theorem after_numeral {t numeral : Token} {e : Expr}
    (h : Lead.of t (some numeral) = .numeral e) (owed : List Closer) (wanted : Bool) :
    ((⟨owed, wanted⟩ : Debt).after t).after numeral = ⟨owed, false⟩ := by
  obtain ⟨rfl, ⟨i, hi⟩ | ⟨x, hx⟩⟩ := Lead.eq_minus_of_numeral h
  · cases hi
    rfl
  · cases hx
    rfl

/-- After the separators of a block as much is owed, and a statement may be wanted. -/
theorem exists_afterAll_dropWhile (owed : List Closer) (wanted : Bool) (tokens : Tokens) :
    ∃ wanted', (⟨owed, wanted'⟩ : Debt).afterAll (tokens.dropWhile isSeparator) =
      (⟨owed, wanted⟩ : Debt).afterAll tokens := by
  induction tokens generalizing wanted with
  | nil => exact ⟨wanted, rfl⟩
  | cons next rest ih =>
    by_cases hn : isSeparator next = true
    · rw [List.dropWhile_cons_of_pos hn, afterAll_cons]
      rw [isSeparator, Bool.or_eq_true, decide_eq_true_eq, decide_eq_true_eq] at hn
      rcases hn with hn | hn <;> rw [hn] <;> exact ih _
    · rw [List.dropWhile_cons_of_neg hn]
      exact ⟨wanted, rfl⟩

end Debt

def separates : List Closer → Bool
  | [] | .endWord :: _ => true
  | _ => false

/-- A place between two tokens: what is owed there, whether a statement starts in a new line,
whether the token before it takes no line end, and whether any line before ended where none may. -/
structure Seam where
  debt : Debt
  starts : Bool
  tight : Bool
  torn : Bool

namespace Seam

/-- Whether no line may end here. A sign of equality that is owed comes in the same line. -/
def refuses (seam : Seam) : Bool :=
  seam.tight || (seam.debt.owed.head? = some .equals && !seam.debt.wanted)

/-- The seam after one more token. An operator where an operand is wanted stands before it. -/
def after (seam : Seam) : Token → Seam
  | .newline => ⟨seam.debt, separates seam.debt.owed, false, seam.torn || seam.refuses⟩
  | .dot => ⟨seam.debt.after .dot, false, true, seam.torn⟩
  | .fnWord => ⟨seam.debt.after .fnWord, false, true, seam.torn⟩
  | .operator o =>
    ⟨seam.debt.after (.operator o), false, seam.debt.wanted || seam.starts, seam.torn⟩
  | t => ⟨seam.debt.after t, false, false, seam.torn⟩

def afterAll (seam : Seam) (tokens : Tokens) : Seam :=
  tokens.foldl (fun seam next => seam.after next.token) seam

def done (owed : List Closer) (torn : Bool) : Seam :=
  ⟨⟨owed, false⟩, false, false, torn⟩

/-- The seam is inside of what the closer ends. -/
def Inside (closer : Closer) (owed : List Closer) (torn : Bool) (seam : Seam) : Prop :=
  seam.debt.owed = closer :: owed ∧ seam.torn = torn

@[simp] theorem afterAll_nil (seam : Seam) : seam.afterAll [] = seam :=
  rfl

@[simp] theorem afterAll_cons (seam : Seam) (next : Located) (rest : Tokens) :
    seam.afterAll (next :: rest) = (seam.after next.token).afterAll rest :=
  rfl

theorem afterAll_append (seam : Seam) (tokens more : Tokens) :
    seam.afterAll (tokens ++ more) = (seam.afterAll tokens).afterAll more :=
  List.foldl_append

@[simp] theorem debt_after (seam : Seam) (t : Token) :
    (seam.after t).debt = seam.debt.after t := by
  cases t <;> rfl

theorem debt_afterAll (seam : Seam) (tokens : Tokens) :
    (seam.afterAll tokens).debt = seam.debt.afterAll tokens := by
  induction tokens generalizing seam with
  | nil => rfl
  | cons next rest ih => rw [afterAll_cons, ih, debt_after, Debt.afterAll_cons]

theorem afterAll_eat (seam : Seam) {t : Token} {tokens rest : Tokens}
    (h : eat? t tokens = some rest) : seam.afterAll tokens = (seam.after t).afterAll rest := by
  obtain ⟨next, rfl, rfl⟩ := eat?_eq_some h
  rfl

/-- Empty lines may come where a line may end, and make no difference but that a statement may start
after them. -/
theorem exists_skipNewlines {seam total : Seam} {tokens : Tokens}
    (h : seam.afterAll tokens = total) (hr : seam.refuses = false) :
    ∃ starts, { seam with starts }.afterAll (skipNewlines tokens) = total := by
  induction tokens generalizing seam with
  | nil => exact ⟨seam.starts, h⟩
  | cons next rest ih =>
    by_cases hn : next.token = .newline
    · have htight : seam.tight = false := by
        rw [refuses, Bool.or_eq_false_iff] at hr
        exact hr.1
      have hafter : seam.after .newline = { seam with starts := separates seam.debt.owed } := by
        rw [after, hr, Bool.or_false, ← htight]
      rw [afterAll_cons, hn, hafter] at h
      rw [skipNewlines, List.dropWhile_cons_of_pos (by simpa using hn)]
      obtain ⟨starts, hskip⟩ := ih h hr
      exact ⟨starts, hskip⟩
    · rw [skipNewlines, List.dropWhile_cons_of_neg (by simpa using hn)]
      exact ⟨seam.starts, h⟩

/-- The separators of a block may come after any of its statements. -/
theorem exists_afterAll_dropWhile (owed : List Closer) (wanted starts torn : Bool)
    (tokens : Tokens) :
    ∃ wanted' starts',
      (⟨⟨.endWord :: owed, wanted'⟩, starts', false, torn⟩ : Seam).afterAll
          (tokens.dropWhile isSeparator) =
        (⟨⟨.endWord :: owed, wanted⟩, starts, false, torn⟩ : Seam).afterAll tokens := by
  induction tokens generalizing wanted starts with
  | nil => exact ⟨wanted, starts, rfl⟩
  | cons next rest ih =>
    by_cases hn : isSeparator next = true
    · rw [List.dropWhile_cons_of_pos hn, afterAll_cons]
      rw [isSeparator, Bool.or_eq_true, decide_eq_true_eq, decide_eq_true_eq] at hn
      rcases hn with hn | hn
      · have hafter : (⟨⟨.endWord :: owed, wanted⟩, starts, false, torn⟩ : Seam).after .newline =
            ⟨⟨.endWord :: owed, wanted⟩, true, false, torn⟩ := by
          simp [after, refuses, separates]
        rw [hn, hafter]
        exact ih wanted true
      · rw [hn]
        exact ih true false
    · rw [List.dropWhile_cons_of_neg hn]
      exact ⟨wanted, starts, rfl⟩

/-- A sign and its numeral are one number. -/
theorem after_numeral {t numeral : Token} {e : Expr}
    (h : Lead.of t (some numeral) = .numeral e) (seam : Seam) :
    (seam.after t).after numeral = done seam.debt.owed seam.torn := by
  obtain ⟨rfl, ⟨i, hi⟩ | ⟨x, hx⟩⟩ := Lead.eq_minus_of_numeral h
  · cases hi
    rfl
  · cases hx
    rfl

end Seam

/-- Where the reading ends there is a seam as given, from which the tokens lead to the same
seam in the end. -/
def Reaches (total : Seam) (left : α → Seam → Prop) (result : Except Stop (α × Tokens)) : Prop :=
  ∀ value rest, result = .ok (value, rest) → ∃ seam, left value seam ∧ seam.afterAll rest = total

/-- From the seam before it the reader leaves what is owed and wants nothing more, and it takes no
line end where none may be. -/
def Traverses (before : Seam) (owed : List Closer) (reader : Reader α) : Prop :=
  ∀ tokens, Reaches (before.afterAll tokens) (fun _ seam => seam = .done owed before.torn)
    (reader tokens)

def Round.Leaves (between : Seam → Prop) (final : Seam) : Round σ β → Seam → Prop
  | again _, seam => between seam
  | done _, seam => seam = final

namespace Reaches

variable {total : Seam} {left : α → Seam → Prop} {later : β → Seam → Prop}

theorem ok {value : α} {rest : Tokens} {seam : Seam} (hp : seam.afterAll rest = total)
    (h : left value seam) : Reaches total left (.ok (value, rest)) := by
  intro v r hr
  cases hr
  exact ⟨seam, h, hp⟩

theorem error (stop : Stop) : Reaches total left (.error stop) := by
  intro v r hr
  cases hr

theorem bind {first : Except Stop (α × Tokens)} {next : α × Tokens → Except Stop (β × Tokens)}
    (h : Reaches total left first)
    (hn : ∀ value rest seam, left value seam → seam.afterAll rest = total →
      Reaches total later (next (value, rest))) : Reaches total later (first >>= next) := by
  cases first with
  | error stop => exact error stop
  | ok pair =>
    obtain ⟨seam, hseam, htotal⟩ := h pair.1 pair.2 rfl
    exact hn pair.1 pair.2 seam hseam htotal

theorem bind_expect {t : Token} {tokens : Tokens} {seam : Seam}
    (hp : seam.afterAll tokens = total) {next : Tokens → Except Stop (β × Tokens)}
    (hn : ∀ rest, (seam.after t).afterAll rest = total → Reaches total later (next rest)) :
    Reaches total later (expect t tokens >>= next) := by
  rw [expect]
  split
  case h_1 rest hrest => exact hn rest (by rw [← hp, Seam.afterAll_eat _ hrest])
  case h_2 => exact error _

end Reaches

/-- What holds between the rounds of a repetition is left to the last one. -/
theorem iterate_reaches {round : σ → Reader (Round σ β)} {between : Seam → Prop} {final : Seam}
    (h : ∀ state seam, between seam → ∀ tokens,
      Reaches (seam.afterAll tokens) (Round.Leaves between final) (round state tokens))
    (state : σ) {seam : Seam} (hp : between seam) (tokens : Tokens) :
    Reaches (seam.afterAll tokens) (fun _ seam => seam = final) (iterate round state tokens) := by
  rw [iterate]
  generalize tokens.length + 1 = bound
  induction bound generalizing state seam tokens with
  | zero => exact .error _
  | succ bound ih =>
    have hround := h state seam hp tokens
    rw [repeatAtMost]
    split
    case h_1 => exact .error _
    case h_2 result rest hr =>
      obtain ⟨last, hlast, htotal⟩ := hround _ rest hr
      exact .ok htotal hlast
    case h_3 later rest hr =>
      obtain ⟨next, hnext, htotal⟩ := hround _ rest hr
      rw [← htotal]
      exact ih later hnext rest

/-! ### The rules -/

section Rules

variable {expr : Reader Expr} (hexpr : ∀ seam : Seam, Traverses seam seam.debt.owed expr)
  {owed : List Closer}

include hexpr

/-- An expression after empty lines, where a line may end. -/
theorem expr_reaches {seam total : Seam} {tokens : Tokens} (h : seam.afterAll tokens = total)
    (hr : seam.refuses = false) :
    Reaches total (fun _ after => after = .done seam.debt.owed seam.torn)
      (expr (skipNewlines tokens)) := by
  obtain ⟨starts, rfl⟩ := Seam.exists_skipNewlines h hr
  exact hexpr { seam with starts } (skipNewlines tokens)

theorem item_reaches (items : List Expr) {seam : Seam} {torn : Bool}
    (hp : seam.Inside .rightParen owed torn) (tokens : Tokens) :
    Reaches (seam.afterAll tokens)
      (Round.Leaves (Seam.Inside .rightParen owed torn) (.done owed torn))
      (item expr .rightParen items tokens) := by
  apply (hexpr seam tokens).bind
  intro e rest after hafter htotal
  rw [hafter, hp.1, hp.2] at htotal
  obtain ⟨starts, htotal⟩ := Seam.exists_skipNewlines htotal rfl
  dsimp only
  split
  case h_1 more hmore =>
    rw [Seam.afterAll_eat _ hmore] at htotal
    obtain ⟨starts, htotal⟩ := Seam.exists_skipNewlines htotal rfl
    exact .ok htotal ⟨rfl, rfl⟩
  case h_2 => exact .bind_expect htotal fun final hfinal => .ok hfinal rfl

theorem arguments_traverses (seam : Seam) :
    Traverses (seam.after .leftParen) seam.debt.owed (arguments expr) := by
  intro tokens
  obtain ⟨starts, hskip⟩ := Seam.exists_skipNewlines
    (rfl : (seam.after .leftParen).afterAll tokens = _) rfl
  rw [arguments, items, ← hskip]
  split
  case h_1 rest h => exact .ok (Seam.afterAll_eat _ h).symm rfl
  case h_2 => exact iterate_reaches (fun items _ => item_reaches hexpr items) [] ⟨rfl, rfl⟩ _

theorem listItem_reaches (heads : List Expr) {seam : Seam} {torn : Bool}
    (hp : seam.Inside .rightBracket owed torn) (tokens : Tokens) :
    Reaches (seam.afterAll tokens)
      (Round.Leaves (Seam.Inside .rightBracket owed torn) (.done owed torn))
      (listItem expr heads tokens) := by
  apply (hexpr seam tokens).bind
  intro e rest after hafter htotal
  rw [hafter, hp.1, hp.2] at htotal
  obtain ⟨starts, htotal⟩ := Seam.exists_skipNewlines htotal rfl
  dsimp only
  split
  case h_1 more hmore =>
    rw [Seam.afterAll_eat _ hmore] at htotal
    apply (expr_reaches hexpr htotal rfl).bind
    intro tail last after hafter hlast
    rw [hafter] at hlast
    obtain ⟨starts, hlast⟩ := Seam.exists_skipNewlines hlast rfl
    exact .bind_expect hlast fun final hfinal => .ok hfinal rfl
  case h_2 =>
    split
    case h_1 more hmore =>
      rw [Seam.afterAll_eat _ hmore] at htotal
      obtain ⟨starts, htotal⟩ := Seam.exists_skipNewlines htotal rfl
      exact .ok htotal ⟨rfl, rfl⟩
    case h_2 => exact .bind_expect htotal fun final hfinal => .ok hfinal rfl

theorem listLiteral_traverses (seam : Seam) :
    Traverses (seam.after .leftBracket) seam.debt.owed (listLiteral expr) := by
  intro tokens
  obtain ⟨starts, hskip⟩ := Seam.exists_skipNewlines
    (rfl : (seam.after .leftBracket).afterAll tokens = _) rfl
  rw [listLiteral, ← hskip]
  split
  case h_1 rest h => exact .ok (Seam.afterAll_eat _ h).symm rfl
  case h_2 => exact iterate_reaches (fun heads _ => listItem_reaches hexpr heads) [] ⟨rfl, rfl⟩ _

theorem parenthesized_traverses (seam : Seam) :
    Traverses (seam.after .leftParen) seam.debt.owed (parenthesized expr) := by
  intro tokens
  apply (expr_reaches hexpr rfl rfl).bind
  intro e rest after hafter htotal
  rw [hafter] at htotal
  obtain ⟨starts, htotal⟩ := Seam.exists_skipNewlines htotal rfl
  exact .bind_expect htotal fun final hfinal => .ok hfinal rfl

/-- A guard leaves a value to be given; without one the seam stays as it is. -/
theorem guard?_reaches {seam total : Seam} {tokens : Tokens} (h : seam.afterAll tokens = total) :
    Reaches total (fun guard after =>
        after = if guard.isSome then .done (oweValue seam.debt.owed) seam.torn else seam)
      (guard? expr tokens) := by
  rw [guard?]
  split
  case h_1 rest hrest =>
    rw [Seam.afterAll_eat _ hrest] at h
    have hr : (seam.after .whenWord).refuses = false := by
      simp [Seam.refuses, Seam.after, Debt.after]
    apply (expr_reaches hexpr h hr).bind
    intro e final after hafter hfinal
    exact .ok hfinal hafter
  case h_2 => exact .ok h rfl

omit hexpr in
theorem requirePatterns_reaches {total : Seam} {left : β → Seam → Prop} {start : Option Span}
    {patterns : List Expr} {next : Unit → Except Stop (β × Tokens)}
    (hn : Reaches total left (next ())) :
    Reaches total left (requirePatterns start patterns >>= next) := by
  rw [requirePatterns]
  split
  · exact .error _
  · exact hn

theorem lambda_traverses (seam : Seam) :
    Traverses (seam.after .fnWord) seam.debt.owed (lambda expr) := by
  intro tokens
  apply Reaches.bind_expect rfl
  intro opened hopened
  rw [← hopened]
  apply (arguments_traverses hexpr _ opened).bind
  intro patterns closed after hafter hclosed
  apply requirePatterns_reaches
  apply (guard?_reaches hexpr hclosed).bind
  intro guard rest after' hafter' hrest
  have hsame : after' = .done (.equals :: seam.debt.owed) seam.torn := by
    rw [hafter', hafter]
    split <;> rfl
  rw [hsame] at hrest
  apply Reaches.bind_expect hrest
  intro equals hequals
  have hr : ((Seam.done (.equals :: seam.debt.owed) seam.torn).after .equals).refuses = false :=
    Bool.and_false _
  apply (expr_reaches hexpr hequals hr).bind
  intro body final last hlast hfinal
  exact .ok hfinal hlast

theorem statement_traverses {seam : Seam} (ho : seam.debt.owed.head? ≠ some .equals) :
    Traverses seam seam.debt.owed (statement expr) := by
  have hpay : pay .equals seam.debt.owed = seam.debt.owed := pay_equals ho
  have howe : oweValue seam.debt.owed = .equals :: seam.debt.owed := if_neg ho
  intro tokens
  apply (hexpr seam tokens).bind
  intro target rest after hafter hrest
  rw [hafter] at hrest
  apply (guard?_reaches hexpr hrest).bind
  intro guard more guarded hguarded hmore
  dsimp only
  split
  case h_1 equals hequals =>
    have hvalue : guarded.after .equals = ⟨⟨seam.debt.owed, true⟩, false, false, seam.torn⟩ := by
      rw [hguarded]
      split
      · simp [Seam.done, howe, Seam.after, Debt.after, pay]
      · simp [Seam.done, hpay, Seam.after, Debt.after]
    have hr : (guarded.after .equals).refuses = false := by
      simp [hvalue, Seam.refuses]
    rw [Seam.afterAll_eat _ hequals] at hmore
    apply (expr_reaches hexpr hmore hr).bind
    intro value final last hlast hfinal
    dsimp only
    cases declaration (place tokens) target guard value with
    | error stop => exact .error stop
    | ok declared => exact .ok hfinal (by rw [hlast, hvalue])
  case h_2 =>
    split
    · exact .error _
    case isFalse hguard => exact .ok hmore (by rw [hguarded, if_neg hguard])

theorem blockStatement_reaches (statements : List Expr) {seam : Seam} {torn : Bool}
    (hp : seam.Inside .endWord owed torn) (tokens : Tokens) :
    Reaches (seam.afterAll tokens) (Round.Leaves (Seam.Inside .endWord owed torn) (.done owed torn))
      (blockStatement expr statements tokens) := by
  rw [blockStatement]
  split
  case h_1 rest h =>
    have hend : seam.after .endWord = .done owed torn := by
      simp [Seam.after, Debt.after, hp.1, hp.2, pay, Seam.done]
    exact .ok (Seam.afterAll_eat _ h).symm hend
  case h_2 =>
    have ho : seam.debt.owed.head? ≠ some .equals := by simp [hp.1]
    apply (statement_traverses hexpr ho tokens).bind
    intro s rest after hafter htotal
    rw [hafter, hp.1, hp.2] at htotal
    obtain ⟨wanted, starts, hdrop⟩ := Seam.exists_afterAll_dropWhile owed false false torn rest
    rw [Seam.done, ← hdrop] at htotal
    dsimp only
    split
    case h_1 final hfinal =>
      rw [Seam.afterAll_eat _ hfinal] at htotal
      exact .ok htotal rfl
    case h_2 =>
      split
      · exact .ok htotal ⟨rfl, rfl⟩
      · exact .error _

theorem block_traverses (seam : Seam) :
    Traverses (seam.after .doWord) seam.debt.owed (block expr) := by
  intro tokens
  obtain ⟨starts, hskip⟩ := Seam.exists_skipNewlines
    (rfl : (seam.after .doWord).afterAll tokens = _) rfl
  rw [block, ← hskip]
  exact iterate_reaches (fun statements _ => blockStatement_reaches hexpr statements) []
    ⟨rfl, rfl⟩ _

/-- A call of what stands before the parenthesis. -/
theorem call_reaches {rest more : Tokens} (h : eat? .leftParen rest = some more) (seam : Seam)
    (call : List Expr → Expr) :
    Reaches (seam.afterAll rest) (fun _ after => after = .done seam.debt.owed seam.torn)
      (arguments expr more >>= fun read => .ok (call read.1, read.2)) := by
  rw [Seam.afterAll_eat _ h]
  apply (arguments_traverses hexpr seam more).bind
  intro args final after hafter hfinal
  exact .ok hfinal hafter

theorem primary_traverses (seam : Seam) : Traverses seam seam.debt.owed (primary expr) := by
  intro tokens
  cases tokens with
  | nil => exact .error _
  | cons next rest =>
    obtain ⟨t, span⟩ := next
    rw [primary.eq_def]
    cases t with
    | operator o =>
      dsimp only
      split
      case h_1 more hmore =>
        exact call_reaches hexpr hmore (seam.after (.operator o)) (.call o.symbol)
      case h_2 => exact .error _
    | identifier name =>
      dsimp only
      split
      case h_1 more hmore =>
        exact call_reaches hexpr hmore (seam.after (.identifier name)) (.call name)
      case h_2 => exact .ok rfl rfl
    | leftBracket => exact listLiteral_traverses hexpr seam rest
    | leftParen => exact parenthesized_traverses hexpr seam rest
    | doWord => exact block_traverses hexpr seam rest
    | fnWord => exact lambda_traverses hexpr seam rest
    | int _ | float _ | char _ | text _ | bool _ | underscore => exact .ok rfl rfl
    | _ => exact .error _

omit hexpr in
theorem methodName_traverses (seam : Seam) : Traverses seam seam.debt.owed methodName := by
  intro tokens
  cases tokens with
  | nil => exact .error _
  | cons next rest =>
    obtain ⟨t, span⟩ := next
    cases t with
    | identifier name => exact .ok rfl rfl
    | _ => exact .error _

theorem methodArguments_traverses (owed : List Closer) (torn : Bool) :
    Traverses (.done owed torn) owed (methodArguments expr) := by
  intro tokens
  rw [methodArguments]
  split
  case h_1 rest h =>
    rw [Seam.afterAll_eat _ h]
    exact arguments_traverses hexpr _ rest
  case h_2 => exact .ok rfl rfl

theorem postfixRound_reaches (e : Expr) {seam : Seam} {torn : Bool}
    (hp : seam = .done owed torn) (tokens : Tokens) :
    Reaches (seam.afterAll tokens) (Round.Leaves (· = .done owed torn) (.done owed torn))
      (postfixRound expr e tokens) := by
  rw [hp, postfixRound]
  split
  case h_1 rest h =>
    rw [Seam.afterAll_eat _ h]
    apply (arguments_traverses hexpr _ rest).bind
    intro args final after hafter hfinal
    exact .ok hfinal hafter
  case h_2 =>
    split
    case h_2 => exact .ok rfl rfl
    case h_1 rest h =>
      rw [Seam.afterAll_eat _ h]
      apply (methodName_traverses _ rest).bind
      intro method more after hafter hmore
      rw [← hmore, hafter]
      apply (methodArguments_traverses hexpr _ _ more).bind
      intro args final last hlast hfinal
      exact .ok hfinal hlast

theorem postfixes_traverses (e : Expr) (owed : List Closer) (torn : Bool) :
    Traverses (.done owed torn) owed (postfixes expr e) :=
  fun tokens => iterate_reaches (fun e _ => postfixRound_reaches hexpr e) e rfl tokens

theorem postfixed_traverses (seam : Seam) : Traverses seam seam.debt.owed (postfixed expr) := by
  intro tokens
  apply (primary_traverses hexpr seam tokens).bind
  intro e rest after hafter htotal
  rw [← htotal, hafter]
  exact postfixes_traverses hexpr e _ _ rest

theorem unary_traverses (seam : Seam) : Traverses seam seam.debt.owed (unary expr) := by
  intro tokens
  induction tokens generalizing seam with
  | nil => exact postfixed_traverses hexpr seam []
  | cons next rest ih =>
    rw [unary_cons]
    cases hlead : Lead.of next.token (rest.head?.map Located.token) with
    | nothing => exact postfixed_traverses hexpr seam (next :: rest)
    | called symbol =>
      obtain ⟨o, ho⟩ := Lead.eq_operator_of_called hlead
      rw [Seam.afterAll_cons, ho]
      apply (ih (seam.after (.operator o))).bind
      intro e final after hafter hfinal
      exact .ok hfinal hafter
    | numeral e =>
      cases rest with
      | nil => exact absurd hlead (Lead.of_none_ne_numeral _ e)
      | cons numeral more =>
        rw [Seam.afterAll_cons, Seam.afterAll_cons, Seam.after_numeral hlead]
        exact postfixes_traverses hexpr e _ _ more

end Rules

section Chain

variable {operand : Reader Expr}
  (ho : ∀ seam : Seam, Traverses seam seam.debt.owed operand)

include ho

theorem chainRound_reaches {owed : List Closer} (links : List (Operator × Expr)) {seam : Seam}
    {torn : Bool} (hp : seam = .done owed torn) (tokens : Tokens) :
    Reaches (seam.afterAll tokens) (Round.Leaves (· = .done owed torn) (.done owed torn))
      (chainRound operand links tokens) := by
  rw [hp, chainRound.eq_def]
  split
  case h_1 o span rest =>
    split
    · have hr : ((Seam.done owed torn).after (.operator o)).refuses = false := Bool.and_false _
      apply (expr_reaches ho rfl hr).bind
      intro e final after hafter hfinal
      exact .ok hfinal hafter
    · exact .ok rfl rfl
  case h_2 => exact .ok rfl rfl

theorem iterate_chainRound_traverses (links : List (Operator × Expr)) (owed : List Closer)
    (torn : Bool) : Traverses (.done owed torn) owed (iterate (chainRound operand) links) :=
  fun tokens => iterate_reaches (fun links _ => chainRound_reaches ho links) links rfl tokens

theorem chain_traverses (seam : Seam) : Traverses seam seam.debt.owed (chain operand) := by
  intro tokens
  apply (ho seam tokens).bind
  intro first rest after hafter htotal
  rw [← htotal, hafter]
  apply (iterate_chainRound_traverses ho [] _ _ rest).bind
  intro links final last hlast hfinal
  exact .ok hfinal hlast

end Chain

/-- An expression pays all that it opens. -/
theorem expressionWithin_traverses (depth : Nat) (seam : Seam) :
    Traverses seam seam.debt.owed (expressionWithin depth) := by
  induction depth generalizing seam with
  | zero => exact fun tokens => .error _
  | succ depth ih => exact chain_traverses (fun seam => unary_traverses ih seam) seam

theorem expression_traverses (seam : Seam) : Traverses seam seam.debt.owed expression :=
  fun tokens => expressionWithin_traverses _ seam tokens

/-- What was owed before the reader is what is owed after it, with what it leaves. -/
def Settles (before : Debt) (owed : List Closer) (reader : Reader α) : Prop :=
  ∀ tokens value rest, reader tokens = .ok (value, rest) →
    (⟨owed, false⟩ : Debt).afterAll rest = before.afterAll tokens

theorem Traverses.settles {before : Seam} {owed : List Closer} {reader : Reader α}
    (h : Traverses before owed reader) : Settles before.debt owed reader := by
  intro tokens value rest hr
  obtain ⟨seam, rfl, hseam⟩ := h tokens value rest hr
  rw [← Seam.debt_afterAll, ← hseam, Seam.debt_afterAll]
  rfl

theorem Settles.skipped {before : Debt} {owed : List Closer} {reader : Reader α}
    (h : Settles before owed reader) :
    Settles before owed fun tokens => reader (skipNewlines tokens) := by
  intro tokens
  rw [← Debt.afterAll_skipNewlines]
  exact h _

def Seam.owing (debt : Debt) : Seam :=
  ⟨debt, false, false, false⟩

theorem settles_of_traverses {reader : Reader α}
    (h : ∀ seam : Seam, Traverses seam seam.debt.owed reader) (owed : List Closer) (wanted : Bool) :
    Settles ⟨owed, wanted⟩ owed reader :=
  (h (.owing ⟨owed, wanted⟩)).settles

theorem expression_settles (owed : List Closer) (wanted : Bool) :
    Settles ⟨owed, wanted⟩ owed expression :=
  settles_of_traverses expression_traverses owed wanted

theorem arguments_settles (owed : List Closer) :
    Settles ⟨.rightParen :: owed, true⟩ owed (arguments expression) :=
  (arguments_traverses expression_traverses (.owing ⟨owed, true⟩)).settles

theorem statement_settles {owed : List Closer} (ho : owed.head? ≠ some .equals) (wanted : Bool) :
    Settles ⟨owed, wanted⟩ owed (statement expression) := by
  have h : Traverses (.owing ⟨owed, wanted⟩) owed (statement expression) :=
    statement_traverses expression_traverses ho
  exact h.settles

end Song.Grammar
