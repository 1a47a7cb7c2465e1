import Song.Grammar.Program
import Song.Proofs.Grammar.Grammatical

/-!
# The parser gives grammatical expressions

Each reader of the grammar gives what the grammar describes and leaves an end of
the tokens that it was given. Repetition is treated once: what a round keeps, the
repetition keeps.
-/
namespace Song.Grammar

variable {α β σ : Type}

/-- What is read has the property, and what is left over is an end of the tokens. -/
def Gives (P : α → Prop) (tokens : Tokens) (result : Except Stop (α × Tokens)) : Prop :=
  ∀ value rest, result = .ok (value, rest) → P value ∧ rest <:+ tokens

def Lexical (tokens : Tokens) : Prop :=
  ∀ t ∈ tokens, t.token.Lexical

/-- The reader gives values with the property on all tokens that come from text. -/
def Reader.Yields (P : α → Prop) (reader : Reader α) : Prop :=
  ∀ tokens, Lexical tokens → Gives P tokens (reader tokens)

/-- A property of the result of a round, from one of its states and one of its results. -/
def Round.Holds (S : σ → Prop) (P : β → Prop) : Round σ β → Prop
  | again state => S state
  | done result => P result

variable {P : α → Prop} {Q : β → Prop}

theorem Lexical.suffix {tokens rest : Tokens} (h : Lexical tokens) (hr : rest <:+ tokens) :
    Lexical rest :=
  fun t ht => h t (hr.subset ht)

namespace Gives

theorem ok {tokens rest : Tokens} {value : α} (hP : P value) (hr : rest <:+ tokens) :
    Gives P tokens (.ok (value, rest)) := by
  intro v r h
  cases h
  exact ⟨hP, hr⟩

theorem error {tokens : Tokens} (stop : Stop) : Gives P tokens (.error stop) := by
  intro v r h
  cases h

theorem extend {tokens more : Tokens} {result : Except Stop (α × Tokens)}
    (h : Gives P tokens result) (ht : tokens <:+ more) : Gives P more result :=
  fun v r hr => ⟨(h v r hr).1, (h v r hr).2.trans ht⟩

theorem bind {tokens : Tokens} {first : Except Stop (α × Tokens)}
    {next : α × Tokens → Except Stop (β × Tokens)} (hf : Gives P tokens first)
    (hn : ∀ value rest, P value → rest <:+ tokens → Gives Q tokens (next (value, rest))) :
    Gives Q tokens (first >>= next) := by
  cases first with
  | error stop => exact error stop
  | ok pair =>
    obtain ⟨value, rest⟩ := pair
    obtain ⟨hP, hr⟩ := hf value rest rfl
    exact hn value rest hP hr

end Gives

theorem eat?_eq_some {t : Token} {tokens rest : Tokens} (h : eat? t tokens = some rest) :
    ∃ next, tokens = next :: rest ∧ next.token = t := by
  cases tokens with
  | nil => cases h
  | cons next more =>
    rw [eat?] at h
    split at h
    case isTrue ht =>
      cases h
      exact ⟨next, rfl, ht⟩
    case isFalse => cases h

theorem eat?_suffix {t : Token} {tokens rest : Tokens} (h : eat? t tokens = some rest) :
    rest <:+ tokens := by
  obtain ⟨next, rfl, -⟩ := eat?_eq_some h
  exact List.suffix_cons next rest

theorem skipNewlines_suffix (tokens : Tokens) : skipNewlines tokens <:+ tokens :=
  List.dropWhile_suffix _

/-- A reader may go on after a token that has to come next. -/
theorem Gives.bind_expect {t : Token} {tokens more : Tokens}
    {next : Tokens → Except Stop (β × Tokens)} (hm : more <:+ tokens)
    (hn : ∀ rest, rest <:+ tokens → Gives Q tokens (next rest)) :
    Gives Q tokens (expect t more >>= next) := by
  rw [expect]
  split
  case h_1 rest hrest => exact hn rest ((eat?_suffix hrest).trans hm)
  case h_2 => exact .error _

theorem repeatAtMost_gives {S : σ → Prop} {round : σ → Reader (Round σ β)}
    (hround : ∀ state, S state → (round state).Yields (Round.Holds S Q)) (bound : Nat)
    {state : σ} (hs : S state) : (repeatAtMost round bound state).Yields Q := by
  induction bound generalizing state with
  | zero =>
    intro tokens _
    exact .error _
  | succ bound ih =>
    intro tokens hl
    have hr := hround state hs tokens hl
    rw [repeatAtMost]
    split
    case h_1 => exact .error _
    case h_2 result rest hresult =>
      obtain ⟨hQ, hsuffix⟩ := hr _ _ hresult
      exact .ok hQ hsuffix
    case h_3 later rest hresult =>
      obtain ⟨hS, hsuffix⟩ := hr _ _ hresult
      exact (ih hS rest (hl.suffix hsuffix)).extend hsuffix

theorem iterate_yields {S : σ → Prop} {round : σ → Reader (Round σ β)}
    (hround : ∀ state, S state → (round state).Yields (Round.Holds S Q)) {start : σ}
    (hs : S start) : (iterate round start).Yields Q :=
  fun tokens hl => repeatAtMost_gives hround _ hs tokens hl

/-! ### The rules -/

private abbrev AllExpressions (items : List Expr) : Prop :=
  ∀ e ∈ items, Grammatical .expression e

private theorem AllExpressions.reverse {items : List Expr} (h : AllExpressions items) :
    AllExpressions items.reverse :=
  fun e he => h e (List.mem_reverse.1 he)

section Rules

variable {expr : Reader Expr} (hexpr : expr.Yields (Grammatical .expression))

include hexpr

/-- Reads an expression from what is left. -/
private theorem expr_gives {tokens rest : Tokens} (hl : Lexical tokens) (hr : rest <:+ tokens) :
    Gives (Grammatical .expression) tokens (expr rest) :=
  (hexpr rest (hl.suffix hr)).extend hr

private theorem skipped_gives {tokens rest : Tokens} (hl : Lexical tokens) (hr : rest <:+ tokens) :
    Gives (Grammatical .expression) tokens (expr (skipNewlines rest)) :=
  expr_gives hexpr hl ((skipNewlines_suffix rest).trans hr)

private theorem item_yields (close : Token) (items : List Expr) (hi : AllExpressions items) :
    (item expr close items).Yields (Round.Holds AllExpressions AllExpressions) := by
  intro tokens hl
  apply (hexpr tokens hl).bind
  intro e rest he hr
  have hitems : AllExpressions (e :: items) := List.forall_mem_cons.2 ⟨he, hi⟩
  have hskip := (skipNewlines_suffix rest).trans hr
  dsimp only
  split
  case h_1 more hmore =>
    exact .ok hitems ((skipNewlines_suffix more).trans ((eat?_suffix hmore).trans hskip))
  case h_2 => exact .bind_expect hskip fun more hmore => .ok hitems.reverse hmore

private theorem items_yields (close : Token) : (items expr close).Yields AllExpressions := by
  intro tokens hl
  have hskip := skipNewlines_suffix tokens
  rw [items]
  split
  case h_1 rest hrest => exact .ok (List.forall_mem_nil _) ((eat?_suffix hrest).trans hskip)
  case h_2 =>
    exact (iterate_yields (item_yields hexpr close) (List.forall_mem_nil _) _
      (hl.suffix hskip)).extend hskip

private theorem arguments_gives {tokens rest : Tokens} (hl : Lexical tokens)
    (hr : rest <:+ tokens) : Gives AllExpressions tokens (arguments expr rest) :=
  (items_yields hexpr .rightParen rest (hl.suffix hr)).extend hr

private theorem listItem_yields (heads : List Expr) (hh : AllExpressions heads) :
    (listItem expr heads).Yields (Round.Holds AllExpressions (Grammatical .expression)) := by
  intro tokens hl
  apply (hexpr tokens hl).bind
  intro e rest he hr
  have hheads : AllExpressions (e :: heads) := List.forall_mem_cons.2 ⟨he, hh⟩
  have hskip := (skipNewlines_suffix rest).trans hr
  dsimp only
  split
  case h_1 more hmore =>
    apply (skipped_gives hexpr hl ((eat?_suffix hmore).trans hskip)).bind
    intro tail last ht hlast
    apply Gives.bind_expect ((skipNewlines_suffix last).trans hlast)
    intro final hfinal
    exact .ok (.cons (by simp) hheads.reverse ht) hfinal
  case h_2 =>
    split
    case h_1 more hmore =>
      exact .ok hheads ((skipNewlines_suffix more).trans ((eat?_suffix hmore).trans hskip))
    case h_2 =>
      apply Gives.bind_expect hskip
      intro final hfinal
      exact .ok (.list hheads.reverse) hfinal

private theorem listLiteral_gives {tokens rest : Tokens} (hl : Lexical tokens)
    (hr : rest <:+ tokens) :
    Gives (Grammatical .expression) tokens (listLiteral expr rest) := by
  have hskip := (skipNewlines_suffix rest).trans hr
  rw [listLiteral]
  split
  case h_1 more hmore =>
    exact .ok (.list (List.forall_mem_nil _)) ((eat?_suffix hmore).trans hskip)
  case h_2 =>
    exact (iterate_yields (listItem_yields hexpr) (List.forall_mem_nil _) _
      (hl.suffix hskip)).extend hskip

private theorem parenthesized_gives {tokens rest : Tokens} (hl : Lexical tokens)
    (hr : rest <:+ tokens) :
    Gives (Grammatical .expression) tokens (parenthesized expr rest) := by
  apply (skipped_gives hexpr hl hr).bind
  intro e more he hm
  apply Gives.bind_expect ((skipNewlines_suffix more).trans hm)
  intro final hfinal
  exact .ok he hfinal

private theorem guard?_gives {tokens rest : Tokens} (hl : Lexical tokens) (hr : rest <:+ tokens) :
    Gives (fun guard => ∀ e ∈ guard, Grammatical .expression e) tokens (guard? expr rest) := by
  rw [guard?]
  split
  case h_1 more hmore =>
    apply (skipped_gives hexpr hl ((eat?_suffix hmore).trans hr)).bind
    intro e final he hf
    exact .ok (by simpa using he) hf
  case h_2 => exact .ok (by simp) hr

omit hexpr in
private theorem guard_grammatical {guard : Option Expr}
    (h : ∀ e ∈ guard, Grammatical .expression e) :
    Grammatical .expression (guard.getD (.bool true)) := by
  cases guard with
  | none => exact .bool true
  | some e => exact h e rfl

omit hexpr in
private theorem requirePatterns_ok {start : Option Span} {patterns : List Expr} {u : Unit}
    (h : requirePatterns start patterns = .ok u) : Expr.nonPatternAmong? patterns = none := by
  rw [requirePatterns] at h
  split at h
  · cases h
  · assumption

omit hexpr in
/-- A reader may go on after patterns that have to be patterns. -/
private theorem Gives.bind_requirePatterns {start : Option Span} {patterns : List Expr}
    {tokens : Tokens} {next : Unit → Except Stop (Expr × Tokens)}
    (hn : Expr.nonPatternAmong? patterns = none →
      Gives (Grammatical .expression) tokens (next ())) :
    Gives (Grammatical .expression) tokens (requirePatterns start patterns >>= next) := by
  cases hp : requirePatterns start patterns with
  | error stop => exact .error stop
  | ok u => exact hn (requirePatterns_ok hp)

private theorem lambda_gives {tokens rest : Tokens} (hl : Lexical tokens) (hr : rest <:+ tokens) :
    Gives (Grammatical .expression) tokens (lambda expr rest) := by
  apply Gives.bind_expect hr
  intro opened hopened
  apply (arguments_gives hexpr hl hopened).bind
  intro patterns closed hpatterns hclosed
  apply Gives.bind_requirePatterns
  intro hpattern
  apply (guard?_gives hexpr hl hclosed).bind
  intro guard guarded hguard hguarded
  apply Gives.bind_expect hguarded
  intro equals hequals
  apply (skipped_gives hexpr hl hequals).bind
  intro body final hbody hfinal
  exact .ok (.lambda hpatterns hpattern (guard_grammatical hguard) hbody) hfinal

omit hexpr in
private theorem declaration_grammatical {start : Option Span} {target value declared : Expr}
    {guard : Option Expr} (ht : Grammatical .expression target)
    (hg : ∀ e ∈ guard, Grammatical .expression e) (hv : Grammatical .expression value)
    (h : declaration start target guard value = .ok declared) :
    Grammatical .statement declared := by
  rw [declaration.eq_def] at h
  split at h
  case h_1 callee patterns =>
    cases hp : requirePatterns start patterns with
    | error stop =>
      rw [hp] at h
      cases h
    | ok u =>
      rw [hp] at h
      cases h
      cases ht with
      | call hc hargs =>
        exact .function hc hargs (requirePatterns_ok hp) (guard_grammatical hg) hv
  case h_2 =>
    split at h
    · cases h
    · split at h
      case h_1 =>
        cases h
        exact .assign rfl ht rfl hv
      case h_5 => cases h
      all_goals
        cases hp : requirePatterns start _ with
        | error stop =>
          rw [hp] at h
          cases h
        | ok u =>
          rw [hp] at h
          cases h
          have hpattern := requirePatterns_ok hp
          rw [Expr.nonPatternAmong?, Expr.nonPatternAmong?, Option.or_none] at hpattern
          exact .assign rfl ht hpattern hv

private theorem statement_gives {tokens rest : Tokens} (hl : Lexical tokens)
    (hr : rest <:+ tokens) : Gives (Grammatical .statement) tokens (statement expr rest) := by
  apply (expr_gives hexpr hl hr).bind
  intro target more ht hm
  apply (guard?_gives hexpr hl hm).bind
  intro guard guarded hguard hguarded
  dsimp only
  split
  case h_1 equals hequals =>
    apply (skipped_gives hexpr hl ((eat?_suffix hequals).trans hguarded)).bind
    intro value final hvalue hfinal
    dsimp only
    cases hd : declaration (place rest) target guard value with
    | error stop => exact .error stop
    | ok declared => exact .ok (declaration_grammatical ht hguard hvalue hd) hfinal
  case h_2 =>
    split
    · exact .error _
    · exact .ok (.expression ht) hguarded

private theorem blockStatement_yields (statements : List Expr)
    (hs : ∀ s ∈ statements, Grammatical .statement s) :
    (blockStatement expr statements).Yields
      (Round.Holds (fun statements => ∀ s ∈ statements, Grammatical .statement s)
        (Grammatical .expression)) := by
  have hreverse {statements : List Expr} (h : ∀ s ∈ statements, Grammatical .statement s) :
      ∀ s ∈ statements.reverse, Grammatical .statement s :=
    fun s hmem => h s (List.mem_reverse.1 hmem)
  intro tokens hl
  rw [blockStatement]
  split
  case h_1 rest hrest => exact .ok (.block (hreverse hs)) (eat?_suffix hrest)
  case h_2 =>
    apply (statement_gives hexpr hl List.suffix_rfl).bind
    intro s rest hstatement hr
    have hall : ∀ t ∈ s :: statements, Grammatical .statement t := by simpa using ⟨hstatement, hs⟩
    have hdrop := (List.dropWhile_suffix (l := rest) isSeparator).trans hr
    dsimp only
    split
    case h_1 final hfinal => exact .ok (.block (hreverse hall)) ((eat?_suffix hfinal).trans hdrop)
    case h_2 =>
      split
      · exact .ok hall hdrop
      · exact .error _

private theorem block_gives {tokens rest : Tokens} (hl : Lexical tokens) (hr : rest <:+ tokens) :
    Gives (Grammatical .expression) tokens (block expr rest) := by
  have hskip := (skipNewlines_suffix rest).trans hr
  exact (iterate_yields (blockStatement_yields hexpr) (List.forall_mem_nil _) _
    (hl.suffix hskip)).extend hskip

omit hexpr in
private theorem int_grammatical {i : Int64} (h : 0 ≤ i.toInt) :
    Grammatical .expression (.int i) := by
  apply Grammatical.int
  intro hmin
  rw [hmin] at h
  exact absurd h (by decide)

omit hexpr in
private theorem neg_int_grammatical {i : Int64} (h : 0 ≤ i.toInt) :
    Grammatical .expression (.int (-i)) := by
  apply Grammatical.int
  intro hmin
  have hi : i = Int64.minValue := by
    rw [← Int64.neg_neg (a := i), hmin]
    decide
  rw [hi] at h
  exact absurd h (by decide)

omit hexpr in
private theorem text_grammatical (chars : List Char) : Grammatical .expression (.text chars) := by
  apply Grammatical.list
  intro e he
  obtain ⟨c, -, rfl⟩ := List.mem_map.1 he
  exact .char c

private theorem primary_yields : (primary expr).Yields (Grammatical .expression) := by
  intro tokens hl
  rw [primary.eq_def]
  cases tokens with
  | nil => exact .error _
  | cons next rest =>
    obtain ⟨t, span⟩ := next
    have hr : rest <:+ ⟨t, span⟩ :: rest := List.suffix_cons _ rest
    have hnext := hl ⟨t, span⟩ List.mem_cons_self
    cases t with
    | operator o =>
      dsimp only
      split
      case h_1 more hmore =>
        apply (arguments_gives hexpr hl ((eat?_suffix hmore).trans hr)).bind
        intro args final hargs hfinal
        exact .ok (.call (Or.inr ⟨o, rfl⟩) hargs) hfinal
      case h_2 => exact .error _
    | int i => exact .ok (int_grammatical hnext) hr
    | float x => exact .ok (.float x) hr
    | char c => exact .ok (.char c) hr
    | text chars => exact .ok (text_grammatical chars) hr
    | bool b => exact .ok (.bool b) hr
    | underscore => exact .ok .wildcard hr
    | identifier name =>
      dsimp only
      split
      case h_1 more hmore =>
        apply (arguments_gives hexpr hl ((eat?_suffix hmore).trans hr)).bind
        intro args final hargs hfinal
        exact .ok (.call (Or.inl hnext) hargs) hfinal
      case h_2 => exact .ok (.name hnext) hr
    | leftBracket => exact listLiteral_gives hexpr hl hr
    | leftParen => exact parenthesized_gives hexpr hl hr
    | doWord => exact block_gives hexpr hl hr
    | fnWord => exact lambda_gives hexpr hl hr
    | _ => exact .error _

omit hexpr in
private theorem methodName_gives {tokens rest : Tokens} (hl : Lexical tokens)
    (hr : rest <:+ tokens) : Gives IsIdentifier tokens (methodName rest) := by
  rw [methodName.eq_def]
  split
  case h_1 => exact .error _
  case h_2 next more =>
    split
    case h_1 name hname =>
      have hnext := hl next (hr.subset List.mem_cons_self)
      rw [hname] at hnext
      exact .ok hnext ((List.suffix_cons next more).trans hr)
    case h_2 => exact .error _

private theorem methodArguments_gives {tokens rest : Tokens} (hl : Lexical tokens)
    (hr : rest <:+ tokens) : Gives AllExpressions tokens (methodArguments expr rest) := by
  rw [methodArguments]
  split
  case h_1 more hmore => exact arguments_gives hexpr hl ((eat?_suffix hmore).trans hr)
  case h_2 => exact .ok (List.forall_mem_nil _) hr

private theorem postfixRound_yields (e : Expr) (he : Grammatical .expression e) :
    (postfixRound expr e).Yields
      (Round.Holds (Grammatical .expression) (Grammatical .expression)) := by
  intro tokens hl
  rw [postfixRound]
  split
  case h_1 rest hrest =>
    apply (arguments_gives hexpr hl (eat?_suffix hrest)).bind
    intro args final hargs hfinal
    exact .ok (.apply he hargs) hfinal
  case h_2 =>
    split
    case h_1 rest hrest =>
      apply (methodName_gives hl (eat?_suffix hrest)).bind
      intro method more hmethod hm
      apply (methodArguments_gives hexpr hl hm).bind
      intro args final hargs hfinal
      exact .ok (.call (Or.inl hmethod) (by simpa using ⟨he, hargs⟩)) hfinal
    case h_2 => exact .ok he List.suffix_rfl

private theorem postfixes_gives {tokens rest : Tokens} {e : Expr} (hl : Lexical tokens)
    (hr : rest <:+ tokens) (he : Grammatical .expression e) :
    Gives (Grammatical .expression) tokens (postfixes expr e rest) :=
  (iterate_yields (postfixRound_yields hexpr) he rest (hl.suffix hr)).extend hr

private theorem postfixed_yields : (postfixed expr).Yields (Grammatical .expression) := by
  intro tokens hl
  apply (primary_yields hexpr tokens hl).bind
  intro e rest he hr
  exact postfixes_gives hexpr hl hr he

private theorem unary_yields : (unary expr).Yields (Grammatical .expression) := by
  intro tokens hl
  have hprefix {symbol : String} {next : Located} {rest : Tokens} (o : Operator)
      (ho : o.symbol = symbol) (h : Gives (Grammatical .expression) rest (unary expr rest)) :
      Gives (Grammatical .expression) (next :: rest)
        (unary expr rest >>= fun read => .ok (.call symbol [read.1], read.2)) := by
    apply (h.extend (List.suffix_cons next rest)).bind
    intro e final he hfinal
    exact .ok (.call (Or.inr ⟨o, ho.symm⟩) (by simpa using he)) hfinal
  induction tokens with
  | nil => exact postfixed_yields hexpr [] hl
  | cons next rest ih =>
    have hoperand := ih (hl.suffix (List.suffix_cons next rest))
    rw [unary.eq_def]
    dsimp only
    split
    case h_1 =>
      split
      case h_1 => exact postfixed_yields hexpr _ hl
      case h_2 i span more =>
        have hi := hl ⟨.int i, span⟩ (by simp)
        exact postfixes_gives hexpr hl ((List.suffix_cons _ more).trans (List.suffix_cons _ _))
          (neg_int_grammatical hi)
      case h_3 span more =>
        exact postfixes_gives hexpr hl ((List.suffix_cons _ more).trans (List.suffix_cons _ _))
          (.float _)
      case h_4 => exact hprefix .minus rfl hoperand
    case h_2 =>
      split
      case h_1 => exact postfixed_yields hexpr _ hl
      case h_2 => exact hprefix .not rfl hoperand
    case h_3 => exact postfixed_yields hexpr _ hl

end Rules

private theorem operation_grammatical {left right : Expr} (o : Operator)
    (hl : Grammatical .expression left) (hr : Grammatical .expression right) :
    Grammatical .expression (operation left o right) := by
  apply Grammatical.call (Or.inr ⟨o, rfl⟩)
  intro e he
  rcases List.mem_cons.1 he with rfl | he
  · exact hl
  · cases List.mem_singleton.1 he
    exact hr

private theorem complete_grammatical (next : Operator) {right : Expr} {stack : Waiting}
    (hr : Grammatical .expression right) (hs : ∀ w ∈ stack, Grammatical .expression w.1) :
    (∀ w ∈ (complete next right stack).1, Grammatical .expression w.1) ∧
      Grammatical .expression (complete next right stack).2 := by
  induction stack generalizing right with
  | nil => exact ⟨hs, hr⟩
  | cons waiting stack ih =>
    obtain ⟨hw, hs⟩ := List.forall_mem_cons.1 hs
    rw [complete]
    split
    · exact ih (operation_grammatical waiting.2 hw hr) hs
    · exact ⟨List.forall_mem_cons.2 ⟨hw, hs⟩, hr⟩

private theorem completeAll_grammatical {right : Expr} {stack : Waiting}
    (hr : Grammatical .expression right) (hs : ∀ w ∈ stack, Grammatical .expression w.1) :
    Grammatical .expression (completeAll right stack) := by
  induction stack generalizing right with
  | nil => exact hr
  | cons waiting stack ih =>
    obtain ⟨hw, hs⟩ := List.forall_mem_cons.1 hs
    exact ih (operation_grammatical waiting.2 hw hr) hs

private theorem treeFrom_grammatical {stack : Waiting} {right : Expr}
    {chain : List (Operator × Expr)} (hs : ∀ w ∈ stack, Grammatical .expression w.1)
    (hr : Grammatical .expression right) (hc : ∀ link ∈ chain, Grammatical .expression link.2) :
    Grammatical .expression (treeFrom stack right chain) := by
  induction chain generalizing stack right with
  | nil => exact completeAll_grammatical hr hs
  | cons link chain ih =>
    obtain ⟨hlink, hc⟩ := List.forall_mem_cons.1 hc
    obtain ⟨hstack, hleft⟩ := complete_grammatical link.1 hr hs
    exact ih (List.forall_mem_cons.2 ⟨hleft, hstack⟩) hlink hc

private theorem chainRound_yields {operand : Reader Expr}
    (ho : operand.Yields (Grammatical .expression)) (links : List (Operator × Expr))
    (hc : ∀ link ∈ links, Grammatical .expression link.2) :
    (chainRound operand links).Yields
      (Round.Holds (fun links => ∀ link ∈ links, Grammatical .expression link.2)
        fun links => ∀ link ∈ links, Grammatical .expression link.2) := by
  have hreverse : ∀ link ∈ links.reverse, Grammatical .expression link.2 :=
    fun link hmem => hc link (List.mem_reverse.1 hmem)
  intro tokens hl
  rw [chainRound.eq_def]
  split
  case h_1 o span rest =>
    have hskip : skipNewlines rest <:+ ⟨.operator o, span⟩ :: rest :=
      (skipNewlines_suffix rest).trans (List.suffix_cons _ rest)
    split
    · apply ((ho _ (hl.suffix hskip)).extend hskip).bind
      intro e final he hfinal
      exact .ok (List.forall_mem_cons.2 ⟨he, hc⟩) hfinal
    · exact .ok hreverse List.suffix_rfl
  case h_2 => exact .ok hreverse List.suffix_rfl

private theorem chain_yields {operand : Reader Expr}
    (ho : operand.Yields (Grammatical .expression)) :
    (chain operand).Yields (Grammatical .expression) := by
  intro tokens hl
  apply (ho tokens hl).bind
  intro first rest hfirst hr
  apply ((iterate_yields (chainRound_yields ho) (List.forall_mem_nil _) rest
    (hl.suffix hr)).extend hr).bind
  intro links final hlinks hfinal
  exact .ok (treeFrom_grammatical (List.forall_mem_nil _) hfirst hlinks) hfinal

theorem expressionWithin_yields (depth : Nat) :
    (expressionWithin depth).Yields (Grammatical .expression) := by
  induction depth with
  | zero =>
    intro tokens _
    exact .error _
  | succ depth ih => exact chain_yields (unary_yields ih)

theorem expression_yields : expression.Yields (Grammatical .expression) :=
  fun tokens hl => expressionWithin_yields (tokens.length + 1) tokens hl

private theorem programStatement_yields (statements : List Expr)
    (hs : ∀ s ∈ statements, Grammatical .statement s) :
    (programStatement statements).Yields
      (Round.Holds (fun statements => ∀ s ∈ statements, Grammatical .statement s)
        fun statements => ∀ s ∈ statements, Grammatical .statement s) := by
  intro tokens hl
  rw [programStatement]
  split
  · exact .ok (fun s hmem => hs s (List.mem_reverse.1 hmem)) (List.nil_suffix)
  · apply (statement_gives expression_yields hl List.suffix_rfl).bind
    intro s rest hstatement hr
    have hall : ∀ t ∈ s :: statements, Grammatical .statement t := by simpa using ⟨hstatement, hs⟩
    dsimp only
    split
    · exact .ok hall List.nil_suffix
    · apply Gives.bind_expect hr
      intro final hfinal
      exact .ok hall ((skipNewlines_suffix final).trans hfinal)

theorem program_yields :
    program.Yields fun statements => ∀ s ∈ statements, Grammatical .statement s := by
  intro tokens hl
  have hskip := skipNewlines_suffix tokens
  exact (iterate_yields programStatement_yields (List.forall_mem_nil _) _
    (hl.suffix hskip)).extend hskip

theorem singleStatement_yields : singleStatement.Yields (Grammatical .statement) := by
  intro tokens hl
  apply (statement_gives expression_yields hl (skipNewlines_suffix tokens)).bind
  intro s rest hs hr
  dsimp only
  split
  · exact .ok hs List.nil_suffix
  · exact .error _

theorem readAll_property {P : α → Prop} {reader : Reader α} (hr : reader.Yields P)
    {source : List Char} {value : α} (h : readAll reader source = .ok value) : P value := by
  rw [readAll] at h
  split at h
  · cases h
  case h_2 tokens htokens =>
    split at h <;> cases h
    case h_2 rest hread => exact (hr tokens (tokenize_lexical htokens) value rest hread).1

end Song.Grammar

namespace Song

theorem parseProgram_grammatical {source : String} {program : List Expr}
    (h : parseProgram source = .ok program) : ∀ s ∈ program, Grammatical .statement s :=
  Grammar.readAll_property Grammar.program_yields h

theorem parseStatement_grammatical {source : String} {statement : Expr}
    (h : parseStatement source = .ok statement) : Grammatical .statement statement :=
  Grammar.readAll_property Grammar.singleStatement_yields h

/-- Expressions can be compared and errors cannot, so what a text is read as is decided this way. -/
theorem parseProgram_of_toOption {source : String} {program : List Expr}
    (h : (parseProgram source).toOption = some program) : parseProgram source = .ok program := by
  cases hparse : parseProgram source with
  | error e => simp [hparse, Except.toOption] at h
  | ok parsed =>
    rw [hparse] at h
    cases h
    rfl

end Song
