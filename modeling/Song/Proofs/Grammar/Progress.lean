import Song.Proofs.Grammar.Soundness

/-!
# Readers take tokens

Every rule that reads an expression, a statement or a list takes at least one
token, and asks for one at the end of the tokens. So the bound of a repetition is
never met, and a repetition is its first round followed by the others.
-/
namespace Song.Grammar

variable {α β σ : Type}

/-- More tokens were wanted where there were none. -/
def Stop.IsAtEnd (stop : Stop) : Prop :=
  ∃ wanted, stop.fault = .unexpected wanted none

/-- The result of reading that came to the end of the tokens and wanted more. -/
def Waits (result : Except Stop α) : Prop :=
  ∃ stop, result = .error stop ∧ stop.IsAtEnd

/-- A fault is at the end of the tokens or at one of them. -/
def Placed : Except Stop α → Prop
  | .ok _ => True
  | .error stop => stop.IsAtEnd ∨ stop.place.isSome

abbrev Leaves (tokens : Tokens) (result : Except Stop (α × Tokens)) : Prop :=
  Gives (fun _ => True) tokens result

/-- The reader takes at least one token, and wants one where there is none. -/
structure Reader.Advances (reader : Reader α) : Prop where
  waits : Waits (reader [])
  leaves (tokens : Tokens) : Leaves tokens.tail (reader tokens)

theorem waits_unexpected (wanted : Expectation) :
    Waits (.error (unexpected wanted []) : Except Stop α) :=
  ⟨_, rfl, wanted, rfl⟩

theorem placed_unexpected (wanted : Expectation) (tokens : Tokens) :
    Placed (.error (unexpected wanted tokens) : Except Stop α) := by
  cases tokens with
  | nil => exact Or.inl ⟨wanted, rfl⟩
  | cons next rest => exact Or.inr rfl

theorem not_waits_ok (value : α) : ¬Waits (.ok value : Except Stop α) := by
  rintro ⟨stop, h, -⟩
  cases h

theorem Waits.bind {first : Except Stop α} (h : Waits first) (next : α → Except Stop β) :
    Waits (first >>= next) := by
  obtain ⟨stop, rfl, hend⟩ := h
  exact ⟨stop, rfl, hend⟩

theorem waits_expect (t : Token) : Waits (expect t []) :=
  waits_unexpected _

namespace Reader.Advances

variable {reader : Reader α}

theorem length_lt (h : reader.Advances) {tokens rest : Tokens} {value : α}
    (hr : reader tokens = .ok (value, rest)) : rest.length < tokens.length := by
  cases tokens with
  | nil => exact absurd (hr ▸ h.waits) (not_waits_ok _)
  | cons next more =>
    have hle := (h.leaves _ value rest hr).2.length_le
    simp only [List.tail_cons, List.length_cons] at hle ⊢
    omega

/-- A reader that starts with one that takes a token takes a token. -/
theorem bind {next : α × Tokens → Except Stop (β × Tokens)} (h : reader.Advances)
    (hn : ∀ value rest, Leaves rest (next (value, rest))) :
    Reader.Advances fun tokens => reader tokens >>= next where
  waits := h.waits.bind next
  leaves tokens := (h.leaves tokens).bind fun value rest _ hr => (hn value rest).extend hr

end Reader.Advances

theorem skipNewlines_tail_suffix (tokens : Tokens) :
    (skipNewlines tokens).tail <:+ tokens.tail := by
  cases tokens with
  | nil => exact List.suffix_rfl
  | cons next rest =>
    by_cases hn : next.token = .newline
    · rw [skipNewlines, List.dropWhile_cons_of_pos (by simpa using hn)]
      exact (List.tail_suffix _).trans (skipNewlines_suffix rest)
    · have hsame : skipNewlines (next :: rest) = next :: rest :=
        List.dropWhile_cons_of_neg (by simpa using hn)
      exact hsame.symm ▸ List.suffix_rfl

theorem eat?_suffix_tail {t : Token} {tokens rest : Tokens} (h : eat? t tokens = some rest) :
    rest <:+ tokens.tail := by
  obtain ⟨next, rfl, -⟩ := eat?_eq_some h
  exact List.suffix_rfl

/-- Every round leaves an end of its tokens, and takes a token if it is not the last one. -/
structure RoundAdvances (round : σ → Reader (Round σ β)) : Prop where
  leaves (state : σ) (tokens : Tokens) : Leaves tokens (round state tokens)
  again {state later : σ} {tokens rest : Tokens} :
    round state tokens = .ok (.again later, rest) → rest.length < tokens.length

theorem RoundAdvances.of_advances {round : σ → Reader (Round σ β)}
    (h : ∀ state, (round state).Advances) : RoundAdvances round where
  leaves state tokens := ((h state).leaves tokens).extend (List.tail_suffix tokens)
  again {state _ _ _} := (h state).length_lt

section Repetition

variable {round : σ → Reader (Round σ β)} (hround : RoundAdvances round)

include hround

theorem repeatAtMost_leaves (bound : Nat) (state : σ) (tokens : Tokens) :
    Leaves tokens (repeatAtMost round bound state tokens) := by
  induction bound generalizing state tokens with
  | zero => exact .error _
  | succ bound ih =>
    rw [repeatAtMost]
    split
    case h_1 => exact .error _
    case h_2 result rest h => exact .ok trivial (hround.leaves state tokens _ rest h).2
    case h_3 later rest h => exact (ih later rest).extend (hround.leaves state tokens _ rest h).2

/-- Any two bounds that are large enough are as good, and so are any two rounds that are the same on
the tokens that there are. -/
theorem repeatAtMost_congr {round' : σ → Reader (Round σ β)} {most : Nat}
    (h : ∀ state tokens, tokens.length ≤ most → round' state tokens = round state tokens)
    {bound bound' : Nat} (state : σ) {tokens : Tokens} (ht : tokens.length ≤ most)
    (hb : tokens.length < bound) (hb' : tokens.length < bound') :
    repeatAtMost round' bound' state tokens = repeatAtMost round bound state tokens := by
  induction bound generalizing bound' state tokens with
  | zero => omega
  | succ bound ih =>
    obtain _ | bound' := bound'
    · omega
    · rw [repeatAtMost, repeatAtMost, h state tokens ht]
      split
      case h_1 => rfl
      case h_2 => rfl
      case h_3 later rest hread =>
        have hlt := hround.again hread
        exact ih later (by omega) (by omega) (by omega)

theorem iterate_congr {round' : σ → Reader (Round σ β)} {most : Nat}
    (h : ∀ state tokens, tokens.length ≤ most → round' state tokens = round state tokens)
    (state : σ) {tokens : Tokens} (ht : tokens.length ≤ most) :
    iterate round' state tokens = iterate round state tokens :=
  repeatAtMost_congr hround h state ht (Nat.lt_succ_self _) (Nat.lt_succ_self _)

/-- A repetition is its first round, and the others if that was not the last one. -/
theorem iterate_eq (state : σ) (tokens : Tokens) :
    iterate round state tokens =
      match round state tokens with
      | .error stop => .error stop
      | .ok (.done result, rest) => .ok (result, rest)
      | .ok (.again later, rest) => iterate round later rest := by
  rw [iterate, repeatAtMost]
  split
  case h_1 h => rw [h]
  case h_2 h => rw [h]
  case h_3 later rest h =>
    rw [h]
    exact repeatAtMost_congr hround (fun _ _ _ => rfl) later (Nat.le_refl _) (Nat.lt_succ_self _)
      (hround.again h)

theorem iterate_leaves (state : σ) (tokens : Tokens) :
    Leaves tokens (iterate round state tokens) :=
  repeatAtMost_leaves hround _ state tokens

end Repetition

/-- A repetition takes a token if its first round does. -/
theorem iterate_advances {round : σ → Reader (Round σ β)} (h : ∀ state, (round state).Advances)
    (state : σ) : (iterate round state).Advances := by
  have hround := RoundAdvances.of_advances h
  constructor
  · obtain ⟨stop, hstop, hend⟩ := (h state).waits
    rw [iterate_eq hround, hstop]
    exact ⟨stop, rfl, hend⟩
  · intro tokens
    have hfirst := (h state).leaves tokens
    rw [iterate_eq hround]
    split
    case h_1 => exact .error _
    case h_2 result rest hr => exact .ok trivial (hfirst _ rest hr).2
    case h_3 later rest hr => exact (iterate_leaves hround later rest).extend (hfirst _ rest hr).2

/-- What stands before an operand: nothing, a sign that makes one number with its numeral, or an
operator that is called with the operand. -/
inductive Lead where
  | nothing
  | numeral (e : Expr)
  | called (symbol : String)

def Lead.of : Token → Option Token → Lead
  | .operator .minus, some .leftParen => .nothing
  | .operator .minus, some (.int i) => .numeral (.int (-i))
  | .operator .minus, some (.float x) => .numeral (.float (-x))
  | .operator .minus, _ => .called "-"
  | .operator .not, some .leftParen => .nothing
  | .operator .not, _ => .called "Not"
  | _, _ => .nothing

/-- A sign needs a numeral after it. -/
theorem Lead.of_none_ne_numeral (t : Token) (e : Expr) : Lead.of t none ≠ .numeral e := by
  intro h
  cases t with
  | operator o => cases o <;> cases h
  | _ => cases h

theorem Lead.eq_operator_of_called {t : Token} {next : Option Token} {symbol : String}
    (h : Lead.of t next = .called symbol) : ∃ o, t = .operator o := by
  cases t with
  | operator o => exact ⟨o, rfl⟩
  | _ => cases h

/-- A sign that makes one number with its numeral comes right before it. -/
theorem Lead.eq_minus_of_numeral {t : Token} {next : Option Token} {e : Expr}
    (h : Lead.of t next = .numeral e) :
    t = .operator .minus ∧ ((∃ i, next = some (.int i)) ∨ ∃ x, next = some (.float x)) := by
  rw [Lead.of.eq_def] at h
  split at h
  case h_2 i => exact ⟨rfl, Or.inl ⟨i, rfl⟩⟩
  case h_3 x => exact ⟨rfl, Or.inr ⟨x, rfl⟩⟩
  all_goals cases h

theorem unary_cons (expr : Reader Expr) (next : Located) (rest : Tokens) :
    unary expr (next :: rest) =
      match Lead.of next.token (rest.head?.map Located.token) with
      | .nothing => postfixed expr (next :: rest)
      | .numeral e => postfixes expr e rest.tail
      | .called symbol => unary expr rest >>= fun read => .ok (.call symbol [read.1], read.2) := by
  obtain ⟨t, span⟩ := next
  rw [unary.eq_def]
  cases t with
  | operator o =>
    cases o with
    | minus =>
      cases rest with
      | nil => rfl
      | cons after more =>
        obtain ⟨t, place⟩ := after
        cases t <;> rfl
    | not =>
      cases rest with
      | nil => rfl
      | cons after more =>
        obtain ⟨t, place⟩ := after
        cases t <;> rfl
    | _ => rfl
  | _ => rfl

/-! ### The rules -/

section Rules

variable {expr : Reader Expr} (hexpr : expr.Advances)

include hexpr

theorem skipped_leaves (tokens : Tokens) : Leaves tokens (expr (skipNewlines tokens)) :=
  ((hexpr.leaves _).extend (List.tail_suffix _)).extend (skipNewlines_suffix tokens)

theorem item_advances (close : Token) (items : List Expr) :
    (item expr close items).Advances := by
  apply hexpr.bind
  intro e rest
  have hskip := skipNewlines_suffix rest
  dsimp only
  split
  case h_1 more hmore =>
    exact .ok trivial ((skipNewlines_suffix more).trans ((eat?_suffix hmore).trans hskip))
  case h_2 => exact .bind_expect hskip fun more hmore => .ok trivial hmore

theorem items_advances (close : Token) : (items expr close).Advances := by
  have hiterate := iterate_advances (item_advances hexpr close) []
  constructor
  · exact hiterate.waits
  · intro tokens
    have hskip := skipNewlines_tail_suffix tokens
    rw [items]
    split
    case h_1 rest h => exact .ok trivial ((eat?_suffix_tail h).trans hskip)
    case h_2 => exact (hiterate.leaves _).extend hskip

theorem arguments_advances : (arguments expr).Advances :=
  items_advances hexpr .rightParen

theorem listItem_advances (heads : List Expr) : (listItem expr heads).Advances := by
  apply hexpr.bind
  intro e rest
  have hskip := skipNewlines_suffix rest
  dsimp only
  split
  case h_1 more hmore =>
    apply ((skipped_leaves hexpr more).extend ((eat?_suffix hmore).trans hskip)).bind
    intro tail last _ hlast
    apply Gives.bind_expect ((skipNewlines_suffix last).trans hlast)
    intro final hfinal
    exact .ok trivial hfinal
  case h_2 =>
    split
    case h_1 more hmore =>
      exact .ok trivial ((skipNewlines_suffix more).trans ((eat?_suffix hmore).trans hskip))
    case h_2 => exact .bind_expect hskip fun final hfinal => .ok trivial hfinal

theorem listLiteral_advances : (listLiteral expr).Advances := by
  have hiterate := iterate_advances (listItem_advances hexpr) []
  constructor
  · exact hiterate.waits
  · intro tokens
    have hskip := skipNewlines_tail_suffix tokens
    rw [listLiteral]
    split
    case h_1 rest h => exact .ok trivial ((eat?_suffix_tail h).trans hskip)
    case h_2 => exact (hiterate.leaves _).extend hskip

/-- What is read after empty lines takes a token. -/
theorem skipped_advances : Reader.Advances fun tokens => expr (skipNewlines tokens) where
  waits := hexpr.waits
  leaves tokens := (hexpr.leaves _).extend (skipNewlines_tail_suffix tokens)

theorem parenthesized_advances : (parenthesized expr).Advances := by
  apply (skipped_advances hexpr).bind
  intro e rest
  apply Gives.bind_expect (skipNewlines_suffix rest)
  intro final hfinal
  exact .ok trivial hfinal

theorem guard?_leaves (tokens : Tokens) : Leaves tokens (guard? expr tokens) := by
  rw [guard?]
  split
  case h_1 rest h =>
    apply ((skipped_leaves hexpr rest).extend (eat?_suffix h)).bind
    intro e final _ hfinal
    exact .ok trivial hfinal
  case h_2 => exact .ok trivial List.suffix_rfl

omit hexpr in
theorem requirePatterns_leaves {start : Option Span} {patterns : List Expr} {tokens : Tokens}
    {next : Unit → Except Stop (β × Tokens)} (hn : Leaves tokens (next ())) :
    Leaves tokens (requirePatterns start patterns >>= next) := by
  rw [requirePatterns]
  split
  · exact .error _
  · exact hn

theorem lambda_advances : (lambda expr).Advances where
  waits := (waits_expect .leftParen).bind _
  leaves tokens := by
    rw [lambda, expect]
    split
    case h_2 => exact .error _
    case h_1 opened hopened =>
      refine Gives.extend ?_ (eat?_suffix_tail hopened)
      apply (((arguments_advances hexpr).leaves opened).extend (List.tail_suffix _)).bind
      intro patterns closed _ hclosed
      apply requirePatterns_leaves
      apply ((guard?_leaves hexpr closed).extend hclosed).bind
      intro guard rest _ hrest
      apply Gives.bind_expect hrest
      intro equals hequals
      apply ((skipped_leaves hexpr equals).extend hequals).bind
      intro body final _ hfinal
      exact .ok trivial hfinal

theorem statement_advances : (statement expr).Advances := by
  constructor
  · exact hexpr.waits.bind _
  · intro tokens
    apply (hexpr.leaves tokens).bind
    intro target rest _ hrest
    apply ((guard?_leaves hexpr rest).extend hrest).bind
    intro guard more _ hmore
    dsimp only
    split
    case h_1 equals hequals =>
      apply ((skipped_leaves hexpr equals).extend ((eat?_suffix hequals).trans hmore)).bind
      intro value final _ hfinal
      dsimp only
      cases declaration (place tokens) target guard value with
      | error stop => exact .error stop
      | ok declared => exact .ok trivial hfinal
    case h_2 =>
      split
      · exact .error _
      · exact .ok trivial hmore

theorem blockStatement_advances (statements : List Expr) :
    (blockStatement expr statements).Advances := by
  have hstatement := statement_advances hexpr
  constructor
  · exact hstatement.waits.bind _
  · intro tokens
    rw [blockStatement]
    split
    case h_1 rest h => exact .ok trivial (eat?_suffix_tail h)
    case h_2 =>
      apply (hstatement.leaves tokens).bind
      intro s rest _ hrest
      have hdrop := (List.dropWhile_suffix (l := rest) isSeparator).trans hrest
      dsimp only
      split
      case h_1 final hfinal => exact .ok trivial ((eat?_suffix hfinal).trans hdrop)
      case h_2 =>
        split
        · exact .ok trivial hdrop
        · exact .error _

theorem block_advances : (block expr).Advances := by
  have hiterate := iterate_advances (blockStatement_advances hexpr) []
  exact ⟨hiterate.waits, fun tokens =>
    (hiterate.leaves _).extend (skipNewlines_tail_suffix tokens)⟩

theorem primary_advances : (primary expr).Advances := by
  constructor
  · exact waits_unexpected _
  · intro tokens
    rw [primary.eq_def]
    cases tokens with
    | nil => exact .error _
    | cons next rest =>
      obtain ⟨t, span⟩ := next
      have hself : rest <:+ (Located.mk t span :: rest).tail := List.suffix_rfl
      have hinside {reader : Reader Expr} (h : reader.Advances) : Leaves rest (reader rest) :=
        (h.leaves rest).extend (List.tail_suffix rest)
      have hcall {callee : String} {more : Tokens} (hmore : more <:+ rest) :
          Leaves rest (arguments expr more >>= fun read => .ok (Expr.call callee read.1, read.2)) :=
        ((((arguments_advances hexpr).leaves more).extend (List.tail_suffix more)).extend
          hmore).bind fun args final _ hfinal => .ok trivial hfinal
      cases t with
      | operator o =>
        dsimp only
        split
        case h_1 more hmore => exact hcall (eat?_suffix hmore)
        case h_2 => exact .error _
      | identifier name =>
        dsimp only
        split
        case h_1 more hmore => exact hcall (eat?_suffix hmore)
        case h_2 => exact .ok trivial hself
      | leftBracket => exact hinside (listLiteral_advances hexpr)
      | leftParen => exact hinside (parenthesized_advances hexpr)
      | doWord => exact hinside (block_advances hexpr)
      | fnWord => exact hinside (lambda_advances hexpr)
      | int | float | char | text | bool | underscore => exact .ok trivial hself
      | _ => exact .error _

omit hexpr in
theorem methodName_advances : methodName.Advances := by
  constructor
  · exact waits_unexpected _
  · intro tokens
    rw [methodName.eq_def]
    split
    case h_1 => exact .error _
    case h_2 next rest =>
      split
      · exact .ok trivial List.suffix_rfl
      · exact .error _

theorem methodArguments_leaves (tokens : Tokens) : Leaves tokens (methodArguments expr tokens) := by
  rw [methodArguments]
  split
  case h_1 rest h =>
    exact (((arguments_advances hexpr).leaves rest).extend (List.tail_suffix rest)).extend
      (eat?_suffix h)
  case h_2 => exact .ok trivial List.suffix_rfl

/-- A postfix takes tokens; without one the expression is left as it is. -/
theorem postfixRound_cases {e : Expr} {tokens rest : Tokens} {read : Round Expr Expr}
    (h : postfixRound expr e tokens = .ok (read, rest)) :
    (read = .done e ∧ rest = tokens) ∨ (rest <:+ tokens.tail ∧ tokens ≠ []) := by
  rw [postfixRound] at h
  split at h
  case h_1 more hmore =>
    have hne : tokens ≠ [] := by rintro rfl; cases hmore
    have hargs : Leaves tokens.tail (arguments expr more >>= fun read =>
        (.ok (.again (.apply e read.1), read.2) : Except Stop (Round Expr Expr × Tokens))) :=
      ((((arguments_advances hexpr).leaves more).extend (List.tail_suffix more)).extend
        (eat?_suffix_tail hmore)).bind fun args final _ hfinal => .ok trivial hfinal
    exact Or.inr ⟨(hargs _ _ h).2, hne⟩
  case h_2 =>
    split at h
    case h_1 more hmore =>
      have hne : tokens ≠ [] := by rintro rfl; cases hmore
      have hname := ((methodName_advances.leaves more).extend (List.tail_suffix more)).extend
        (eat?_suffix_tail hmore)
      have hmethod : Leaves tokens.tail (methodName more >>= fun read =>
          methodArguments expr read.2 >>= fun args =>
            (.ok (.again (.call read.1 (e :: args.1)), args.2) :
              Except Stop (Round Expr Expr × Tokens))) :=
        hname.bind fun method after _ hafter =>
          ((methodArguments_leaves hexpr after).extend hafter).bind
            fun args final _ hfinal => .ok trivial hfinal
      exact Or.inr ⟨(hmethod _ _ h).2, hne⟩
    case h_2 =>
      cases h
      exact Or.inl ⟨rfl, rfl⟩

theorem postfixRound_advances : RoundAdvances (postfixRound expr) := by
  constructor
  · intro e tokens read rest h
    rcases postfixRound_cases hexpr h with ⟨-, rfl⟩ | ⟨hrest, -⟩
    · exact ⟨trivial, List.suffix_rfl⟩
    · exact ⟨trivial, hrest.trans (List.tail_suffix tokens)⟩
  · intro e later tokens rest h
    rcases postfixRound_cases hexpr h with ⟨hdone, -⟩ | ⟨hrest, hne⟩
    · cases hdone
    · have hle := hrest.length_le
      have hpos := List.length_pos_iff.2 hne
      rw [List.length_tail] at hle
      omega

theorem postfixes_leaves (e : Expr) (tokens : Tokens) :
    Leaves tokens (postfixes expr e tokens) :=
  iterate_leaves (postfixRound_advances hexpr) e tokens

theorem postfixed_advances : (postfixed expr).Advances :=
  (primary_advances hexpr).bind (postfixes_leaves hexpr)

theorem unary_advances : (unary expr).Advances := by
  have hpostfixed := postfixed_advances hexpr
  constructor
  · exact hpostfixed.waits
  · intro tokens
    induction tokens with
    | nil => exact hpostfixed.leaves []
    | cons next rest ih =>
      rw [unary_cons]
      split
      case h_1 => exact hpostfixed.leaves _
      case h_2 => exact (postfixes_leaves hexpr _ _).extend (List.tail_suffix rest)
      case h_3 =>
        apply (ih.extend (List.tail_suffix rest)).bind
        intro e final _ hfinal
        exact .ok trivial hfinal

end Rules

section Chain

variable {operand : Reader Expr} (hoperand : operand.Advances)

include hoperand

theorem chainRound_advances : RoundAdvances (chainRound operand) := by
  have hround (links : List (Operator × Expr)) (o : Operator) (span : Span) (rest : Tokens) :
      Leaves rest (operand (skipNewlines rest) >>= fun read =>
        (.ok (.again ((o, read.1) :: links), read.2) :
          Except Stop (Round (List (Operator × Expr)) (List (Operator × Expr)) × Tokens))) :=
    (skipped_leaves hoperand rest).bind fun e final _ hfinal => .ok trivial hfinal
  constructor
  · intro links tokens
    rw [chainRound.eq_def]
    split
    case h_1 o span rest =>
      split
      · exact (hround links o span rest).extend (List.suffix_cons _ rest)
      · exact .ok trivial List.suffix_rfl
    case h_2 => exact .ok trivial List.suffix_rfl
  · intro links later tokens left h
    rw [chainRound.eq_def] at h
    split at h
    case h_1 o span rest =>
      split at h
      · have hle := (hround links o span rest _ _ h).2.length_le
        rw [List.length_cons]
        omega
      · cases h
    case h_2 => cases h

theorem chain_advances : (chain operand).Advances := by
  apply hoperand.bind
  intro first rest
  apply (iterate_leaves (chainRound_advances hoperand) [] rest).bind
  intro links final _ hfinal
  exact .ok trivial hfinal

end Chain

theorem expressionWithin_advances (depth : Nat) : (expressionWithin depth).Advances := by
  induction depth with
  | zero => exact ⟨waits_unexpected _, fun _ => .error _⟩
  | succ depth ih => exact chain_advances (unary_advances ih)

end Song.Grammar
