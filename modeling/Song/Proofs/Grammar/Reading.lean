import Song.Grammar.Program
import Song.Proofs.Expr.Tokens

/-!
# Reading tokens back

What it means that a reader takes exactly the given tokens, and which tokens may
come next. Each rule of the grammar takes the tokens that an expression of its
form is written with, if the reader it is given does so for the parts.
-/
namespace Song

namespace Token

def opens : Token → Bool
  | operator _ | int _ | float _ | char _ | text _ | bool _ | underscore | identifier _
  | leftBracket | leftParen | doWord | fnWord => true
  | _ => false

def closes : Token → Bool
  | rightParen | rightBracket | comma | bar | equals | whenWord | endWord => true
  | _ => false

/-- Whether a statement of a block comes to an end before the token. -/
def endsStatement : Token → Bool
  | comma | endWord => true
  | _ => false

theorem closes_of_endsStatement (t : Token) (h : t.endsStatement = true) : t.closes = true := by
  rw [endsStatement.eq_def] at h
  split at h
  · rfl
  · rfl
  · cases h

def isInfix : Token → Bool
  | operator o => o.isInfix
  | _ => false

end Token

namespace Grammar

variable {α β σ : Type}

/-- If anything comes next, it is a token of the kind. -/
def Follows (kind : Token → Bool) (rest : Tokens) : Prop :=
  ∀ next ∈ rest.head?, kind next.token = true

/-- The reader takes exactly the tokens `words` if a token of the kind comes next. -/
def Reads (reader : Reader α) (words : List Token) (value : α) (kind : Token → Bool) : Prop :=
  ∀ tokens rest, tokens.map Located.token = words → Follows kind rest →
    reader (tokens ++ rest) = .ok (value, rest)

section Follows

variable {kind : Token → Bool} {rest : Tokens}

theorem Follows.nil : Follows kind [] := by
  intro next hnext
  cases hnext

theorem Follows.cons {t : Token} (h : kind t = true) (span : Span) (rest : Tokens) :
    Follows kind (⟨t, span⟩ :: rest) := by
  intro next hnext
  cases hnext
  exact h

theorem Follows.mono {other : Token → Bool} (h : Follows kind rest)
    (hk : ∀ t, kind t = true → other t = true) : Follows other rest :=
  fun next hnext => hk _ (h next hnext)

theorem Follows.eat?_eq_none {t : Token} (h : Follows kind rest) (ht : kind t = false) :
    eat? t rest = none := by
  cases rest with
  | nil => rfl
  | cons next more =>
    rw [eat?, if_neg]
    rintro rfl
    rw [h next rfl] at ht
    cases ht

theorem Follows.skipNewlines_eq (h : Follows kind rest) (hk : kind .newline = false) :
    skipNewlines rest = rest := by
  cases rest with
  | nil => rfl
  | cons next more =>
    have hnext := h next rfl
    rw [skipNewlines, List.dropWhile_cons_of_neg]
    rw [decide_eq_true_eq]
    intro he
    rw [he, hk] at hnext
    cases hnext

theorem Follows.dropSeparators_eq (h : Follows kind rest) (hn : kind .newline = false)
    (hc : kind .comma = false) : rest.dropWhile isSeparator = rest := by
  cases rest with
  | nil => rfl
  | cons next more =>
    have hnext := h next rfl
    rw [List.dropWhile_cons_of_neg]
    rw [isSeparator, Bool.or_eq_true, decide_eq_true_eq, decide_eq_true_eq]
    rintro (he | he)
    · rw [he, hn] at hnext
      cases hnext
    · rw [he, hc] at hnext
      cases hnext

theorem eat?_cons (t : Token) (span : Span) (rest : Tokens) :
    eat? t (⟨t, span⟩ :: rest) = some rest :=
  if_pos rfl

theorem expect_cons (t : Token) (span : Span) (rest : Tokens) :
    expect t (⟨t, span⟩ :: rest) = .ok rest := by
  rw [expect, eat?_cons]

/-- Tokens that start a list of the tokens `t :: words`. -/
theorem map_token_cons {tokens : Tokens} {t : Token} {words : List Token}
    (h : tokens.map Located.token = t :: words) :
    ∃ span more, tokens = ⟨t, span⟩ :: more ∧ more.map Located.token = words := by
  obtain ⟨⟨token, span⟩, more, rfl, rfl, hmore⟩ := List.map_eq_cons_iff.1 h
  exact ⟨span, more, rfl, hmore⟩

theorem map_token_singleton {tokens : Tokens} {t : Token}
    (h : tokens.map Located.token = [t]) : ∃ span, tokens = [⟨t, span⟩] := by
  obtain ⟨span, more, rfl, hmore⟩ := map_token_cons h
  rw [List.map_eq_nil_iff] at hmore
  exact ⟨span, by rw [hmore]⟩

end Follows

/-- A repetition that comes to an end, where every round but the last takes a token. -/
inductive Runs (round : σ → Reader (Round σ β)) : σ → Tokens → β → Tokens → Prop
  | done {state : σ} {tokens rest : Tokens} {result : β}
    (h : round state tokens = .ok (.done result, rest)) : Runs round state tokens result rest
  | again {state next : σ} {tokens more rest : Tokens} {result : β}
    (h : round state tokens = .ok (.again next, more)) (hlt : more.length < tokens.length)
    (hmore : Runs round next more result rest) : Runs round state tokens result rest

theorem Runs.repeatAtMost_eq {round : σ → Reader (Round σ β)} {state : σ} {tokens rest : Tokens}
    {result : β} (h : Runs round state tokens result rest) {bound : Nat}
    (hb : tokens.length < bound) : repeatAtMost round bound state tokens = .ok (result, rest) := by
  induction h generalizing bound with
  | done h =>
    obtain _ | bound := bound
    · cases hb
    · rw [repeatAtMost, h]
  | again h hlt _ ih =>
    obtain _ | bound := bound
    · cases hb
    · rw [repeatAtMost, h]
      exact ih (by omega)

/-- The bound of a repetition is never reached. -/
theorem Runs.iterate_eq {round : σ → Reader (Round σ β)} {start : σ} {tokens rest : Tokens}
    {result : β} (h : Runs round start tokens result rest) :
    iterate round start tokens = .ok (result, rest) :=
  h.repeatAtMost_eq (Nat.lt_succ_self _)

/-- A reader goes on with what another one gave. -/
theorem bind_of_eq_ok {first : Except Stop (α × Tokens)} {next : α × Tokens → Except Stop β}
    {value : α} {rest : Tokens} (h : first = .ok (value, rest)) :
    (first >>= next) = next (value, rest) := by
  rw [h]
  rfl

theorem bind_expect_cons (t : Token) (span : Span) (rest : Tokens)
    (next : Tokens → Except Stop β) : (expect t (⟨t, span⟩ :: rest) >>= next) = next rest := by
  rw [expect_cons]
  rfl

def Starts (words : List Token) : Prop :=
  ∃ t ∈ words.head?, t.opens = true

theorem Starts.follows {words : List Token} (h : Starts words) {tokens : Tokens} {more : List Token}
    (ht : tokens.map Located.token = words ++ more) (rest : Tokens) :
    Follows Token.opens (tokens ++ rest) := by
  obtain ⟨t, hhead, hopens⟩ := h
  cases words with
  | nil => cases hhead
  | cons first later =>
    cases hhead
    obtain ⟨span, read, rfl, -⟩ := map_token_cons ht
    exact .cons hopens span _

theorem Starts.follows_self {words : List Token} (h : Starts words) {tokens : Tokens}
    (ht : tokens.map Located.token = words) (rest : Tokens) :
    Follows Token.opens (tokens ++ rest) :=
  h.follows (ht.trans (List.append_nil words).symm) rest

theorem Starts.append {words : List Token} (h : Starts words) (more : List Token) :
    Starts (words ++ more) := by
  cases words with
  | nil =>
    obtain ⟨t, hhead, -⟩ := h
    cases hhead
  | cons first later => exact h

theorem starts_separated {e : Expr} (h : Starts e.tokens) (items : List Expr) :
    Starts (Expr.separatedTokens (Expr.itemTokens (e :: items))) := by
  rw [Expr.itemTokens, Expr.separatedTokens]
  cases items with
  | nil =>
    rw [Expr.itemTokens, List.intercalate_singleton]
    exact h
  | cons next items =>
    rw [Expr.itemTokens, List.intercalate_cons_cons, List.append_assoc]
    exact h.append _

/-- A repetition over expressions with commas between them and `close` after the last one. -/
theorem runs_separated {round : List Expr → Reader (Round (List Expr) β)} {close : List Token}
    {f : List Expr → β} {items : List Expr} (hne : items ≠ [])
    (hstarts : ∀ e ∈ items, Starts e.tokens)
    (hagain : ∀ e ∈ items, ∀ read,
      Reads (round read) (e.tokens ++ [.comma]) (.again (e :: read)) Token.opens)
    (hdone : ∀ e ∈ items, ∀ read,
      Reads (round read) (e.tokens ++ close) (.done (f (e :: read).reverse)) fun _ => true)
    (read : List Expr) {tokens : Tokens} (rest : Tokens)
    (ht : tokens.map Located.token =
      Expr.separatedTokens (Expr.itemTokens items) ++ close) :
    Runs round read (tokens ++ rest) (f (read.reverse ++ items)) rest := by
  induction items generalizing read tokens with
  | nil => exact absurd rfl hne
  | cons e items ih =>
    obtain ⟨hstart, hstarts⟩ := List.forall_mem_cons.1 hstarts
    obtain ⟨hagain_e, hagain⟩ := List.forall_mem_cons.1 hagain
    obtain ⟨hdone_e, hdone⟩ := List.forall_mem_cons.1 hdone
    -- only the last item is followed by `close`
    cases items with
    | nil =>
      rw [Expr.itemTokens, Expr.itemTokens, Expr.separatedTokens,
        List.intercalate_singleton] at ht
      have h := hdone_e read tokens rest ht (fun _ _ => rfl)
      rw [List.reverse_cons] at h
      exact .done h
    | cons next items =>
      rw [Expr.itemTokens, Expr.itemTokens, Expr.separatedTokens, List.intercalate_cons_cons,
        List.append_assoc] at ht
      obtain ⟨first, later, rfl, hfirst, hlater⟩ := List.map_eq_append_iff.1 ht
      have hnext : Follows Token.opens (later ++ rest) :=
        (starts_separated (hstarts next List.mem_cons_self) items).follows hlater rest
      have hlength : first.length = e.tokens.length + 1 := by
        simpa using congrArg List.length hfirst
      have hmore := ih (List.cons_ne_nil next items) hstarts hagain hdone (e :: read) hlater
      rw [List.reverse_cons, List.append_assoc, List.singleton_append] at hmore
      rw [List.append_assoc]
      refine .again (hagain_e read first (later ++ rest) hfirst hnext) ?_ hmore
      rw [List.length_append, List.length_append, List.length_append, hlength]
      omega

/-! ### The rules -/

section Rules

variable {expr : Reader Expr}

/-- The reader reads the expression, and no closing token can be mistaken for its start. -/
def ReadsBack (expr : Reader Expr) (e : Expr) : Prop :=
  Starts e.tokens ∧ Reads expr e.tokens e Token.closes

/-- What an expression and the token after it leave. -/
theorem Reads.before {reader : Reader α} {words more : List Token} {value : α}
    {kind : Token → Bool} (h : Reads reader words value kind) {t : Token} (hk : kind t = true)
    {tokens : Tokens} (ht : tokens.map Located.token = words ++ t :: more) (rest : Tokens) :
    ∃ span later, later.map Located.token = more ∧
      reader (tokens ++ rest) = .ok (value, ⟨t, span⟩ :: (later ++ rest)) := by
  obtain ⟨first, last, rfl, hfirst, hlast⟩ := List.map_eq_append_iff.1 ht
  obtain ⟨span, later, rfl, hlater⟩ := map_token_cons hlast
  refine ⟨span, later, hlater, ?_⟩
  rw [List.append_assoc]
  exact h first _ hfirst (.cons hk span _)

theorem Reads.last {reader : Reader α} {words : List Token} {value : α}
    {kind : Token → Bool} (h : Reads reader words value kind) {t : Token} (hk : kind t = true)
    {tokens : Tokens} (ht : tokens.map Located.token = words ++ [t]) (rest : Tokens) :
    ∃ span, reader (tokens ++ rest) = .ok (value, ⟨t, span⟩ :: rest) := by
  obtain ⟨span, later, hlater, hread⟩ := h.before hk ht rest
  rw [List.map_eq_nil_iff.1 hlater] at hread
  exact ⟨span, hread⟩

theorem item_again {e : Expr} (he : ReadsBack expr e) (close : Token) (read : List Expr) :
    Reads (item expr close read) (e.tokens ++ [.comma]) (.again (e :: read)) Token.opens := by
  intro tokens rest ht hrest
  obtain ⟨span, hread⟩ := he.2.last rfl ht rest
  have hcomma : Follows Token.closes (⟨.comma, span⟩ :: rest) := .cons rfl span rest
  rw [item, bind_of_eq_ok hread]
  dsimp only
  rw [hcomma.skipNewlines_eq rfl, eat?_cons]
  dsimp only
  rw [hrest.skipNewlines_eq rfl]
  rfl

theorem item_done {e : Expr} (he : ReadsBack expr e) (read : List Expr) :
    Reads (item expr .rightParen read) (e.tokens ++ [.rightParen])
      (.done (e :: read).reverse) fun _ => true := by
  intro tokens rest ht _
  obtain ⟨span, hread⟩ := he.2.last rfl ht rest
  have hclose : Follows (· = .rightParen) (⟨.rightParen, span⟩ :: rest) := .cons rfl span rest
  rw [item, bind_of_eq_ok hread]
  dsimp only
  rw [hclose.skipNewlines_eq rfl, hclose.eat?_eq_none rfl]
  dsimp only
  rw [bind_expect_cons]
  rfl

theorem arguments_reads {args : List Expr} (h : ∀ e ∈ args, ReadsBack expr e) :
    Reads (arguments expr) (Expr.separatedTokens (Expr.itemTokens args) ++ [.rightParen]) args
      fun _ => true := by
  intro tokens rest ht _
  rw [arguments, items]
  cases args with
  | nil =>
    obtain ⟨span, rfl⟩ := map_token_singleton ht
    have hclose : Follows (· = .rightParen) (⟨.rightParen, span⟩ :: rest) := .cons rfl span rest
    rw [List.singleton_append, hclose.skipNewlines_eq rfl, eat?_cons]
  | cons e args =>
    have hstart : Follows Token.opens (tokens ++ rest) :=
      (starts_separated (h e List.mem_cons_self).1 args).follows ht rest
    rw [hstart.skipNewlines_eq rfl, hstart.eat?_eq_none rfl]
    have hagain := fun e he => item_again (h e he) .rightParen
    have hdone := fun e he => item_done (h e he)
    exact (runs_separated (f := id) (List.cons_ne_nil e args) (fun e he => (h e he).1) hagain hdone
      [] rest ht).iterate_eq

theorem listItem_again {e : Expr} (he : ReadsBack expr e) (read : List Expr) :
    Reads (listItem expr read) (e.tokens ++ [.comma]) (.again (e :: read)) Token.opens := by
  intro tokens rest ht hrest
  obtain ⟨span, hread⟩ := he.2.last rfl ht rest
  have hcomma : Follows (· = .comma) (⟨.comma, span⟩ :: rest) := .cons rfl span rest
  rw [listItem, bind_of_eq_ok hread]
  dsimp only
  rw [hcomma.skipNewlines_eq rfl, hcomma.eat?_eq_none rfl, eat?_cons]
  dsimp only
  rw [hrest.skipNewlines_eq rfl]
  rfl

theorem listItem_done {e : Expr} (he : ReadsBack expr e) (read : List Expr) :
    Reads (listItem expr read) (e.tokens ++ [.rightBracket])
      (.done (.list (e :: read).reverse)) fun _ => true := by
  intro tokens rest ht _
  obtain ⟨span, hread⟩ := he.2.last rfl ht rest
  have hclose : Follows (· = .rightBracket) (⟨.rightBracket, span⟩ :: rest) := .cons rfl span rest
  rw [listItem, bind_of_eq_ok hread]
  dsimp only
  rw [hclose.skipNewlines_eq rfl, hclose.eat?_eq_none rfl, hclose.eat?_eq_none rfl]
  dsimp only
  rw [bind_expect_cons]
  rfl

/-- The last leading item, with the list of the others after it. -/
theorem listItem_cons {e tail : Expr} (he : ReadsBack expr e) (htail : ReadsBack expr tail)
    (read : List Expr) :
    Reads (listItem expr read) (e.tokens ++ .bar :: (tail.tokens ++ [.rightBracket]))
      (.done (.cons (e :: read).reverse tail)) fun _ => true := by
  intro tokens rest ht _
  obtain ⟨span, later, hlater, hread⟩ := he.2.before rfl ht rest
  obtain ⟨last, htailRead⟩ := htail.2.last rfl hlater rest
  have hbar : Follows (· = .bar) (⟨.bar, span⟩ :: (later ++ rest)) := .cons rfl span _
  have hclose : Follows (· = .rightBracket) (⟨.rightBracket, last⟩ :: rest) := .cons rfl last rest
  rw [listItem, bind_of_eq_ok hread]
  dsimp only
  rw [hbar.skipNewlines_eq rfl, eat?_cons]
  dsimp only
  rw [(htail.1.follows hlater rest).skipNewlines_eq rfl, bind_of_eq_ok htailRead]
  dsimp only
  rw [hclose.skipNewlines_eq rfl, bind_expect_cons]
  rfl

/-- A list literal that is not empty, from how its last item is read. -/
theorem listLiteral_reads {items : List Expr} {close : List Token} {f : List Expr → Expr}
    (hne : items ≠ []) (h : ∀ e ∈ items, ReadsBack expr e)
    (hdone : ∀ e ∈ items, ∀ read, Reads (listItem expr read) (e.tokens ++ close)
      (.done (f (e :: read).reverse)) fun _ => true) :
    Reads (listLiteral expr) (Expr.separatedTokens (Expr.itemTokens items) ++ close) (f items)
      fun _ => true := by
  intro tokens rest ht _
  have hstart : Follows Token.opens (tokens ++ rest) := by
    cases items with
    | nil => exact absurd rfl hne
    | cons e items => exact (starts_separated (h e List.mem_cons_self).1 items).follows ht rest
  rw [listLiteral, hstart.skipNewlines_eq rfl, hstart.eat?_eq_none rfl]
  have hagain := fun e he => listItem_again (h e he)
  exact (runs_separated hne (fun e he => (h e he).1) hagain hdone [] rest ht).iterate_eq

theorem parenthesized_reads {e : Expr} (he : ReadsBack expr e) :
    Reads (parenthesized expr) (e.tokens ++ [.rightParen]) e fun _ => true := by
  intro tokens rest ht _
  obtain ⟨span, hread⟩ := he.2.last rfl ht rest
  have hclose : Follows (· = .rightParen) (⟨.rightParen, span⟩ :: rest) := .cons rfl span rest
  rw [parenthesized, (he.1.follows ht rest).skipNewlines_eq rfl, bind_of_eq_ok hread]
  dsimp only
  rw [hclose.skipNewlines_eq rfl, bind_expect_cons]
  rfl

def writtenGuard (guard : Expr) : Option Expr :=
  if guard.isGuard then some guard else none

theorem writtenGuard_getD (guard : Expr) : (writtenGuard guard).getD (.bool true) = guard := by
  rw [writtenGuard, Expr.isGuard.eq_def]
  split <;> rfl

theorem guard?_reads {guard : Expr} (hg : ReadsBack expr guard) {tokens : Tokens}
    {more : List Token}
    (ht : tokens.map Located.token = Expr.guardTokens guard guard.tokens ++ .equals :: more)
    (rest : Tokens) :
    ∃ span later, later.map Located.token = more ∧ Follows Token.closes (tokens ++ rest) ∧
      guard? expr (tokens ++ rest) =
        .ok (writtenGuard guard, ⟨.equals, span⟩ :: (later ++ rest)) := by
  rw [Expr.guardTokens] at ht
  rw [writtenGuard]
  split at ht
  case isTrue hguard =>
    obtain ⟨span, more, rfl, hmore⟩ := map_token_cons ht
    obtain ⟨equals, later, hlater, hread⟩ := hg.2.before rfl hmore rest
    refine ⟨equals, later, hlater, .cons rfl span _, ?_⟩
    rw [List.cons_append, guard?, eat?_cons, if_pos hguard]
    dsimp only
    rw [(hg.1.follows hmore rest).skipNewlines_eq rfl, bind_of_eq_ok hread]
    rfl
  case isFalse hguard =>
    obtain ⟨span, later, rfl, hlater⟩ := map_token_cons ht
    have hequals : Follows (· = .equals) (⟨.equals, span⟩ :: (later ++ rest)) := .cons rfl span _
    refine ⟨span, later, hlater, .cons rfl span _, ?_⟩
    rw [List.cons_append, guard?, hequals.eat?_eq_none rfl, if_neg hguard]

theorem bind_requirePatterns {patterns : List Expr} (h : Expr.nonPatternAmong? patterns = none)
    (start : Option Span) (next : Unit → Except Stop β) :
    (requirePatterns start patterns >>= next) = next () := by
  rw [requirePatterns, h]
  rfl

theorem lambda_reads {patterns : List Expr} {guard body : Expr}
    (hp : ∀ p ∈ patterns, ReadsBack expr p) (hpattern : Expr.nonPatternAmong? patterns = none)
    (hg : ReadsBack expr guard) (hb : ReadsBack expr body) :
    Reads (lambda expr)
      (Expr.enclosedTokens (Expr.separatedTokens (Expr.itemTokens patterns)) ++
        (Expr.guardTokens guard guard.tokens ++ .equals :: body.tokens))
      (.function ⟨none, patterns, guard, body⟩) Token.closes := by
  intro tokens rest ht hrest
  obtain ⟨span, opened, rfl, hopened⟩ := map_token_cons ht
  obtain ⟨params, declared, rfl, hparams, hdeclared⟩ := List.map_eq_append_iff.1 hopened
  obtain ⟨equals, later, hlater, -, hguard⟩ := guard?_reads hg hdeclared rest
  have hargs := arguments_reads hp params (declared ++ rest) hparams fun _ _ => rfl
  have hbody := hb.2 later rest hlater hrest
  have hstart := hb.1.follows_self hlater rest
  rw [lambda, List.cons_append, bind_expect_cons, List.append_assoc]
  dsimp only
  rw [bind_of_eq_ok hargs]
  dsimp only
  rw [bind_requirePatterns hpattern, bind_of_eq_ok hguard]
  dsimp only
  rw [bind_expect_cons, hstart.skipNewlines_eq rfl, bind_of_eq_ok hbody]
  dsimp only
  rw [clause, writtenGuard_getD]
  rfl

theorem guard?_none {kind : Token → Bool} {rest : Tokens} (h : Follows kind rest)
    (hk : kind .whenWord = false) : guard? expr rest = .ok (none, rest) := by
  rw [guard?, h.eat?_eq_none hk]

/-- A statement that is an expression. -/
theorem statement_expression {words : List Token} {e : Expr}
    (he : Reads expr words e Token.closes) :
    Reads (statement expr) words e Token.endsStatement := by
  intro tokens rest ht hrest
  have hread := he tokens rest ht (hrest.mono Token.closes_of_endsStatement)
  rw [statement, bind_of_eq_ok hread]
  dsimp only
  rw [bind_of_eq_ok (guard?_none hrest rfl)]
  dsimp only
  rw [hrest.eat?_eq_none rfl]
  rfl

/-- A declaration, from how its target and its guard are read. -/
theorem statement_declaration {words more : List Token} {target value declared : Expr}
    {g : Option Expr} (htarget : Reads expr words target Token.closes)
    (hguard : ∀ tokens rest, tokens.map Located.token = more → ∃ span later,
      later.map Located.token = value.tokens ∧
      Follows Token.closes (tokens ++ rest) ∧
      guard? expr (tokens ++ rest) = .ok (g, ⟨.equals, span⟩ :: (later ++ rest)))
    (hvalue : ReadsBack expr value)
    (hdeclared : ∀ start, declaration start target g value = .ok declared) :
    Reads (statement expr) (words ++ more) declared Token.endsStatement := by
  intro tokens rest ht hrest
  obtain ⟨first, last, rfl, hfirst, hlast⟩ := List.map_eq_append_iff.1 ht
  obtain ⟨span, later, hlater, hfollows, hguard⟩ := hguard last rest hlast
  have hread := htarget first (last ++ rest) hfirst hfollows
  have hbody := hvalue.2 later rest hlater (hrest.mono Token.closes_of_endsStatement)
  have hstart := hvalue.1.follows_self hlater rest
  rw [statement, List.append_assoc, bind_of_eq_ok hread]
  dsimp only
  rw [bind_of_eq_ok hguard]
  dsimp only
  rw [eat?_cons]
  dsimp only
  rw [hstart.skipNewlines_eq rfl, bind_of_eq_ok hbody]
  dsimp only
  rw [hdeclared]
  rfl

/-- An assignment to a name or a pattern. -/
theorem statement_assign {target value : Expr} (hshape : target.isTarget = true)
    (hpattern : Expr.nonPattern? target = none) (ht : ReadsBack expr target)
    (hv : ReadsBack expr value) :
    Reads (statement expr) (target.tokens ++ .equals :: value.tokens) (.assign target value)
      Token.endsStatement := by
  have hpatterns : Expr.nonPatternAmong? [target] = none := by
    rw [Expr.nonPatternAmong?, Expr.nonPatternAmong?, hpattern]
    rfl
  refine statement_declaration (g := none) ht.2 ?_ hv ?_
  · intro tokens rest hwords
    obtain ⟨span, later, rfl, hlater⟩ := map_token_cons hwords
    have hequals : Follows (· = .equals) (⟨.equals, span⟩ :: (later ++ rest)) := .cons rfl span _
    exact ⟨span, later, hlater, .cons rfl span _, guard?_none hequals rfl⟩
  · intro start
    rw [Expr.isTarget.eq_def] at hshape
    split at hshape
    · rfl
    · exact bind_requirePatterns hpatterns start _
    · exact bind_requirePatterns hpatterns start _
    · exact bind_requirePatterns hpatterns start _
    · cases hshape

/-- The declaration of a clause. -/
theorem statement_function {name : String} {words : List Token} {patterns : List Expr}
    {guard body : Expr} (ht : Reads expr words (.call name patterns) Token.closes)
    (hpattern : Expr.nonPatternAmong? patterns = none) (hg : ReadsBack expr guard)
    (hb : ReadsBack expr body) :
    Reads (statement expr)
      (words ++ (Expr.guardTokens guard guard.tokens ++ .equals :: body.tokens))
      (.function ⟨some name, patterns, guard, body⟩) Token.endsStatement := by
  refine statement_declaration (g := writtenGuard guard) ht ?_ hb ?_
  · intro tokens rest hwords
    exact guard?_reads hg hwords rest
  · intro start
    rw [declaration, bind_requirePatterns hpattern, clause, writtenGuard_getD]
    rfl

/-- The statement is read, and the end of a block cannot be mistaken for its start. -/
def ReadsStatement (expr : Reader Expr) (s : Expr) : Prop :=
  Starts s.tokens ∧ Reads (statement expr) s.tokens s Token.endsStatement

theorem blockStatement_again {s : Expr} (hs : ReadsStatement expr s) (read : List Expr) :
    Reads (blockStatement expr read) (s.tokens ++ [.comma]) (.again (s :: read)) Token.opens := by
  intro tokens rest ht hrest
  obtain ⟨span, hread⟩ := hs.2.last rfl ht rest
  have hdrop : List.dropWhile isSeparator (⟨.comma, span⟩ :: rest) = rest := by
    rw [List.dropWhile_cons_of_pos rfl, hrest.dropSeparators_eq rfl rfl]
  rw [blockStatement, (hs.1.follows ht rest).eat?_eq_none rfl]
  dsimp only
  rw [bind_of_eq_ok hread]
  dsimp only
  rw [hdrop, hrest.eat?_eq_none rfl]
  rfl

theorem blockStatement_done {s : Expr} (hs : ReadsStatement expr s) (read : List Expr) :
    Reads (blockStatement expr read) (s.tokens ++ [.endWord])
      (.done (.block (s :: read).reverse)) fun _ => true := by
  intro tokens rest ht _
  obtain ⟨span, hread⟩ := hs.2.last rfl ht rest
  have hend : Follows (· = .endWord) (⟨.endWord, span⟩ :: rest) := .cons rfl span rest
  rw [blockStatement, (hs.1.follows ht rest).eat?_eq_none rfl]
  dsimp only
  rw [bind_of_eq_ok hread]
  dsimp only
  rw [hend.dropSeparators_eq rfl rfl, eat?_cons]
  rfl

theorem block_reads {statements : List Expr} (h : ∀ s ∈ statements, ReadsStatement expr s) :
    Reads (block expr) (Expr.separatedTokens (Expr.itemTokens statements) ++ [.endWord])
      (.block statements) fun _ => true := by
  intro tokens rest ht _
  cases statements with
  | nil =>
    obtain ⟨span, rfl⟩ := map_token_singleton ht
    have hend : Follows (· = .endWord) (⟨.endWord, span⟩ :: rest) := .cons rfl span rest
    rw [block, List.singleton_append, hend.skipNewlines_eq rfl]
    apply Runs.iterate_eq
    apply Runs.done
    rw [blockStatement, eat?_cons]
    rfl
  | cons s statements =>
    have hstart : Follows Token.opens (tokens ++ rest) :=
      (starts_separated (h s List.mem_cons_self).1 statements).follows ht rest
    rw [block, hstart.skipNewlines_eq rfl]
    have hagain := fun s hs => blockStatement_again (h s hs)
    have hdone := fun s hs => blockStatement_done (h s hs)
    exact (runs_separated (List.cons_ne_nil s statements) (fun s hs => (h s hs).1) hagain hdone []
      rest ht).iterate_eq

end Rules
end Grammar
end Song
