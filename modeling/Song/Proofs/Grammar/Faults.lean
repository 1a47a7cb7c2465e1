import Song.Proofs.Grammar.Joined
import Song.Proofs.Source.Position

/-!
# Where syntax errors are

A fault of the grammar is at one of the tokens, and the fault that no more tokens came is at the
end of the text. So the span of a syntax error is that of a part of the text, and its line and its
column lead to where that part starts.
-/
namespace Song

namespace Grammar

variable {α β σ : Type}

/-- The fault is at one of the tokens, and at none of them if more tokens were wanted. -/
structure Stop.IsAmong (tokens : Tokens) (stop : Stop) : Prop where
  place : ∀ span ∈ stop.place, ∃ t ∈ tokens, t.span = span
  atEnd : stop.IsAtEnd → stop.place = none

/-- What is left over is an end of the tokens, or the fault is among them. -/
def StopsAmong (tokens : Tokens) : Except Stop (α × Tokens) → Prop
  | .ok (_, rest) => rest <:+ tokens
  | .error stop => stop.IsAmong tokens

/-- The reader goes wrong at one of the tokens that it is given, or at their end. -/
def Reader.StopsAmong (reader : Reader α) : Prop :=
  ∀ tokens, Grammar.StopsAmong tokens (reader tokens)

theorem place_subset {tokens rest : Tokens} (h : rest <:+ tokens) :
    ∀ span ∈ place rest, ∃ t ∈ tokens, t.span = span := by
  intro span hspan
  obtain ⟨t, ht, rfl⟩ := Option.mem_map.1 hspan
  exact ⟨t, h.subset (List.mem_of_mem_head? ht), rfl⟩

/-- A fault of another kind than a missing token. -/
theorem Stop.isAmong_of_fault {tokens : Tokens} {fault : SyntaxFault} {start : Option Span}
    (hs : ∀ span ∈ start, ∃ t ∈ tokens, t.span = span)
    (hf : ∀ wanted, fault ≠ .unexpected wanted none) : Stop.IsAmong tokens ⟨fault, start⟩ where
  place := hs
  atEnd := fun ⟨wanted, h⟩ => absurd h (hf wanted)

theorem targetFault?_ne_unexpected {target : Expr} {guarded : Bool} (wanted : Expectation)
    (found : Option Token) : targetFault? target guarded ≠ some (.unexpected wanted found) := by
  rw [targetFault?.eq_def]
  split
  · simp
  · split
    · simp
    · split <;> simp

namespace StopsAmong

variable {tokens more rest : Tokens}

theorem unexpected (wanted : Expectation) (h : rest <:+ tokens) :
    StopsAmong tokens (.error (unexpected wanted rest) : Except Stop (α × Tokens)) where
  place := place_subset h
  atEnd := by
    rintro ⟨_, hfault⟩
    cases rest with
    | nil => rfl
    | cons next rest => cases hfault

theorem extend {result : Except Stop (α × Tokens)} (h : StopsAmong tokens result)
    (ht : tokens <:+ more) : StopsAmong more result := by
  match result with
  | .ok _ => exact List.IsSuffix.trans h ht
  | .error stop =>
    refine ⟨?_, h.atEnd⟩
    intro span hspan
    obtain ⟨t, hmem, rfl⟩ := h.place span hspan
    exact ⟨t, ht.subset hmem, rfl⟩

theorem bind {first : Except Stop (α × Tokens)} {next : α × Tokens → Except Stop (β × Tokens)}
    (h : StopsAmong tokens first)
    (hn : ∀ value rest, rest <:+ tokens → StopsAmong tokens (next (value, rest))) :
    StopsAmong tokens (first >>= next) := by
  match first with
  | .ok (value, rest) => exact hn value rest h
  | .error _ => exact ⟨h.place, h.atEnd⟩

theorem bind_expect {t : Token} {next : Tokens → Except Stop (β × Tokens)} (hm : more <:+ tokens)
    (hn : ∀ rest, rest <:+ tokens → StopsAmong tokens (next rest)) :
    StopsAmong tokens (expect t more >>= next) := by
  rw [expect]
  split
  case h_1 rest hrest => exact hn rest ((eat?_suffix hrest).trans hm)
  case h_2 => exact unexpected _ hm

/-- Patterns are at fault where they start. -/
theorem bind_requirePatterns {patterns : List Expr} {next : Unit → Except Stop (β × Tokens)}
    (hm : more <:+ tokens) (hn : StopsAmong tokens (next ())) :
    StopsAmong tokens (requirePatterns (place more) patterns >>= next) := by
  rw [requirePatterns]
  split
  · apply Stop.isAmong_of_fault (place_subset hm)
    rintro wanted ⟨⟩
  · exact hn

/-- A declaration is at fault where it starts. -/
theorem bind_declaration {target value : Expr} {guard : Option Expr}
    {next : Expr → Except Stop (β × Tokens)} (hm : more <:+ tokens)
    (hn : ∀ declared, StopsAmong tokens (next declared)) :
    StopsAmong tokens (declaration (place more) target guard value >>= next) := by
  rw [declaration_eq]
  split
  case h_1 fault h =>
    apply Stop.isAmong_of_fault (place_subset hm)
    intro wanted hfault
    exact targetFault?_ne_unexpected wanted none (hfault ▸ h)
  case h_2 => exact hn _

end StopsAmong

theorem iterate_stopsAmong {round : σ → Reader (Round σ β)}
    (h : ∀ state, (round state).StopsAmong) (start : σ) : (iterate round start).StopsAmong := by
  have hrepeat (bound : Nat) (state : σ) : (repeatAtMost round bound state).StopsAmong := by
    induction bound generalizing state with
    | zero => exact fun tokens => .unexpected _ List.suffix_rfl
    | succ bound ih =>
      intro tokens
      have hround := h state tokens
      rw [repeatAtMost]
      split
      case h_1 stop hstop => rwa [hstop] at hround
      case h_2 result rest hrest => rwa [hrest] at hround
      case h_3 next rest hrest =>
        rw [hrest] at hround
        exact (ih next rest).extend hround
  intro tokens
  exact hrepeat _ start tokens

section Rules

variable {expr : Reader Expr} (hexpr : expr.StopsAmong) {tokens rest : Tokens}

include hexpr

theorem skipped_stopsAmong (hr : rest <:+ tokens) :
    StopsAmong tokens (expr (skipNewlines rest)) :=
  (hexpr _).extend ((skipNewlines_suffix rest).trans hr)

theorem item_stopsAmong (close : Token) (items : List Expr) :
    (item expr close items).StopsAmong := by
  intro tokens
  apply (hexpr tokens).bind
  intro e rest hr
  have hskip := (skipNewlines_suffix rest).trans hr
  dsimp only
  split
  case h_1 more hmore =>
    exact (skipNewlines_suffix more).trans ((eat?_suffix hmore).trans hskip)
  case h_2 => exact .bind_expect hskip fun more hmore => hmore

theorem items_stopsAmong (close : Token) : (items expr close).StopsAmong := by
  intro tokens
  have hskip := skipNewlines_suffix tokens
  rw [items]
  split
  case h_1 rest hrest => exact (eat?_suffix hrest).trans hskip
  case h_2 => exact (iterate_stopsAmong (item_stopsAmong hexpr close) [] _).extend hskip

theorem arguments_stopsAmong (hr : rest <:+ tokens) :
    StopsAmong tokens (arguments expr rest) :=
  (items_stopsAmong hexpr .rightParen rest).extend hr

theorem listItem_stopsAmong (heads : List Expr) : (listItem expr heads).StopsAmong := by
  intro tokens
  apply (hexpr tokens).bind
  intro e rest hr
  have hskip := (skipNewlines_suffix rest).trans hr
  dsimp only
  split
  case h_1 more hmore =>
    apply (skipped_stopsAmong hexpr ((eat?_suffix hmore).trans hskip)).bind
    intro tail last hlast
    apply StopsAmong.bind_expect ((skipNewlines_suffix last).trans hlast)
    intro final hfinal
    exact hfinal
  case h_2 =>
    split
    case h_1 more hmore =>
      exact (skipNewlines_suffix more).trans ((eat?_suffix hmore).trans hskip)
    case h_2 => exact .bind_expect hskip fun final hfinal => hfinal

theorem listLiteral_stopsAmong : (listLiteral expr).StopsAmong := by
  intro tokens
  have hskip := skipNewlines_suffix tokens
  rw [listLiteral]
  split
  case h_1 rest hrest => exact (eat?_suffix hrest).trans hskip
  case h_2 => exact (iterate_stopsAmong (listItem_stopsAmong hexpr) [] _).extend hskip

theorem parenthesized_stopsAmong : (parenthesized expr).StopsAmong := by
  intro tokens
  apply (skipped_stopsAmong hexpr List.suffix_rfl).bind
  intro e rest hr
  apply StopsAmong.bind_expect ((skipNewlines_suffix rest).trans hr)
  intro final hfinal
  exact hfinal

theorem guard?_stopsAmong (hr : rest <:+ tokens) : StopsAmong tokens (guard? expr rest) := by
  rw [guard?]
  split
  case h_1 more hmore =>
    have hbehind := (eat?_suffix hmore).trans hr
    exact (skipped_stopsAmong hexpr hbehind).bind fun e final hfinal => hfinal
  case h_2 => exact hr

theorem lambda_stopsAmong : (lambda expr).StopsAmong := by
  intro tokens
  apply StopsAmong.bind_expect List.suffix_rfl
  intro opened hopened
  apply (arguments_stopsAmong hexpr hopened).bind
  intro patterns closed hclosed
  apply StopsAmong.bind_requirePatterns hopened
  apply (guard?_stopsAmong hexpr hclosed).bind
  intro guard guarded hguarded
  apply StopsAmong.bind_expect hguarded
  intro equals hequals
  exact (skipped_stopsAmong hexpr hequals).bind fun body final hfinal => hfinal

theorem statement_stopsAmong : (statement expr).StopsAmong := by
  intro tokens
  apply (hexpr tokens).bind
  intro target rest hr
  apply (guard?_stopsAmong hexpr hr).bind
  intro guard guarded hguarded
  dsimp only
  split
  case h_1 equals hequals =>
    apply (skipped_stopsAmong hexpr ((eat?_suffix hequals).trans hguarded)).bind
    intro value final hfinal
    exact .bind_declaration List.suffix_rfl fun declared => hfinal
  case h_2 =>
    split
    · exact .unexpected _ hguarded
    · exact hguarded

theorem blockStatement_stopsAmong (statements : List Expr) :
    (blockStatement expr statements).StopsAmong := by
  intro tokens
  rw [blockStatement]
  split
  case h_1 rest hrest => exact eat?_suffix hrest
  case h_2 =>
    apply (statement_stopsAmong hexpr tokens).bind
    intro s rest hr
    have hdrop := (List.dropWhile_suffix (l := rest) isSeparator).trans hr
    dsimp only
    split
    case h_1 final hfinal => exact (eat?_suffix hfinal).trans hdrop
    case h_2 =>
      split
      · exact hdrop
      · exact .unexpected _ hr

theorem block_stopsAmong : (block expr).StopsAmong :=
  fun tokens => (iterate_stopsAmong (blockStatement_stopsAmong hexpr) [] _).extend
    (skipNewlines_suffix tokens)

theorem primary_stopsAmong : (primary expr).StopsAmong := by
  intro tokens
  cases tokens with
  | nil => exact .unexpected _ List.suffix_rfl
  | cons next rest =>
    obtain ⟨t, span⟩ := next
    have hrest : rest <:+ ⟨t, span⟩ :: rest := List.suffix_cons _ _
    have hcall {callee : String} {more : Tokens} (hmore : more <:+ rest) :
        StopsAmong (⟨t, span⟩ :: rest)
          (arguments expr more >>= fun read => .ok (Expr.call callee read.1, read.2)) :=
      (arguments_stopsAmong hexpr (hmore.trans hrest)).bind fun args final hfinal => hfinal
    rw [primary.eq_def]
    cases t with
    | operator o =>
      dsimp only
      split
      case h_1 more hmore => exact hcall (eat?_suffix hmore)
      case h_2 => exact .unexpected _ List.suffix_rfl
    | identifier name =>
      dsimp only
      split
      case h_1 more hmore => exact hcall (eat?_suffix hmore)
      case h_2 => exact hrest
    | leftBracket => exact (listLiteral_stopsAmong hexpr rest).extend hrest
    | leftParen => exact (parenthesized_stopsAmong hexpr rest).extend hrest
    | doWord => exact (block_stopsAmong hexpr rest).extend hrest
    | fnWord => exact (lambda_stopsAmong hexpr rest).extend hrest
    | int | float | char | text | bool | underscore => exact hrest
    | _ => exact .unexpected _ List.suffix_rfl

omit hexpr in
theorem methodName_stopsAmong : methodName.StopsAmong := by
  intro tokens
  rw [methodName.eq_def]
  split
  case h_1 => exact .unexpected _ List.suffix_rfl
  case h_2 next rest =>
    split
    · exact List.suffix_cons next rest
    · exact .unexpected _ List.suffix_rfl

theorem methodArguments_stopsAmong (hr : rest <:+ tokens) :
    StopsAmong tokens (methodArguments expr rest) := by
  rw [methodArguments]
  split
  case h_1 more hmore => exact arguments_stopsAmong hexpr ((eat?_suffix hmore).trans hr)
  case h_2 => exact hr

theorem postfixRound_stopsAmong (e : Expr) : (postfixRound expr e).StopsAmong := by
  intro tokens
  rw [postfixRound]
  split
  case h_1 rest hrest =>
    apply (arguments_stopsAmong hexpr (eat?_suffix hrest)).bind
    intro args final hfinal
    exact hfinal
  case h_2 =>
    split
    case h_1 rest hrest =>
      have hname := (methodName_stopsAmong rest).extend (eat?_suffix hrest)
      apply hname.bind
      intro name more hmore
      apply (methodArguments_stopsAmong hexpr hmore).bind
      intro args final hfinal
      exact hfinal
    case h_2 => exact List.suffix_rfl

theorem postfixes_stopsAmong (e : Expr) : (postfixes expr e).StopsAmong :=
  iterate_stopsAmong (postfixRound_stopsAmong hexpr) e

theorem postfixed_stopsAmong : (postfixed expr).StopsAmong :=
  fun tokens => (primary_stopsAmong hexpr tokens).bind fun e rest hr =>
    (postfixes_stopsAmong hexpr e rest).extend hr

theorem unary_stopsAmong : (unary expr).StopsAmong := by
  intro tokens
  induction tokens with
  | nil => exact postfixed_stopsAmong hexpr []
  | cons next rest ih =>
    have hrest : rest <:+ next :: rest := List.suffix_cons _ _
    rw [unary_cons]
    split
    case h_1 => exact postfixed_stopsAmong hexpr _
    case h_2 => exact (postfixes_stopsAmong hexpr _ _).extend ((List.tail_suffix rest).trans hrest)
    case h_3 => exact (ih.extend hrest).bind fun e final hfinal => hfinal

/-- The rule of chains, whatever its operands are. -/
theorem chain_stopsAmong : (chain expr).StopsAmong := by
  have hround (links : List (Operator × Expr)) : (chainRound expr links).StopsAmong := by
    intro tokens
    rw [chainRound.eq_def]
    split
    case h_1 o span rest =>
      split
      · apply (skipped_stopsAmong hexpr (List.suffix_cons _ rest)).bind
        intro e final hfinal
        exact hfinal
      · exact List.suffix_rfl
    case h_2 => exact List.suffix_rfl
  intro tokens
  apply (hexpr tokens).bind
  intro first rest hr
  apply ((iterate_stopsAmong hround [] rest).extend hr).bind
  intro links final hfinal
  exact hfinal

end Rules

theorem expressionWithin_stopsAmong (depth : Nat) : (expressionWithin depth).StopsAmong := by
  induction depth with
  | zero => exact fun tokens => .unexpected _ List.suffix_rfl
  | succ depth ih => exact chain_stopsAmong (unary_stopsAmong ih)

theorem expression_stopsAmong : expression.StopsAmong :=
  fun tokens => expressionWithin_stopsAmong _ tokens

theorem program_stopsAmong : program.StopsAmong := by
  have hround (read : List Expr) : (programStatement read).StopsAmong := by
    intro tokens
    rw [programStatement]
    split
    · exact List.nil_suffix
    · apply (statement_stopsAmong expression_stopsAmong tokens).bind
      intro s rest hr
      dsimp only
      split
      · exact List.nil_suffix
      · apply StopsAmong.bind_expect hr
        intro final hfinal
        exact (skipNewlines_suffix final).trans hfinal
  intro tokens
  exact (iterate_stopsAmong hround [] _).extend (skipNewlines_suffix tokens)

theorem singleStatement_stopsAmong : singleStatement.StopsAmong := by
  intro tokens
  have hskip := skipNewlines_suffix tokens
  apply ((statement_stopsAmong expression_stopsAmong _).extend hskip).bind
  intro s rest hr
  dsimp only
  split
  · exact List.nil_suffix
  · exact .unexpected _ ((skipNewlines_suffix rest).trans hr)

/-- The error is about a part of the text, and the want of more tokens about its end. -/
structure IsPlaced (source : List Char) (e : SyntaxError) : Prop where
  isPartOf : e.span.IsPartOf source
  atEnd : ∀ wanted, e.fault = .unexpected wanted none → e.span = Span.point (byteLength source)

theorem readAll_isPlaced {reader : Reader α} (h : reader.StopsAmong) {source : List Char}
    {e : SyntaxError} (he : readAll reader source = .error e) : IsPlaced source e := by
  rw [readAll] at he
  split at he
  case h_1 error herror =>
    cases he
    refine ⟨tokenize_error_isPartOf herror, ?_⟩
    rintro wanted ⟨⟩
  case h_2 tokens htokens =>
    split at he
    case h_2 => cases he
    case h_1 stop hstop =>
      cases he
      have hstops := h tokens
      rw [hstop] at hstops
      constructor
      · rw [Stop.toError]
        cases hplace : stop.place with
        | none => exact .atEnd source
        | some span =>
          obtain ⟨t, ht, rfl⟩ := hstops.place span hplace
          exact tokenize_isPartOf htokens t ht
      · intro wanted hwanted
        rw [Stop.toError, hstops.atEnd ⟨wanted, hwanted⟩]
        rfl

end Grammar

/-- The span of a syntax error is in order, within the text and between characters; where more
text was wanted it is at the end. The line and the column of the error are those of where its span
starts. -/
theorem syntaxError_located {source : String} {e : SyntaxError}
    (h : parseProgram source = .error e ∨ parseStatement source = .error e) :
    e.span.start ≤ e.span.stop ∧ e.span.stop ≤ source.utf8ByteSize ∧
    IsBoundary source.toList e.span.start ∧ IsBoundary source.toList e.span.stop ∧
    (∀ wanted, e.fault = .unexpected wanted none → e.span = Span.point source.utf8ByteSize) ∧
    (e.position source).IsAt source.toList e.span.start := by
  have hplaced : Grammar.IsPlaced source.toList e := by
    rcases h with h | h
    · exact Grammar.readAll_isPlaced Grammar.program_stopsAmong h
    · exact Grammar.readAll_isPlaced Grammar.singleStatement_stopsAmong h
  have hpart := hplaced.isPartOf
  rw [← byteLength_toList]
  exact ⟨hpart.start_le_stop, hpart.stop_le, hpart.isBoundary_start, hpart.isBoundary_stop,
    hplaced.atEnd, Position.ofOffset_isAt hpart.isBoundary_start⟩

/-- The bytes that the error of a text is about, if it is no program. -/
def errorSpan? (source : String) : Option Span :=
  match parseProgram source with
  | .error e => some e.span
  | .ok _ => none

/-- The parenthesis in the second line of `"é"` and `"ü" )` is the eleventh byte of the text, and
the fifth character of its line. -/
theorem syntaxError_located_secondLine :
    ∃ e, parseProgram "\"é\"\n\"ü\" )" = .error e ∧ e.span = ⟨10, 11⟩ ∧
      e.position "\"é\"\n\"ü\" )" = ⟨2, 5⟩ ∧
      (⟨2, 5⟩ : Position).IsAt "\"é\"\n\"ü\" )".toList 10 := by
  have hspan : errorSpan? "\"é\"\n\"ü\" )" = some ⟨10, 11⟩ := by decide +kernel
  rw [errorSpan?] at hspan
  split at hspan
  case h_2 => cases hspan
  case h_1 e he =>
    obtain ⟨-, -, -, -, -, hposition⟩ := syntaxError_located (Or.inl he)
    have hspan := Option.some.inj hspan
    have hat : e.position "\"é\"\n\"ü\" )" = ⟨2, 5⟩ := by
      rw [SyntaxError.position, hspan]
      decide +kernel
    rw [hat, hspan] at hposition
    exact ⟨e, he, hspan, hat, hposition⟩

end Song
