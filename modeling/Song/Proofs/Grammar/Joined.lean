import Song.Proofs.Grammar.Extension
import Song.Proofs.Token.Joined

/-!
# Programs joined by a line end

A program and another one in the lines after it are one program, and what is at
fault in the second is at fault in both together, as many bytes later. A fault in
the first is final, unless it is that the text came to its end too early.
-/
namespace Song

namespace Grammar

/-- Reads the statements of a program after those that were read. -/
def statementsFrom (read : List Expr) : Reader (List Expr) := fun tokens =>
  iterate programStatement read (skipNewlines tokens)

theorem programStatement_advances : RoundAdvances programStatement := by
  have hstatement := statement_advances expression_advances
  constructor
  · intro read tokens
    rw [programStatement]
    split
    · exact .ok trivial List.nil_suffix
    · apply ((hstatement.leaves tokens).extend (List.tail_suffix tokens)).bind
      intro s rest _ hrest
      dsimp only
      split
      · exact .ok trivial List.nil_suffix
      · apply Gives.bind_expect hrest
        intro final hfinal
        exact .ok trivial ((skipNewlines_suffix final).trans hfinal)
  · intro read later tokens rest h
    rw [programStatement] at h
    split at h
    · cases h
    case isFalse hne =>
      have hpos : 0 < tokens.length := by
        cases tokens with
        | nil => exact absurd rfl hne
        | cons next more => exact Nat.zero_lt_succ _
      cases hread : statement expression tokens with
      | error stop => rw [hread] at h; cases h
      | ok pair =>
        obtain ⟨s, left⟩ := pair
        have hlt := hstatement.length_lt hread
        rw [bind_of_eq_ok hread] at h
        dsimp only at h
        split at h
        · cases h
          exact hpos
        · rw [expect] at h
          split at h
          case h_2 => cases h
          case h_1 final hfinal =>
            cases h
            have hskip := (skipNewlines_suffix final).length_le
            have hfinal := (eat?_suffix hfinal).length_le
            omega

/-- A program has no more statements, or a statement and those after the line end. -/
theorem statementsFrom_eq (read : List Expr) (tokens : Tokens) :
    statementsFrom read tokens =
      if skipNewlines tokens = [] then .ok (read.reverse, [])
      else
        match statement expression (skipNewlines tokens) with
        | .error stop => .error stop
        | .ok (s, []) => .ok ((s :: read).reverse, [])
        | .ok (s, next :: rest) =>
          if next.token = .newline then statementsFrom (s :: read) rest
          else .error (unexpected (.token .newline) (next :: rest)) := by
  rw [statementsFrom, iterate_eq programStatement_advances, programStatement]
  cases hskip : skipNewlines tokens with
  | nil => rfl
  | cons first more =>
    rw [List.isEmpty_cons, if_neg Bool.false_ne_true, if_neg (List.cons_ne_nil _ _)]
    cases statement expression (first :: more) with
    | error stop => rfl
    | ok pair =>
      obtain ⟨s, _ | ⟨next, rest⟩⟩ := pair
      · exact iterate_eq programStatement_advances (s :: read) []
      · rw [bind_of_eq_ok rfl]
        dsimp only
        rw [List.isEmpty_cons, if_neg Bool.false_ne_true, expect]
        by_cases hnext : next.token = .newline
        · rw [eat?, if_pos hnext, if_pos hnext]
          rfl
        · rw [eat?, if_neg hnext, if_neg hnext]
          rfl

def prepend (first : List Expr) :
    Except Stop (List Expr × Tokens) → Except Stop (List Expr × Tokens)
  | .ok (later, rest) => .ok (first ++ later, rest)
  | .error stop => .error stop

theorem statementsFrom_append (read before : List Expr) (tokens : Tokens) :
    statementsFrom (read ++ before) tokens =
      prepend before.reverse (statementsFrom read tokens) := by
  rw [statementsFrom_eq, statementsFrom_eq read]
  split
  · rw [prepend, List.reverse_append]
  · split
    case h_1 => rfl
    case h_2 s hs => rw [prepend, ← List.cons_append, List.reverse_append]
    case h_3 s next rest hs =>
      split
      · have hlt := (statement_advances expression_advances).length_lt hs
        have hle := (skipNewlines_suffix tokens).length_le
        exact statementsFrom_append (s :: read) before rest
      · rfl
termination_by tokens.length
decreasing_by
  rw [List.length_cons] at hlt
  omega

/-- What a program gives once tokens are added in a new line: it takes all of its own tokens and
goes on after its statements, and a fault that is not at the end stays as it is. -/
def Continues (x : Extension) (first second : Except Stop (List Expr × Tokens)) : Prop :=
  match first with
  | .ok (statements, rest) => rest = [] ∧ second = statementsFrom statements.reverse x.more
  | .error stop =>
    (second = .error (x.stop stop) ∧ (stop.IsAtEnd ∨ stop.place.isSome)) ∨
      (x.more ≠ [] ∧ stop.IsAtEnd)

theorem statementsFrom_newline (read : List Expr) {next : Located} (hn : next.token = .newline)
    (rest : Tokens) : statementsFrom read (next :: rest) = statementsFrom read rest := by
  rw [statementsFrom, statementsFrom, skipNewlines, List.dropWhile_cons_of_pos (by simpa using hn)]
  rfl

/-- Nothing is left of the tokens, and only those that are added come next. -/
theorem statementsFrom_more (x : Extension) (read : List Expr) (s : Expr) :
    (match (.ok (s, x.more) : Except Stop (Expr × Tokens)) with
      | .error stop => .error stop
      | .ok (s, []) => .ok ((s :: read).reverse, [])
      | .ok (s, next :: rest) =>
        if next.token = .newline then statementsFrom (s :: read) rest
        else .error (unexpected (.token .newline) (next :: rest))) =
      statementsFrom (s :: read) x.more := by
  have hnewline := x.newline
  cases hmore : x.more with
  | nil => rfl
  | cons next rest =>
    rw [hmore] at hnewline
    have hnext : next.token = .newline := by simpa using hnewline next rfl
    dsimp only
    rw [if_pos hnext, statementsFrom_newline _ hnext]

theorem statementsFrom_tokens (x : Extension) (read : List Expr) (tokens : Tokens) :
    Continues x (statementsFrom read tokens) (statementsFrom read (x.tokens tokens)) := by
  rw [statementsFrom_eq read tokens]
  split
  case isTrue hskip =>
    -- only empty lines are left, and they go on in the new line
    refine ⟨rfl, ?_⟩
    rw [List.reverse_reverse, statementsFrom, statementsFrom, x.skipNewlines_tokens_of_nil hskip]
  case isFalse hskip =>
    have hend : ¬(x.more ≠ [] ∧ skipNewlines tokens = []) := fun h => hskip h.2
    have hne : skipNewlines (x.tokens tokens) ≠ [] := by
      rw [x.skipNewlines_tokens hend]
      cases h : skipNewlines tokens with
      | nil => exact absurd h hskip
      | cons next rest => exact List.cons_ne_nil _ _
    rw [statementsFrom_eq read (x.tokens tokens), if_neg hne, x.skipNewlines_tokens hend]
    have hcarries : x.Carries (statement expression (skipNewlines tokens))
        (statement expression (x.tokens (skipNewlines tokens))) :=
      Extension.statement_carries expression_advances
        (fun tokens _ => x.expression_carries tokens) (Nat.lt_succ_self _)
    rcases hcarries with ⟨heq, hplaced⟩ | ⟨hmore, stop, hstop, hwaits⟩
    · rw [heq]
      cases hs : statement expression (skipNewlines tokens) with
      | error stop =>
        rw [hs] at hplaced
        exact Or.inl ⟨rfl, hplaced⟩
      | ok pair =>
        obtain ⟨s, _ | ⟨next, rest⟩⟩ := pair
        · refine ⟨rfl, ?_⟩
          rw [List.reverse_reverse]
          exact statementsFrom_more x read s
        · have hlt := (statement_advances expression_advances).length_lt hs
          have hle := (skipNewlines_suffix tokens).length_le
          dsimp only [Extension.result, Extension.tokens_cons]
          split
          · exact statementsFrom_tokens x (s :: read) rest
          · exact Or.inl ⟨rfl, Or.inr rfl⟩
    · rw [hstop]
      exact Or.inr ⟨hmore, hwaits⟩
termination_by tokens.length
decreasing_by
  rw [List.length_cons] at hlt
  omega

end Grammar

def SyntaxError.shift (count : Nat) (error : SyntaxError) : SyntaxError :=
  ⟨error.fault, error.span.shift count⟩

namespace Grammar

/-- Tokens that are added in a new line, where the others stay in their places. -/
def Extension.ofTokens (next : Located) (hn : next.token = .newline) (rest : Tokens) :
    Extension where
  relocate := id
  more := next :: rest
  newline := .cons (by simpa using hn) next.span rest

theorem Extension.ofTokens_tokens (next : Located) (hn : next.token = .newline)
    (rest tokens : Tokens) :
    (Extension.ofTokens next hn rest).tokens tokens = tokens ++ next :: rest := by
  simp [Extension.tokens, Extension.ofTokens]

theorem Extension.ofTokens_stop (next : Located) (hn : next.token = .newline) (rest : Tokens)
    (stop : Stop) : (Extension.ofTokens next hn rest).stop stop = stop := by
  simp [Extension.stop, Extension.ofTokens]

/-- A program in other places is the same program, with the same fault in its other place. -/
theorem program_moving (relocate : Span → Span) (tokens : Tokens) :
    program ((Extension.moving relocate).tokens tokens) =
      (Extension.moving relocate).result (program tokens) := by
  have h : Continues (.moving relocate) (program tokens)
      (program ((Extension.moving relocate).tokens tokens)) :=
    statementsFrom_tokens (.moving relocate) [] tokens
  cases hp : program tokens with
  | error stop =>
    rw [hp] at h
    rcases h with ⟨h, -⟩ | ⟨hmore, -⟩
    · exact h
    · exact absurd rfl hmore
  | ok pair =>
    obtain ⟨statements, rest⟩ := pair
    rw [hp] at h
    obtain ⟨rfl, h⟩ := h
    rw [h, statementsFrom_eq]
    simp [Extension.moving, Extension.result, skipNewlines]

theorem Extension.moving_tokens (relocate : Span → Span) (tokens : Tokens) :
    (Extension.moving relocate).tokens tokens =
      tokens.map fun next => ⟨next.token, relocate next.span⟩ :=
  List.append_nil _

/-- The statements of a program come before those that are added in a new line. -/
theorem program_append {tokens rest : Tokens} {statements : List Expr}
    (h : program tokens = .ok (statements, rest)) (next : Located) (hn : next.token = .newline)
    (more : Tokens) : program (tokens ++ next :: more) = prepend statements (program more) := by
  have hc : Continues (.ofTokens next hn more) (program tokens)
      (program ((Extension.ofTokens next hn more).tokens tokens)) :=
    statementsFrom_tokens (.ofTokens next hn more) [] tokens
  have hread := statementsFrom_append [] statements.reverse more
  rw [h, Extension.ofTokens_tokens] at hc
  rw [List.nil_append, List.reverse_reverse] at hread
  obtain ⟨-, hc⟩ := hc
  rw [hc]
  exact (statementsFrom_newline _ hn more).trans hread

/-- A fault that is not at the end is at a token, and final. -/
theorem program_append_error {tokens : Tokens} {stop : Stop} (h : program tokens = .error stop)
    (he : ¬stop.IsAtEnd) (next : Located) (hn : next.token = .newline) (more : Tokens) :
    program (tokens ++ next :: more) = .error stop ∧ stop.place.isSome := by
  have hc : Continues (.ofTokens next hn more) (program tokens)
      (program ((Extension.ofTokens next hn more).tokens tokens)) :=
    statementsFrom_tokens (.ofTokens next hn more) [] tokens
  rw [h, Extension.ofTokens_tokens] at hc
  rcases hc with ⟨hc, hplaced⟩ | ⟨-, hend⟩
  · rw [hc, Extension.ofTokens_stop]
    exact ⟨rfl, hplaced.resolve_left he⟩
  · exact absurd hend he

theorem stop_shift (count size : Nat) (stop : Stop) :
    ((Extension.moving (Span.shift count)).stop stop).toError (size + count) =
      (stop.toError size).shift count := by
  obtain ⟨fault, _ | span⟩ := stop <;> rfl

end Grammar

theorem toList_joined (first second : String) :
    (first ++ "\n" ++ second).toList = first.toList ++ '\n' :: second.toList := by
  rw [String.toList_append, String.toList_append, List.append_assoc]
  rfl

/-- A text that is read has tokens, and they are a program. -/
theorem parseProgram_eq_ok {source : String} {statements : List Expr}
    (h : parseProgram source = .ok statements) :
    ∃ tokens rest, tokenize source.toList = .ok tokens ∧
      Grammar.program tokens = .ok (statements, rest) := by
  rw [parseProgram, Grammar.readAll] at h
  split at h
  case h_1 => cases h
  case h_2 tokens htokens =>
    split at h
    case h_1 => cases h
    case h_2 value rest hprogram =>
      cases h
      exact ⟨tokens, rest, htokens, hprogram⟩

/-- A text is at fault in its tokens or in how they are put together. -/
theorem parseProgram_eq_error {source : String} {e : SyntaxError}
    (h : parseProgram source = .error e) :
    (∃ error, tokenize source.toList = .error error ∧ e = .ofLexical error) ∨
      ∃ tokens stop, tokenize source.toList = .ok tokens ∧
        Grammar.program tokens = .error stop ∧ e = stop.toError (byteLength source.toList) := by
  rw [parseProgram, Grammar.readAll] at h
  split at h
  case h_1 error herror =>
    cases h
    exact Or.inl ⟨error, herror, rfl⟩
  case h_2 tokens htokens =>
    split at h
    case h_1 stop hprogram =>
      cases h
      exact Or.inr ⟨tokens, stop, htokens, hprogram, rfl⟩
    case h_2 => cases h

theorem tokenize_joined {first : String} {tokens : List Located}
    (h : tokenize first.toList = .ok tokens) (second : String) :
    tokenize (first ++ "\n" ++ second).toList =
      joinTokens (.ok (tokens ++ [newlineAfter first.toList]))
        (shiftTokens (byteLength first.toList + 1) (tokenize second.toList)) := by
  have hne : ∀ e, tokenize first.toList = .error e → e.fault ≠ .unterminatedText := by
    intro e he
    rw [h] at he
    cases he
  rw [toList_joined, tokenize_append_newline hne, h]
  cases tokenize second.toList with
  | error e => rfl
  | ok later => exact congrArg Except.ok (List.append_assoc tokens _ _).symm

/-- The bytes of a text. -/
theorem byteLength_toList (source : String) : byteLength source.toList = source.utf8ByteSize := by
  have hlist (text : List Char) : (String.ofList text).utf8ByteSize = byteLength text := by
    induction text with
    | nil => rfl
    | cons c rest ih =>
      rw [String.ofList_cons, String.utf8ByteSize_append, String.utf8ByteSize_singleton, ih,
        byteLength]
  rw [← hlist, String.ofList_toList]

theorem byteLength_joined (first second : String) :
    byteLength (first ++ "\n" ++ second).toList =
      byteLength second.toList + (byteLength first.toList + 1) := by
  rw [byteLength_toList, String.utf8ByteSize_append, String.utf8ByteSize_append, byteLength_toList,
    byteLength_toList, Nat.add_comm]
  rfl

/-- What is read of a text after a program: statements that go on, or a fault as many bytes
later. -/
theorem parseProgram_joined_eq {first : String} {statements : List Expr}
    (h : parseProgram first = .ok statements) (second : String) :
    parseProgram (first ++ "\n" ++ second) =
      match parseProgram second with
      | .ok later => .ok (statements ++ later)
      | .error e => .error (e.shift (byteLength first.toList + 1)) := by
  obtain ⟨tokens, rest, htokens, hprogram⟩ := parseProgram_eq_ok h
  rw [parseProgram, parseProgram, Grammar.readAll, Grammar.readAll, tokenize_joined htokens]
  cases tokenize second.toList with
  | error e => rfl
  | ok later =>
    have happend := Grammar.program_append hprogram (newlineAfter first.toList) rfl
      (later.map (Located.shift (byteLength first.toList + 1)))
    have hshift : Grammar.program (later.map (Located.shift (byteLength first.toList + 1))) =
        (Grammar.Extension.moving (Span.shift (byteLength first.toList + 1))).result
          (Grammar.program later) := by
      rw [← Grammar.program_moving, Grammar.Extension.moving_tokens]
      rfl
    dsimp only [joinTokens, shiftTokens, bind, Except.bind, pure, Except.pure]
    rw [List.append_assoc, List.singleton_append, happend, hshift]
    cases Grammar.program later with
    | ok read => rfl
    | error stop =>
      dsimp only [Grammar.Extension.result, Grammar.prepend]
      rw [byteLength_joined, Grammar.stop_shift]

theorem Grammar.Stop.isIncomplete_toError {stop : Grammar.Stop} (h : stop.IsAtEnd) (size : Nat) :
    (stop.toError size).isIncomplete = true := by
  obtain ⟨wanted, hfault⟩ := h
  rw [SyntaxError.isIncomplete, Grammar.Stop.toError, hfault]

/-- A fault that is not at the end of the text is final. In a text that has tokens it may be hidden
by a lexical fault in the lines after it. -/
theorem parseProgram_joined_error {source : String} {e : SyntaxError}
    (h : parseProgram source = .error e) (he : e.isIncomplete = false) (more : String) :
    parseProgram (source ++ "\n" ++ more) = .error e ∨
      (∃ tokens, tokenize source.toList = .ok tokens) ∧
        ∃ fault, tokenize more.toList = .error fault ∧
          parseProgram (source ++ "\n" ++ more) =
            .error (.ofLexical (fault.shift (byteLength source.toList + 1))) := by
  rcases parseProgram_eq_error h with ⟨error, herror, rfl⟩ | ⟨tokens, stop, htokens, hstop, rfl⟩
  · have hclosed : ∀ e, tokenize source.toList = .error e → e.fault ≠ .unterminatedText := by
      intro e' he' hopen
      rw [herror] at he'
      cases he'
      rw [SyntaxError.isIncomplete, SyntaxError.ofLexical, hopen] at he
      cases he
    apply Or.inl
    rw [parseProgram, Grammar.readAll, toList_joined, tokenize_append_newline hclosed, herror]
    rfl
  · have hend : ¬stop.IsAtEnd := by
      intro hend
      rw [Grammar.Stop.isIncomplete_toError hend] at he
      cases he
    rw [parseProgram, Grammar.readAll, tokenize_joined htokens]
    cases hmore : tokenize more.toList with
    | error fault => exact Or.inr ⟨⟨tokens, htokens⟩, fault, rfl, rfl⟩
    | ok later =>
      obtain ⟨hfinal, hplace⟩ := Grammar.program_append_error hstop hend
        (newlineAfter source.toList) rfl (later.map (Located.shift (byteLength source.toList + 1)))
      obtain ⟨span, hspan⟩ := Option.isSome_iff_exists.1 hplace
      apply Or.inl
      dsimp only [joinTokens, shiftTokens, bind, Except.bind, pure, Except.pure]
      rw [List.append_assoc, List.singleton_append, hfinal]
      dsimp only [Grammar.Stop.toError]
      rw [hspan, Option.getD_some, Option.getD_some]

/-- Only the message of a lexical error names a byte. -/
theorem SyntaxError.message_shift (count : Nat) (error : SyntaxError) :
    (error.shift count).message =
      match error.fault with
      | .lexical fault => fault.message ++ " at byte " ++ toString (error.span.start + count)
      | _ => error.message := by
  obtain ⟨fault, span⟩ := error
  cases fault <;> rfl

/-- A program and a text in the lines after it: the statements of both, or the fault of the text,
with its place as many bytes later as the program and the line end have. -/
theorem parseProgram_joined {first : String} {statements : List Expr}
    (h : parseProgram first = .ok statements) (second : String) :
    (∀ later, parseProgram second = .ok later →
      parseProgram (first ++ "\n" ++ second) = .ok (statements ++ later)) ∧
    ∀ e, parseProgram second = .error e → ∃ e',
      parseProgram (first ++ "\n" ++ second) = .error e' ∧ e'.fault = e.fault ∧
      e'.span.start = e.span.start + (first.utf8ByteSize + 1) ∧
      e'.span.stop = e.span.stop + (first.utf8ByteSize + 1) ∧
      (∀ f, e.fault = .lexical f → e.message = f.message ++ " at byte " ++ toString e.span.start ∧
        e'.message = f.message ++ " at byte " ++ toString e'.span.start) ∧
      ((∀ f, e.fault ≠ .lexical f) → e'.message = e.message) := by
  have hjoined := parseProgram_joined_eq h second
  constructor
  · intro later hlater
    rw [hjoined, hlater]
  · intro e he
    rw [← byteLength_toList]
    refine ⟨e.shift (byteLength first.toList + 1), ?_, rfl, rfl, rfl, ?_, ?_⟩
    · rw [hjoined, he]
    · intro f hf
      rw [SyntaxError.message_shift, SyntaxError.message, hf]
      exact ⟨rfl, rfl⟩
    · intro hne
      rw [SyntaxError.message_shift]
      split
      case h_1 f hf => exact absurd hf (hne f)
      case h_2 => rfl

/-- A line with a comment, before a line that is a statement and before one that is none. -/
theorem parseProgram_joined_comment :
    parseProgram "x # é" = .ok [.name "x"] ∧
      parseProgram "x # é\ny" = .ok [.name "x", .name "y"] ∧
      ∃ e', parseProgram "x # é\n)" = .error e' ∧ e'.span.start = 7 := by
  have hfirst : parseProgram "x # é" = .ok [.name "x"] := rfl
  have hsecond : parseProgram ")" = .error ⟨.unexpected .expression (some .rightParen), ⟨0, 1⟩⟩ :=
    rfl
  obtain ⟨e', he', -, hstart, -⟩ := (parseProgram_joined hfirst ")").2 _ hsecond
  exact ⟨hfirst, (parseProgram_joined hfirst "y").1 [.name "y"] rfl, e', he', hstart⟩

end Song
