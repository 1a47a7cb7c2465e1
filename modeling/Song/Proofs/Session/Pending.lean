import Song.Proofs.Token.Continuation
import Song.Session

/-!
# Sessions that wait for more input

What is pending is a text that more lines could complete as far as the parser can
tell. A line that closes an open string literal and then holds a character that
no token starts with makes the session give up what is pending, unless the
literal is cut off: then no line is ever understood again.
-/
namespace Song

/-- A lexical fault is the fault of the whole text. -/
theorem parseProgram_of_lexed_error {source : String} {f : LexicalFault}
    (h : lexed source.toList = .error f) :
    ∃ e, parseProgram source = .error e ∧ e.fault = .lexical f := by
  rw [lexed] at h
  cases ht : tokenize source.toList with
  | ok tokens =>
    rw [ht] at h
    cases h
  | error e =>
    rw [ht] at h
    cases h
    refine ⟨.ofLexical e, ?_, rfl⟩
    rw [parseProgram, Grammar.readAll, ht]

/-- The empty text is a program. -/
theorem ne_empty_of_parseProgram_error {source : String} {e : SyntaxError}
    (h : parseProgram source = .error e) : source ≠ "" := by
  rintro rfl
  cases h

theorem SyntaxError.isIncomplete_of_lexical {error : SyntaxError} {f : LexicalFault}
    (h : error.fault = .lexical f) : error.isIncomplete = true ↔ f = .unterminatedText := by
  rw [isIncomplete, h]
  cases f <;> simp

namespace Session

/-- The sessions that lines of input and whole programs lead to. -/
inductive Reached (library : Bool) (streams : Streams) : Session → Prop
  | start : Reached library streams (start library streams)
  | input {session : Session} (limit : Nat) (line : String)
    (h : Reached library streams session) : Reached library streams (session.input limit line).2
  | run {session : Session} (limit : Nat) (source : String)
    (h : Reached library streams session) : Reached library streams (session.run limit source).2

def feed (limit : Nat) (session : Session) : List String → Session
  | [] => session
  | line :: rest => feed limit (session.input limit line).2 rest

/-- Nothing is pending, or a text that is not complete. -/
def PendsIncomplete (session : Session) : Prop :=
  session.pending = "" ∨ ∃ e, parseProgram session.pending = .error e ∧ e.isIncomplete = true

/-- Executing a statement reads and changes only the context and the streams. -/
theorem execute_frame (limit : Nat) (context : Bindings) (streams : Streams) (statement : Expr) :
    ∃ result reached after, ∀ startup pending,
      execute limit ⟨context, startup, pending, streams⟩ statement =
        (result, ⟨reached, startup, pending, after⟩) := by
  simp only [execute]
  cases evaluate limit statement context streams with
  | exhausted => exact ⟨_, _, _, fun _ _ => rfl⟩
  | failure f after => exact ⟨_, _, _, fun _ _ => rfl⟩
  | value v after =>
    dsimp only
    cases install v context with
    | error cause => exact ⟨_, _, _, fun _ _ => rfl⟩
    | ok reached => exact ⟨_, _, _, fun _ _ => rfl⟩

theorem executeAll_frame (limit : Nat) (context : Bindings) (streams : Streams)
    (statements : List Expr) :
    ∃ result reached after, ∀ startup pending,
      executeAll limit ⟨context, startup, pending, streams⟩ statements =
        (result, ⟨reached, startup, pending, after⟩) := by
  induction statements generalizing context streams with
  | nil => exact ⟨_, _, _, fun _ _ => rfl⟩
  | cons statement rest ih =>
    obtain ⟨first, middle, between, hfirst⟩ := execute_frame limit context streams statement
    obtain ⟨others, reached, after, hrest⟩ := ih middle between
    simp only [executeAll, hfirst]
    cases first with
    | error e => exact ⟨_, _, _, fun _ _ => rfl⟩
    | ok v =>
      simp only [hrest]
      cases others with
      | error e => exact ⟨_, _, _, fun _ _ => rfl⟩
      | ok values => exact ⟨_, _, _, fun _ _ => rfl⟩

theorem executeAll_keeps (limit : Nat) (session : Session) (statements : List Expr) :
    ∃ context streams,
      (session.executeAll limit statements).2 = { session with context, streams } := by
  obtain ⟨result, reached, after, h⟩ :=
    executeAll_frame limit session.context session.streams statements
  exact ⟨reached, after, congrArg Prod.snd (h session.startup session.pending)⟩

theorem run_keeps (limit : Nat) (session : Session) (source : String) :
    ∃ context streams, (session.run limit source).2 = { session with context, streams } := by
  rw [run]
  cases parseProgram source with
  | error e => exact ⟨session.context, session.streams, rfl⟩
  | ok statements => exact executeAll_keeps limit session statements

theorem command_keeps (session : Session) (text : List Char) :
    ∃ context, (session.command text).2 = { session with context } := by
  rw [command]
  split
  · exact ⟨_, rfl⟩
  · split <;> exact ⟨_, rfl⟩
  · exact ⟨_, rfl⟩
  · exact ⟨_, rfl⟩
  · exact ⟨_, rfl⟩

/-- Executing statements leaves what is pending as it is. -/
theorem executeAll_pending (limit : Nat) (session : Session) (statements : List Expr) :
    (session.executeAll limit statements).2.pending = session.pending := by
  obtain ⟨context, streams, h⟩ := executeAll_keeps limit session statements
  rw [h]

theorem run_pending (limit : Nat) (session : Session) (source : String) :
    (session.run limit source).2.pending = session.pending := by
  obtain ⟨context, streams, h⟩ := run_keeps limit session source
  rw [h]

theorem command_pending (session : Session) (text : List Char) :
    (session.command text).2.pending = session.pending := by
  obtain ⟨context, h⟩ := command_keeps session text
  rw [h]

theorem isPending_eq_false {session : Session} :
    session.isPending = false ↔ session.pending = "" := by
  rw [isPending, Bool.not_eq_false', String.isEmpty_iff]

/-- What a line that is no command leaves pending. -/
theorem input_pending {session : Session} {line : String} (hc : session.command? line = none)
    (limit : Nat) :
    (session.input limit line).2.pending =
      match parseProgram (session.textWith line) with
      | .error e => if e.isIncomplete then session.textWith line else ""
      | .ok _ => "" := by
  rw [input, hc]
  dsimp only
  cases parseProgram (session.textWith line) with
  | error e =>
    dsimp only
    split <;> rfl
  | ok statements =>
    have hall := executeAll_pending limit { session with pending := "" } statements
    dsimp only
    split
    case h_1 heq =>
      rw [heq] at hall
      exact hall
    case h_2 heq =>
      rw [heq] at hall
      exact hall

theorem input_pendsIncomplete {session : Session} (h : session.PendsIncomplete) (limit : Nat)
    (line : String) : (session.input limit line).2.PendsIncomplete := by
  cases hc : session.command? line with
  | some text =>
    rw [PendsIncomplete, input, hc]
    dsimp only
    rw [command_pending]
    exact h
  | none =>
    rw [PendsIncomplete, input_pending hc]
    cases hparse : parseProgram (session.textWith line) with
    | ok statements => exact Or.inl rfl
    | error e =>
      dsimp only
      split
      case isTrue he => exact Or.inr ⟨e, hparse, he⟩
      case isFalse => exact Or.inl rfl

/-- What any sequence of actions leaves pending is not complete. -/
theorem Reached.pendsIncomplete {library : Bool} {streams : Streams} {session : Session}
    (h : Reached library streams session) : session.PendsIncomplete := by
  induction h with
  | start => exact Or.inl rfl
  | input limit line _ ih => exact input_pendsIncomplete ih limit line
  | @run session limit source _ ih =>
    rw [PendsIncomplete, run_pending]
    exact ih

section Line

variable {session : Session} (hp : session.isPending = true)

include hp

theorem command?_of_isPending (line : String) : session.command? line = none := by
  rw [command?, hp]
  rfl

theorem toList_textWith (line : String) :
    (session.textWith line).toList = session.pending.toList ++ '\n' :: line.toList := by
  rw [textWith, hp, if_pos rfl, String.toList_append, String.toList_append, List.append_assoc]
  rfl

/-- A fault that no text can mend makes the session give up. -/
theorem input_isPending_of_lexed_error (line : String) {f : LexicalFault}
    (h : lexed (session.pending.toList ++ '\n' :: line.toList) = .error f)
    (hf : f ≠ .unterminatedText) (limit : Nat) :
    (session.input limit line).2.isPending = false := by
  rw [← toList_textWith hp] at h
  obtain ⟨e, hparse, hfault⟩ := parseProgram_of_lexed_error h
  have hcomplete : ¬e.isIncomplete = true := fun he =>
    hf ((SyntaxError.isIncomplete_of_lexical hfault).1 he)
  rw [isPending_eq_false, input_pending (command?_of_isPending hp line), hparse]
  exact if_neg hcomplete

/-- After a literal that is cut off every line is taken in and none is understood. -/
theorem input_isCutOff (hcut : IsCutOff session.pending.toList) (limit : Nat) (line : String) :
    (session.input limit line).2.isPending = true ∧
      IsCutOff (session.input limit line).2.pending.toList := by
  have hlonger := hcut.append_newline line.toList
  rw [← toList_textWith hp] at hlonger
  obtain ⟨e, hparse, hfault⟩ := parseProgram_of_lexed_error hlonger.lexed_eq
  have hpending : (session.input limit line).2.pending = session.textWith line := by
    rw [input_pending (command?_of_isPending hp line), hparse]
    exact if_pos ((SyntaxError.isIncomplete_of_lexical hfault).2 rfl)
  refine ⟨?_, by rwa [hpending]⟩
  rw [← Bool.not_eq_false, isPending_eq_false, hpending]
  intro hempty
  rw [hempty] at hlonger
  exact hlonger.ne_nil rfl

theorem feed_isPending_of_isCutOff (hcut : IsCutOff session.pending.toList) (limit : Nat)
    (lines : List String) : (session.feed limit lines).isPending = true := by
  induction lines generalizing session with
  | nil => exact hp
  | cons line rest ih =>
    obtain ⟨hpending, hlater⟩ := input_isCutOff hp hcut limit line
    exact ih hpending hlater

/-- What is pending can be read as tokens, or ends in an open string literal. -/
theorem PendsIncomplete.lexed_error (hi : session.PendsIncomplete) {f : LexicalFault}
    (h : lexed session.pending.toList = .error f) : f = .unterminatedText := by
  obtain ⟨e, hparse, hfault⟩ := parseProgram_of_lexed_error h
  rcases hi with hempty | ⟨e', hparse', hincomplete⟩
  · rw [isPending_eq_false.2 hempty] at hp
    cases hp
  · rw [hparse] at hparse'
    cases hparse'
    exact (SyntaxError.isIncomplete_of_lexical hfault).1 hincomplete

/-- Otherwise one line is enough. -/
theorem exists_line_of_not_isCutOff (hi : session.PendsIncomplete)
    (hcut : ¬IsCutOff session.pending.toList) (limit : Nat) :
    ∃ line, (session.input limit line).2.isPending = false := by
  cases hlexed : lexed session.pending.toList with
  | ok words =>
    -- no token starts with `@`, and the tokens before it stay as they are
    have hread := (readsTo_of_lexed_ok hlexed).append_newline ['@']
    have hunknown : lexed ['\n', '@'] = .error (.unknownCharacter '@') := rfl
    exact ⟨"@", input_isPending_of_lexed_error hp "@" (hread.lexed_eq_error hunknown) nofun limit⟩
  | error f =>
    rw [hi.lexed_error hp hlexed] at hlexed
    rcases isCutOff_or_readsTo hlexed with h | ⟨body, hread, hbody⟩
    · exact absurd h hcut
    · -- the quote closes the literal; its escapes may be at fault before `@` is
      obtain ⟨g, hg, hclose⟩ := lexed_close hbody []
      have hlonger := hread.append_newline ['"', '@']
      exact ⟨_, input_isPending_of_lexed_error hp "\"@" (hlonger.lexed_eq_error hclose) hg limit⟩

end Line

theorem input_quit {session : Session} (h : session.isPending = false) (limit : Nat) :
    (session.input limit "?quit").1 = .quit := by
  have hcommand : session.command? "?quit" = some "quit".toList := by
    rw [command?, h]
    rfl
  rw [input, hcommand]
  rfl

/-- A session that waits for input can be brought back to taking commands exactly if what is
pending holds no string literal that is cut off. -/
theorem recovers_iff_not_isCutOff {library : Bool} {streams : Streams} {session : Session}
    (h : Reached library streams session) (hp : session.isPending = true) (limit : Nat) :
    (∃ lines, (session.feed limit lines).isPending = false ∧
      ((session.feed limit lines).input limit "?quit").1 = .quit) ↔
      ¬IsCutOff session.pending.toList := by
  constructor
  · rintro ⟨lines, hlines, -⟩ hcut
    rw [feed_isPending_of_isCutOff hp hcut limit lines] at hlines
    cases hlines
  · intro hcut
    obtain ⟨line, hline⟩ := exists_line_of_not_isCutOff hp h.pendsIncomplete hcut limit
    exact ⟨[line], hline, input_quit hline limit⟩

/-- The first line of a session is pending if it leaves a string literal open. -/
theorem start_input_open {line : String} (library : Bool) (streams : Streams)
    (hc : (start library streams).command? line = none)
    (h : lexed line.toList = .error .unterminatedText) (limit : Nat) :
    ((start library streams).input limit line).2.isPending = true ∧
      ((start library streams).input limit line).2.pending = line := by
  have htext : (start library streams).textWith line = line := rfl
  obtain ⟨e, hparse, hfault⟩ := parseProgram_of_lexed_error h
  have hpending : ((start library streams).input limit line).2.pending = line := by
    rw [input_pending hc, htext, hparse]
    exact if_pos ((SyntaxError.isIncomplete_of_lexical hfault).2 rfl)
  refine ⟨?_, hpending⟩
  rw [← Bool.not_eq_false, isPending_eq_false, hpending]
  rintro rfl
  cases h

/-- A string literal that is left open can be given up. -/
theorem recovers_iff_not_isCutOff_quote :
    ∃ session, Reached false (.ofText "") session ∧ session.isPending = true ∧
      ∃ lines, (session.feed stepLimit lines).isPending = false ∧
        ((session.feed stepLimit lines).input stepLimit "?quit").1 = .quit := by
  have hreached : Reached false (.ofText "") ((start false (.ofText "")).input stepLimit "\"a").2 :=
    .input stepLimit "\"a" .start
  have hopen : lexed "\"a".toList = .error .unterminatedText := rfl
  obtain ⟨hwaits, hpending⟩ := start_input_open false (.ofText "") rfl hopen stepLimit
  refine ⟨_, hreached, hwaits, ?_⟩
  apply (recovers_iff_not_isCutOff hreached hwaits stepLimit).2
  rw [hpending]
  rintro ⟨body, after, hread, -⟩
  generalize htext : '"' :: (body ++ '\\' :: after) = text at hread
  change ReadsTo ['"', 'a'] text at hread
  cases hread with
  | refl =>
    have hmem : '\\' ∈ ['"', 'a'] := by simp [← htext]
    exact absurd hmem (by decide)
  | lexeme h _ => exact h .unterminatedText rfl

/-- After a quote and a backslash no line is understood. -/
theorem not_recovers_backslash :
    ∃ session, Reached false (.ofText "") session ∧ session.isPending = true ∧
      ∀ lines, (session.feed stepLimit lines).isPending = true := by
  have hcut : IsCutOff "\"\\".toList := ⟨[], [], .refl _, .nil, nofun⟩
  obtain ⟨hwaits, hpending⟩ := start_input_open false (.ofText "") rfl hcut.lexed_eq stepLimit
  refine ⟨_, .input stepLimit "\"\\" .start, hwaits, ?_⟩
  intro lines
  exact feed_isPending_of_isCutOff hwaits (hpending ▸ hcut) stepLimit lines

end Session
end Song
