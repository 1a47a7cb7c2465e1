import Song.Proofs.Session.FirstFailure

/-!
# Conversations

Lines of input and whole programs are given to a session in any order. Whatever the
answers are, the session still knows the context it started from; it waits for more
input exactly if the last line was answered so; and while it waits no line is a
command. A reset is a new beginning, with the streams as they are.
-/
namespace Song.Session

inductive Action where
  | input (line : String)
  | run (source : String)

inductive Answer where
  | reply (reply : Reply)
  | values (result : Except SessionError (List Expr))

def Answer.reply? : Answer → Option Reply
  | reply r => some r
  | values _ => none

def lastReply? (answers : List Answer) : Option Reply :=
  (answers.filterMap Answer.reply?).getLast?

def act (limit : Nat) (session : Session) : Action → Answer × Session
  | .input line => (.reply (session.input limit line).1, (session.input limit line).2)
  | .run source => (.values (session.run limit source).1, (session.run limit source).2)

/-- The answers to actions one after the other, and the session they lead to. -/
def converse (limit : Nat) (session : Session) : List Action → List Answer × Session
  | [] => ([], session)
  | action :: rest =>
    let (answer, next) := session.act limit action
    let (answers, last) := converse limit next rest
    (answer :: answers, last)

/-- The line is taken as the command that resets the context. -/
def Resets (session : Session) (line : String) : Prop :=
  (session.command? line).map (fun text => (Text.words text).map String.ofList) = some ["reset"]

@[simp]
theorem lastReply?_append_reply (answers : List Answer) (r : Reply) :
    lastReply? (answers ++ [.reply r]) = some r := by
  simp [lastReply?, Answer.reply?]

@[simp]
theorem lastReply?_append_values (answers : List Answer)
    (result : Except SessionError (List Expr)) :
    lastReply? (answers ++ [.values result]) = lastReply? answers := by
  simp [lastReply?, Answer.reply?]

theorem isPending_of_command? {session : Session} {line : String} {text : List Char}
    (h : session.command? line = some text) : session.isPending = false := by
  rw [← Bool.not_eq_true]
  intro hp
  rw [command?_of_isPending hp] at h
  cases h

theorem command_ne_incomplete (session : Session) (text : List Char) :
    (session.command text).1 ≠ .incomplete := by
  rw [command]
  split
  · simp
  · split <;> simp
  · simp
  · simp
  · simp

/-- A line that is no command does to the context and the streams what its text does when it is
run as a program. -/
theorem input_of_enters {session : Session} {line source : String}
    (h : session.Enters line source) (limit : Nat) :
    ∃ pending, (session.input limit line).2 = { (session.run limit source).2 with pending } := by
  cases hparse : parseProgram source with
  | error e =>
    rw [input_of_malformed h hparse, run, hparse]
    split <;> exact ⟨_, rfl⟩
  | ok program =>
    rw [input_of_run h hparse]
    rcases session.run limit source with ⟨e | results, last⟩ <;> exact ⟨_, rfl⟩

theorem input_startup (limit : Nat) (session : Session) (line : String) :
    (session.input limit line).2.startup = session.startup := by
  cases hc : session.command? line with
  | some text =>
    obtain ⟨context, hcommand⟩ := command_keeps session text
    rw [input, hc]
    dsimp only
    rw [hcommand]
  | none =>
    obtain ⟨pending, hinput⟩ := input_of_enters ⟨hc, rfl⟩ limit
    obtain ⟨context, streams, hrun⟩ := run_keeps limit session (session.textWith line)
    rw [hinput, hrun]

/-- After a line the session waits exactly if it says so. -/
theorem isPending_input_iff (limit : Nat) (session : Session) (line : String) :
    (session.input limit line).2.isPending = true ↔ (session.input limit line).1 = .incomplete := by
  cases hc : session.command? line with
  | some text =>
    have hnot : (session.command text).2.isPending = false := by
      rw [isPending, command_pending]
      exact isPending_of_command? hc
    rw [input, hc]
    dsimp only
    simp [hnot, command_ne_incomplete]
  | none =>
    cases hparse : parseProgram (session.textWith line) with
    | error e =>
      rw [input_of_malformed ⟨hc, rfl⟩ hparse]
      split
      · simpa [isPending] using ne_empty_of_parseProgram_error hparse
      · simp [isPending]
    | ok program =>
      rw [input_of_run ⟨hc, rfl⟩ hparse]
      rcases session.run limit (session.textWith line) with ⟨e | results, last⟩ <;> simp [isPending]

theorem input_of_resets {session : Session} {line : String} (h : session.Resets line)
    (limit : Nat) :
    session.isPending = false ∧
      session.input limit line = (.output "", { session with context := session.startup }) := by
  obtain ⟨text, hc, hwords⟩ := Option.map_eq_some_iff.1 h
  refine ⟨isPending_of_command? hc, ?_⟩
  rw [input, hc]
  dsimp only
  rw [command, hwords]
  rfl

/-- What holds of a session after answers, if it started with or without the library. -/
structure IsConsistent (library : Bool) (answers : List Answer) (session : Session) : Prop where
  startup : session.startup = (start library session.streams).context
  pends : session.PendsIncomplete
  waits : session.isPending = true ↔ lastReply? answers = some .incomplete

theorem isConsistent_start (library : Bool) (streams : Streams) :
    IsConsistent library [] (start library streams) :=
  ⟨rfl, Or.inl rfl, by simp [isPending, start, lastReply?]⟩

theorem IsConsistent.act {library : Bool} {answers : List Answer} {session : Session}
    (h : IsConsistent library answers session) (limit : Nat) (action : Action) :
    IsConsistent library (answers ++ [(session.act limit action).1])
      (session.act limit action).2 := by
  cases action with
  | input line =>
    refine ⟨(input_startup limit session line).trans h.startup,
      input_pendsIncomplete h.pends limit line, ?_⟩
    simp [Session.act, isPending_input_iff]
  | run source =>
    obtain ⟨context, streams, hrun⟩ := run_keeps limit session source
    dsimp only [Session.act]
    rw [hrun]
    refine ⟨h.startup, h.pends, ?_⟩
    rw [lastReply?_append_values]
    exact h.waits

theorem IsConsistent.converse {library : Bool} {answers : List Answer} {session : Session}
    (h : IsConsistent library answers session) (limit : Nat) (actions : List Action) :
    IsConsistent library (answers ++ (session.converse limit actions).1)
      (session.converse limit actions).2 := by
  induction actions generalizing answers session with
  | nil => simpa [Session.converse] using h
  | cons action rest ih =>
    have hrest := ih (h.act limit action)
    rw [List.append_assoc, List.singleton_append] at hrest
    exact hrest

/-- A reset leaves the session that would be started now. -/
theorem IsConsistent.input_of_resets {library : Bool} {answers : List Answer} {session : Session}
    (h : IsConsistent library answers session) {line : String} (hr : session.Resets line)
    (limit : Nat) :
    session.input limit line = (.output "", start library session.streams) := by
  obtain ⟨hp, hinput⟩ := Session.input_of_resets hr limit
  have hpending : session.pending = "" := isPending_eq_false.1 hp
  have hstart : { session with context := session.startup } = start library session.streams := by
    rw [h.startup, hpending]
    rfl
  rw [hinput, hstart]

/-- After any actions the session knows the context it started from, and what is pending is not
complete; it waits exactly if the last line was answered so. Running a program leaves what is
pending. While the session waits, a line goes on with the pending text, whose effect is that of
the text as a program. A line that is taken as a reset makes a new beginning: all that follows is
answered as by a session that is started with the streams that are left. -/
theorem converse_from_start (library : Bool) (streams : Streams) (limit : Nat)
    (actions : List Action) :
    let answers := ((start library streams).converse limit actions).1
    let last := ((start library streams).converse limit actions).2
    last.startup = (start library streams).context ∧
    (last.pending = "" ∨ ∃ e, parseProgram last.pending = .error e ∧ e.isIncomplete = true) ∧
    (last.isPending = true ↔ lastReply? answers = some .incomplete) ∧
    (∀ source, (last.run limit source).2.pending = last.pending) ∧
    (last.isPending = true → ∀ line, last.Enters line (last.pending ++ "\n" ++ line) ∧
      ∃ pending, (last.input limit line).2 =
        { (last.run limit (last.pending ++ "\n" ++ line)).2 with pending }) ∧
    ∀ line, last.Resets line →
      last.isPending = false ∧
      last.input limit line = (.output "", start library last.streams) ∧
      ∀ later, last.converse limit (.input line :: later) =
        (.reply (.output "") :: ((start library last.streams).converse limit later).1,
          ((start library last.streams).converse limit later).2) := by
  intro answers last
  have h : IsConsistent library answers last :=
    (isConsistent_start library streams).converse limit actions
  refine ⟨h.startup, h.pends, h.waits, run_pending limit last, ?_, ?_⟩
  · intro hp line
    have henters : last.Enters line (last.pending ++ "\n" ++ line) :=
      ⟨command?_of_isPending hp line, by rw [textWith, if_pos hp]⟩
    exact ⟨henters, input_of_enters henters limit⟩
  · intro line hr
    have hinput := h.input_of_resets hr limit
    refine ⟨(input_of_resets hr limit).1, hinput, ?_⟩
    intro later
    simp only [converse, act, hinput]

/-- A list is begun, a program reads a line, and a line asks for a reset. -/
def resetTooEarly : List Action :=
  [.input "[1,", .run "y = in()", .input "?reset"]

def afterFirst (count : Nat) : Session :=
  ((start false (.ofText "a\nb")).converse stepLimit (resetTooEarly.take count)).2

/-- The reset goes on with the list, and is at fault. Another one is obeyed; the line that was
read stays read. -/
theorem converse_from_start_resetTooEarly :
    (afterFirst 2).isPending = true ∧ (afterFirst 2).Enters "?reset" "[1,\n?reset" ∧
    (afterFirst 3).context.contains "y" = true ∧ (afterFirst 3).Resets "?reset" ∧
    ∀ later, (afterFirst 3).converse stepLimit (.input "?reset" :: later) =
      (.reply (.output "") :: ((start false (.ofText "b")).converse stepLimit later).1,
        ((start false (.ofText "b")).converse stepLimit later).2) := by
  have hwaits : (afterFirst 2).isPending = true := by decide +kernel
  have htext : (afterFirst 2).pending = "[1," := by decide +kernel
  have hkept : (afterFirst 3).context.contains "y" = true := by decide +kernel
  have hresets : (afterFirst 3).Resets "?reset" := by
    rw [Resets]
    decide +kernel
  have hleft : (afterFirst 3).streams = .ofText "b" := by decide +kernel
  obtain ⟨-, -, -, -, hline, -⟩ :=
    converse_from_start false (.ofText "a\nb") stepLimit (resetTooEarly.take 2)
  obtain ⟨-, -, -, -, -, hreset⟩ :=
    converse_from_start false (.ofText "a\nb") stepLimit (resetTooEarly.take 3)
  -- from here on only these facts about the two sessions matter
  unfold afterFirst at hwaits htext hkept hresets hleft ⊢
  generalize ((start false (.ofText "a\nb")).converse stepLimit
    (resetTooEarly.take 2)).2 = waiting at *
  generalize ((start false (.ofText "a\nb")).converse stepLimit
    (resetTooEarly.take 3)).2 = last at *
  obtain ⟨henters, -⟩ := hline hwaits "?reset"
  obtain ⟨-, -, hlater⟩ := hreset "?reset" hresets
  rw [htext] at henters
  rw [hleft] at hlater
  exact ⟨hwaits, henters, hkept, hresets, hlater⟩

end Song.Session
