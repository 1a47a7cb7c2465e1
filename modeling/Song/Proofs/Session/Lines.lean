import Song.Proofs.Evaluation.Events
import Song.Proofs.Session.Conversation
import Song.Session.Repl

/-!
# The lines of a conversation

The interactive loop and the programs that it runs read from one input. Each line of
it is taken once and in order, by the loop after a prompt or by a program that asks
for a line. The loop goes on until a line is the command to quit, or until there is no
line that can be read.
-/
namespace Song

def Reply.events : Reply → List Event
  | .output text => if text.isEmpty then [] else [.wrote (text ++ "\n")]
  | .error text => [.complained (text ++ "\n")]
  | .incomplete | .quit => []

namespace Session

/-- The events of a statement. An evaluation that does not end leaves the session as it was. -/
def executeEvents (limit : Nat) (session : Session) (statement : Expr) : List Event :=
  match evaluate limit statement session.context session.streams with
  | .exhausted => []
  | _ => evaluateEvents limit statement session.context session.streams

def executeAllEvents (limit : Nat) (session : Session) : List Expr → List Event
  | [] => []
  | statement :: rest =>
    session.executeEvents limit statement ++
      match session.execute limit statement with
      | (.ok _, next) => executeAllEvents limit next rest
      | (.error _, _) => []

def inputEvents (limit : Nat) (session : Session) (line : String) : List Event :=
  match session.command? line with
  | some _ => []
  | none =>
    match parseProgram (session.textWith line) with
    | .error _ => []
    | .ok statements => { session with pending := "" }.executeAllEvents limit statements

theorem execute_passes (limit : Nat) (session : Session) (statement : Expr) :
    session.streams.Passes (session.executeEvents limit statement)
      (session.execute limit statement).2.streams := by
  rw [executeEvents, execute]
  cases hv : evaluate limit statement session.context session.streams with
  | exhausted => exact .done _
  | failure f after => exact evaluate_passes (by rw [hv]; rfl)
  | value v after =>
    have hpasses : session.streams.Passes
        (evaluateEvents limit statement session.context session.streams) after :=
      evaluate_passes (by rw [hv]; rfl)
    dsimp only
    cases install v session.context with
    | error cause => exact hpasses
    | ok context => exact hpasses

theorem executeAll_passes (limit : Nat) (session : Session) (statements : List Expr) :
    session.streams.Passes (session.executeAllEvents limit statements)
      (session.executeAll limit statements).2.streams := by
  induction statements generalizing session with
  | nil => exact .done _
  | cons statement rest ih =>
    have hfirst := execute_passes limit session statement
    rw [executeAllEvents, executeAll]
    rcases hexecute : session.execute limit statement with ⟨e | v, next⟩
    · rw [hexecute] at hfirst
      simpa using hfirst
    · rw [hexecute] at hfirst
      apply hfirst.trans
      have hrest := ih next
      dsimp only
      generalize next.executeAll limit rest = result at hrest ⊢
      obtain ⟨e | values, last⟩ := result <;> exact hrest

theorem input_passes (limit : Nat) (session : Session) (line : String) :
    session.streams.Passes (session.inputEvents limit line)
      (session.input limit line).2.streams := by
  rw [inputEvents, input]
  cases session.command? line with
  | some text =>
    obtain ⟨context, hkept⟩ := command_keeps session text
    dsimp only
    rw [hkept]
    exact .done _
  | none =>
    dsimp only
    cases parseProgram (session.textWith line) with
    | error e =>
      dsimp only
      split <;> exact .done _
    | ok statements =>
      have hall := executeAll_passes limit { session with pending := "" } statements
      dsimp only at hall ⊢
      generalize { session with pending := "" }.executeAll limit statements = result at hall ⊢
      obtain ⟨e | values, last⟩ := result <;> exact hall

/-- Only the command to quit is answered by quitting, and no text is pending then. -/
theorem quits_of_input {limit : Nat} {session : Session} {line : String}
    (h : (session.input limit line).1 = .quit) :
    session.isPending = false ∧ ∃ text, session.command? line = some text ∧
      (Text.words text).map String.ofList = ["quit"] := by
  rw [input] at h
  cases hc : session.command? line with
  | some text =>
    refine ⟨isPending_of_command? hc, text, rfl, ?_⟩
    rw [hc] at h
    dsimp only at h
    rw [command] at h
    split at h
    · cases h
    · split at h <;> cases h
    · cases h
    · assumption
    · cases h
  | none =>
    rw [hc] at h
    dsimp only at h
    cases hparse : parseProgram (session.textWith line) with
    | error e =>
      rw [hparse] at h
      dsimp only at h
      split at h <;> cases h
    | ok statements =>
      rw [hparse] at h
      dsimp only at h
      split at h <;> cases h

def promptFor (pending : Bool) : String :=
  if pending then continuationPrompt else prompt

/-- One round of the loop: whether a text was pending, the line that was taken, the events of the
program that it completed, and the answer. -/
structure Round where
  pending : Bool
  line : String
  events : List Event
  reply : Reply

namespace Round

def allEvents (round : Round) : List Event :=
  [.wrote (promptFor round.pending), .read (some (.text round.line))] ++ round.events ++
    round.reply.events

def lines (round : Round) : List InputLine :=
  .text round.line :: round.events.filterMap Event.line?

/-- The round answers the command to quit, when no text is pending. -/
def Quits (round : Round) : Prop :=
  round.reply = .quit ∧ round.pending = false ∧
    ∃ text, Text.trim round.line.toList = '?' :: text ∧
      (Text.words text).map String.ofList = ["quit"]

end Round

/-- How the loop comes to its end; the first two after a prompt. -/
inductive Ending where
  | endOfInput (pending : Bool)
  | unreadable (pending : Bool)
  | quit

namespace Ending

def events : Ending → List Event
  | endOfInput pending => [.wrote (promptFor pending), .read none, .wrote "\n"]
  | unreadable pending => [.wrote (promptFor pending), .read (some .undecodable)]
  | quit => []

def lines : Ending → List InputLine
  | unreadable _ => [.undecodable]
  | endOfInput _ | quit => []

def loopEnd : Ending → LoopEnd
  | unreadable _ => .unreadable
  | endOfInput _ | quit => .finished

end Ending

/-- The session after the prompt, when a line has been taken and these are left. -/
def prompted (session : Session) (rest : List InputLine) : Session :=
  { session with
    streams := { session.streams.write (promptFor session.isPending) with input := rest } }

/-- The loop goes through these rounds and comes to this end. -/
inductive Loops (limit : Nat) : Session → List Round → Ending → Session → Prop
  | endOfInput {session : Session} (h : session.streams.input = []) :
    Loops limit session [] (.endOfInput session.isPending)
      { session with
        streams := (session.streams.write (promptFor session.isPending)).write "\n" }
  | unreadable {session : Session} {rest : List InputLine}
    (h : session.streams.input = .undecodable :: rest) :
    Loops limit session [] (.unreadable session.isPending) (session.prompted rest)
  | quit {session final : Session} {line : String} {rest : List InputLine}
    (h : session.streams.input = .text line :: rest)
    (hinput : (session.prompted rest).input limit line = (.quit, final)) :
    Loops limit session
      [⟨session.isPending, line, (session.prompted rest).inputEvents limit line, .quit⟩] .quit final
  | next {session after final : Session} {line : String} {rest : List InputLine} {reply : Reply}
    {rounds : List Round} {ending : Ending} (h : session.streams.input = .text line :: rest)
    (hinput : (session.prompted rest).input limit line = (reply, after)) (hreply : reply ≠ .quit)
    (hrest : Loops limit (after.writeReply reply) rounds ending final) :
    Loops limit session
      (⟨session.isPending, line, (session.prompted rest).inputEvents limit line, reply⟩ :: rounds)
      ending final

theorem writeReply_passes (reply : Reply) (session : Session) :
    session.streams.Passes reply.events (session.writeReply reply).streams := by
  cases reply with
  | output text =>
    rw [Reply.events, writeReply]
    split
    · exact .done _
    · exact .wrote _ (.done _)
  | error text => exact .complained _ (.done _)
  | incomplete => exact .done _
  | quit => exact .done _

theorem prompted_passes {session : Session} {line : InputLine} {rest : List InputLine}
    (h : session.streams.input = line :: rest) :
    session.streams.Passes [.wrote (promptFor session.isPending), .read (some line)]
      (session.prompted rest).streams := by
  have hread : (session.streams.write (promptFor session.isPending)).Passes [.read (some line)]
      (session.prompted rest).streams := by
    have hdone := Streams.Passes.read
      (.done (session.streams.write (promptFor session.isPending)).readLine.2)
    simpa [Streams.write, Streams.readLine, h, prompted] using hdone
  exact .wrote _ hread

/-- The events of a round lead from before its prompt to after its answer. -/
theorem round_passes {limit : Nat} {session after : Session} {line : String}
    {rest : List InputLine} {reply : Reply} (h : session.streams.input = .text line :: rest)
    (hinput : (session.prompted rest).input limit line = (reply, after)) :
    session.streams.Passes
      (Round.allEvents
        ⟨session.isPending, line, (session.prompted rest).inputEvents limit line, reply⟩)
      (after.writeReply reply).streams := by
  have hprogram := input_passes limit (session.prompted rest) line
  rw [hinput] at hprogram
  exact ((prompted_passes h).trans hprogram).trans (writeReply_passes reply after)

namespace Loops

variable {limit : Nat} {session final : Session} {rounds : List Round} {ending : Ending}

/-- The events of all rounds and of the end are what happens on the streams. -/
theorem passes (h : Loops limit session rounds ending final) :
    session.streams.Passes (rounds.flatMap Round.allEvents ++ ending.events) final.streams := by
  induction h with
  | @endOfInput session h =>
    apply Streams.Passes.wrote _
    have hread := Streams.Passes.read (.wrote "\n"
      (.done ((session.streams.write (promptFor session.isPending)).readLine.2.write "\n")))
    simpa [Streams.write, Streams.readLine, h] using hread
  | unreadable h => exact prompted_passes h
  | quit h hinput =>
    have hround := round_passes h hinput
    simpa [Ending.events, writeReply] using hround
  | next h hinput _ _ ih =>
    rw [List.flatMap_cons, List.append_assoc]
    exact (round_passes h hinput).trans ih

/-- At the end of the input nothing is left of it. -/
theorem input_eq_nil (h : Loops limit session rounds ending final) {pending : Bool}
    (hend : ending = .endOfInput pending) : final.streams.input = [] := by
  induction h with
  | endOfInput h => exact h
  | unreadable | quit => cases hend
  | next _ _ _ _ ih => exact ih hend

/-- The loop quits after a line that is the command to quit. -/
theorem quits (h : Loops limit session rounds ending final) (hend : ending = .quit) :
    ∃ before last, rounds = before ++ [last] ∧ last.Quits := by
  induction h with
  | endOfInput | unreadable => cases hend
  | @quit session final line rest h hinput =>
    refine ⟨[], _, rfl, rfl, ?_⟩
    obtain ⟨hpending, text, hcommand, hwords⟩ := quits_of_input (congrArg Prod.fst hinput)
    refine ⟨hpending, text, ?_, hwords⟩
    rw [command?, if_neg (Bool.eq_false_iff.1 hpending)] at hcommand
    split at hcommand <;> cases hcommand
    assumption
  | next _ _ _ _ ih =>
    obtain ⟨before, last, rfl, hlast⟩ := ih hend
    exact ⟨_ :: before, last, rfl, hlast⟩

end Loops

theorem readLine_writePrompt {session : Session} {line : InputLine} {rest : List InputLine}
    (h : session.streams.input = line :: rest) :
    session.writePrompt.streams.readLine = (some line, (session.prompted rest).streams) := by
  simp only [writePrompt, prompted, promptFor, Streams.readLine, Streams.write, h]

/-- A line and the program that it completes leave fewer lines than there were. -/
theorem length_input_lt {limit : Nat} {session after : Session} {line : String}
    {rest : List InputLine} {reply : Reply} (h : session.streams.input = .text line :: rest)
    (hinput : (session.prompted rest).input limit line = (reply, after)) :
    (after.writeReply reply).streams.input.length < session.streams.input.length := by
  have hprogram := (input_passes limit (session.prompted rest) line).length_input
  have hreply := (writeReply_passes reply after).length_input
  rw [hinput] at hprogram
  dsimp only [prompted] at hprogram
  rw [h, List.length_cons]
  omega

private theorem replWithin_text (limit count : Nat) {session : Session} {line : String}
    {rest : List InputLine} (h : session.streams.input = .text line :: rest) :
    replWithin limit (count + 1) session =
      match (session.prompted rest).input limit line with
      | (.quit, final) => (.finished, final)
      | (reply, after) => replWithin limit count (after.writeReply reply) := by
  rw [replWithin, readLine_writePrompt h]
  rfl

/-- The loop has rounds enough for all lines, since each round takes one of them. -/
theorem replWithin_loops (limit : Nat) {count : Nat} {session : Session}
    (h : session.streams.input.length < count) :
    ∃ rounds ending final, Loops limit session rounds ending final ∧
      replWithin limit count session = (ending.loopEnd, final) := by
  induction count generalizing session with
  | zero => exact absurd h (Nat.not_lt_zero _)
  | succ count ih =>
    cases hlines : session.streams.input with
    | nil =>
      refine ⟨[], .endOfInput session.isPending, _, .endOfInput hlines, ?_⟩
      simp only [replWithin, writePrompt, Streams.readLine, Streams.write, hlines]
      rfl
    | cons line rest =>
      cases line with
      | undecodable =>
        refine ⟨[], .unreadable session.isPending, _, .unreadable hlines, ?_⟩
        rw [replWithin, readLine_writePrompt hlines]
        rfl
      | text line =>
        rw [replWithin_text limit count hlines]
        rcases hinput : (session.prompted rest).input limit line with ⟨reply, after⟩
        -- Any other answer than quitting leaves fewer lines for the rounds to come.
        by_cases hquit : reply = .quit
        · subst hquit
          exact ⟨_, .quit, after, .quit hlines hinput, rfl⟩
        · have hfewer : (after.writeReply reply).streams.input.length < count :=
            (length_input_lt hlines hinput).trans_le (Nat.le_of_lt_succ h)
          obtain ⟨rounds, ending, final, hloops, hfinal⟩ := ih hfewer
          refine ⟨_, ending, final, .next hlines hinput hquit hloops, ?_⟩
          rw [← hfinal]
          cases reply with
          | quit => exact absurd rfl hquit
          | _ => rfl

theorem filterMap_allEvents (round : Round) :
    round.allEvents.filterMap Event.line? = round.lines := by
  have hreply : round.reply.events.filterMap Event.line? = [] := by
    cases round.reply with
    | output text =>
      rw [Reply.events]
      split <;> rfl
    | _ => rfl
  rw [Round.allEvents, List.filterMap_append, List.filterMap_append, hreply, List.append_nil]
  rfl

theorem filterMap_events (ending : Ending) :
    ending.events.filterMap Event.line? = ending.lines := by
  cases ending <;> rfl

theorem repl_loops (limit : Nat) (session : Session) :
    ∃ rounds ending, Loops limit session rounds ending (repl limit session).2 ∧
      (repl limit session).1 = ending.loopEnd := by
  obtain ⟨rounds, ending, final, hloops, hfinal⟩ :=
    replWithin_loops limit (Nat.lt_succ_self session.streams.input.length)
  rw [repl, hfinal]
  exact ⟨rounds, ending, hloops, rfl⟩

/-- No line is lost, taken twice or out of order. An evaluation that ends has taken as many lines
off the input as it asked for while there were any, and has only added to what was written. The
interactive loop ends: each line up to the command to quit or the end of the input is answered in
one round, after one prompt, or is taken by a program in one of the rounds. -/
theorem lines_taken_once (limit : Nat) :
    (∀ e context streams after, (evaluate limit e context streams).streams? = some after →
      streams.Passes (evaluateEvents limit e context streams) after ∧
      after.input <:+ streams.input ∧
      streams.input.length =
        (evaluateEvents limit e context streams).countP Event.tookLine + after.input.length ∧
      after.output = streams.output ++
        String.join ((evaluateEvents limit e context streams).map Event.output) ∧
      after.errors = streams.errors ++
        String.join ((evaluateEvents limit e context streams).map Event.errors)) ∧
    ∀ session : Session, ∃ rounds ending,
      Loops limit session rounds ending (repl limit session).2 ∧
      (repl limit session).1 = ending.loopEnd ∧
      session.streams.Passes (rounds.flatMap Round.allEvents ++ ending.events)
        (repl limit session).2.streams ∧
      session.streams.input =
        rounds.flatMap Round.lines ++ ending.lines ++ (repl limit session).2.streams.input ∧
      (repl limit session).2.streams.output = session.streams.output ++
        String.join ((rounds.flatMap Round.allEvents ++ ending.events).map Event.output) ∧
      (∀ pending, ending = .endOfInput pending → (repl limit session).2.streams.input = []) ∧
      (ending = .quit → ∃ before last, rounds = before ++ [last] ∧ last.Quits) := by
  constructor
  · intro e context streams after h
    have hpasses := evaluate_passes h
    exact ⟨hpasses, ⟨_, hpasses.input_eq.symm⟩, hpasses.length_input, hpasses.output_eq,
      hpasses.errors_eq⟩
  · intro session
    obtain ⟨rounds, ending, hloops, hend⟩ := repl_loops limit session
    refine ⟨rounds, ending, hloops, hend, hloops.passes, ?_, hloops.passes.output_eq,
      fun pending => hloops.input_eq_nil, hloops.quits⟩
    rw [hloops.passes.input_eq, List.filterMap_append, List.filterMap_flatMap, filterMap_events]
    simp only [filterMap_allEvents]

/-- A session that is given these lines. The first asks for a line, and the third is completed by
the fourth. -/
def asking : Session :=
  start false (.ofText "in()\nhello\n1 +\n2\n?quit\nleft")

theorem lines_taken_once_asking :
    (evaluate 2 (.call "in" []) BuiltIn.startingContext (.ofText "hello\nleft")).streams? =
      some (.ofText "left") ∧
    Streams.Passes (.ofText "hello\nleft")
      (evaluateEvents 2 (.call "in" []) BuiltIn.startingContext (.ofText "hello\nleft"))
      (.ofText "left") ∧
    ∃ rounds ending, Loops 4 asking rounds ending (repl 4 asking).2 ∧
      rounds.flatMap Round.lines ++ ending.lines =
        [.text "in()", .text "hello", .text "1 +", .text "2", .text "?quit"] := by
  obtain ⟨hevaluation, -⟩ := lines_taken_once 2
  obtain ⟨-, hloop⟩ := lines_taken_once 4
  have hstreams : (evaluate 2 (.call "in" []) BuiltIn.startingContext
      (.ofText "hello\nleft")).streams? = some (.ofText "left") := by decide +kernel
  obtain ⟨rounds, ending, hloops, -, -, hlines, -⟩ := hloop asking
  refine ⟨hstreams, (hevaluation _ _ _ _ hstreams).1, rounds, ending, hloops, ?_⟩
  have hleft : (repl 4 asking).2.streams.input = [.text "left"] := by decide +kernel
  have hall : asking.streams.input =
      [.text "in()", .text "hello", .text "1 +", .text "2", .text "?quit"] ++ [.text "left"] := by
    decide +kernel
  rw [hleft, hall] at hlines
  exact (List.append_cancel_right hlines).symm

end Session
end Song
