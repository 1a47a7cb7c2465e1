import Song.Proofs.Session.LineByLine

/-!
# What a failure leaves

A text with a syntax error changes nothing. A program is executed up to the first
statement that fails, in its evaluation or when its value is installed: the context
is the one that the statements before it leave, the streams are those after its own
evaluation, and what follows it does not matter. Both ways of giving a text to a
session execute it so.
-/
namespace Song

/-- The statement fails and leaves the streams like this: its evaluation fails, or its value
cannot be installed. -/
inductive Fails (limit : Nat) (statement : Expr) (context : Bindings) (streams : Streams) :
    Failure → Streams → Prop
  | evaluation {f : Failure} {after : Streams}
    (h : evaluate limit statement context streams = .failure f after) :
    Fails limit statement context streams f after
  | installation {v : Expr} {cause : Cause} {after : Streams}
    (h : evaluate limit statement context streams = .value v after)
    (hi : install v context = .error cause) :
    Fails limit statement context streams (.ofCause cause) after

/-- Why a value does not fit the target of an assignment: the target cannot be matched at all, or
it does not match. Names that were bound before this showed are not kept. -/
def Expr.Misfits (target v : Expr) (cause : Cause) : Prop :=
  Expr.matchPattern target v .empty = .error cause ∨
    Expr.matchPattern target v .empty = .ok none ∧ cause = .signatureMismatch [v]

theorem install_assign_of_misfits {target v : Expr} {cause : Cause} (h : target.Misfits v cause)
    (context : Bindings) : install (.assign target v) context = .error cause := by
  rcases h with h | ⟨h, rfl⟩
  · rw [install, h]
  · rw [install, h]

theorem evaluate_assign_of_value {limit : Nat} {value v : Expr} {context : Bindings}
    {streams after : Streams} (h : evaluate limit value context streams = .value v after)
    (target : Expr) :
    evaluate (limit + 1) (.assign target value) context streams =
      .value (.assign target v) after := by
  simp only [evaluate, Reduction.located, Reduction.step, h]
  rfl

namespace Session

theorem execute_of_fails {limit : Nat} {session : Session} {statement : Expr} {f : Failure}
    {streams : Streams} (h : Fails limit statement session.context session.streams f streams) :
    session.execute limit statement = (.error (.failed f), { session with streams }) := by
  cases h with
  | evaluation h => rw [execute, h]
  | installation h hi =>
    rw [execute, h]
    dsimp only
    rw [hi]

/-- An error comes from a statement that fails, or from an evaluation that does not finish. -/
theorem execute_error {limit : Nat} {session last : Session} {statement : Expr} {e : SessionError}
    (h : session.execute limit statement = (.error e, last)) :
    e = .unfinished ∨ ∃ f streams, e = .failed f ∧
      Fails limit statement session.context session.streams f streams ∧
      last = { session with streams } := by
  rw [execute] at h
  cases he : evaluate limit statement session.context session.streams with
  | exhausted =>
    obtain ⟨rfl, -⟩ : .unfinished = e ∧ session = last := by simpa [he] using h
    exact Or.inl rfl
  | failure f streams =>
    obtain ⟨rfl, rfl⟩ : .failed f = e ∧ { session with streams } = last := by simpa [he] using h
    exact Or.inr ⟨f, streams, rfl, .evaluation he, rfl⟩
  | value v streams =>
    cases hi : install v session.context with
    | ok context => simp [he, hi] at h
    | error cause =>
      obtain ⟨rfl, rfl⟩ : .failed (.ofCause cause) = e ∧ { session with streams } = last := by
        simpa [he, hi] using h
      exact Or.inr ⟨.ofCause cause, streams, rfl, .installation he hi, rfl⟩

/-- The program comes to a statement that fails. The session is the one that the statements before
it lead to, with the streams that the failing statement leaves. -/
def StopsAt (limit : Nat) (session : Session) (program : List Expr) (f : Failure)
    (last : Session) : Prop :=
  ∃ done statement later values before streams, program = done ++ statement :: later ∧
    session.executeAll limit done = (.ok values, before) ∧
    Fails limit statement before.context before.streams f streams ∧
    last = { before with streams }

theorem executeAll_of_stopsAt {limit : Nat} {session last : Session} {program : List Expr}
    {f : Failure} (h : session.StopsAt limit program f last) :
    session.executeAll limit program = (.error (.failed f), last) := by
  obtain ⟨done, statement, later, values, before, streams, rfl, hdone, hfails, rfl⟩ := h
  rw [executeAll_append hdone, executeAll, execute_of_fails hfails]

theorem executeAll_error {limit : Nat} {session last : Session} {program : List Expr}
    {e : SessionError} (h : session.executeAll limit program = (.error e, last)) :
    e = .unfinished ∨ ∃ f, e = .failed f ∧ session.StopsAt limit program f last := by
  induction program generalizing session with
  | nil => simp [executeAll] at h
  | cons statement rest ih =>
    rw [executeAll] at h
    rcases hfirst : session.execute limit statement with ⟨other | v, next⟩
    · obtain ⟨rfl, rfl⟩ : other = e ∧ next = last := by simpa [hfirst] using h
      rcases execute_error hfirst with rfl | ⟨f, streams, rfl, hfails, rfl⟩
      · exact Or.inl rfl
      · exact Or.inr ⟨f, rfl, [], statement, rest, [], session, streams, rfl, rfl, hfails, rfl⟩
    · rcases hrest : next.executeAll limit rest with ⟨other | values, after⟩
      · obtain ⟨rfl, rfl⟩ : other = e ∧ after = last := by simpa [hfirst, hrest] using h
        rcases ih hrest with
          rfl | ⟨f, rfl, done, failing, later, values, before, streams, rfl, hdone, hfails, rfl⟩
        · exact Or.inl rfl
        · -- the first statement is one of those before the failing one
          have hlonger : session.executeAll limit (statement :: done) =
              (.ok (v :: values), before) := by
            simp only [executeAll, hfirst, hdone]
          exact Or.inr ⟨f, rfl, statement :: done, failing, later, v :: values, before, streams,
            rfl, hlonger, hfails, rfl⟩
      · simp [hfirst, hrest] at h

/-- Executing a program fails exactly if it comes to a statement that fails. -/
theorem executeAll_eq_failed_iff {limit : Nat} {session last : Session} {program : List Expr}
    {f : Failure} :
    session.executeAll limit program = (.error (.failed f), last) ↔
      session.StopsAt limit program f last := by
  refine ⟨?_, executeAll_of_stopsAt⟩
  intro h
  obtain h | ⟨g, hg, hstops⟩ := executeAll_error h
  · cases h
  · cases hg
    exact hstops

/-- What follows the failing statement plays no part. -/
theorem StopsAt.exists_take {limit : Nat} {session last : Session} {program : List Expr}
    {f : Failure} (h : session.StopsAt limit program f last) :
    ∃ k < program.length, ∀ later,
      session.StopsAt limit (program.take (k + 1) ++ later) f last := by
  obtain ⟨done, statement, rest, values, before, streams, rfl, hdone, hfails, rfl⟩ := h
  refine ⟨done.length, by simp, ?_⟩
  intro later
  have htake : (done ++ statement :: rest).take (done.length + 1) ++ later =
      done ++ statement :: later := by
    rw [List.take_length_add_append, List.take_succ_cons, List.take_zero, List.append_assoc,
      List.singleton_append]
  exact ⟨done, statement, later, values, before, streams, htake, hdone, hfails, rfl⟩

/-- The line is no command, and with what is pending it makes the text. -/
def Enters (session : Session) (line source : String) : Prop :=
  session.command? line = none ∧ session.textWith line = source

/-- What is pending plays no part when statements are executed. -/
theorem executeAll_withPending (limit : Nat) (session : Session) (pending : String)
    (program : List Expr) :
    { session with pending }.executeAll limit program =
      ((session.executeAll limit program).1,
        { (session.executeAll limit program).2 with pending }) := by
  obtain ⟨result, reached, after, h⟩ :=
    executeAll_frame limit session.context session.streams program
  have hsession := h session.startup session.pending
  have hother := h session.startup pending
  rw [hsession, hother]

/-- A line that makes a text with a syntax error is answered without executing anything. -/
theorem input_of_malformed {session : Session} {line source : String} {e : SyntaxError}
    (h : session.Enters line source) (hparse : parseProgram source = .error e) (limit : Nat) :
    session.input limit line =
      if e.isIncomplete then (.incomplete, { session with pending := source })
      else (.error (e.report source), { session with pending := "" }) := by
  obtain ⟨hcommand, rfl⟩ := h
  rw [input, hcommand]
  dsimp only
  rw [hparse]

/-- A line that makes a program is answered by what running the program gives. -/
theorem input_of_run {session : Session} {line source : String} {program : List Expr}
    (h : session.Enters line source) (hparse : parseProgram source = .ok program) (limit : Nat) :
    session.input limit line =
      match session.run limit source with
      | (.ok results, last) =>
        (.output ("\n".intercalate (results.map Expr.render)), { last with pending := "" })
      | (.error e, last) => (.error e.message, { last with pending := "" }) := by
  obtain ⟨hcommand, rfl⟩ := h
  rw [input, hcommand, run, hparse]
  dsimp only
  rw [hparse]
  dsimp only
  rw [executeAll_withPending]
  rcases session.executeAll limit program with ⟨e | results, last⟩ <;> rfl

/-- A session that is given a text with a syntax error keeps its context and streams. If a
statement of the text fails, those before it are executed, its own evaluation changes the streams,
and nothing else happens; an error in an answer always comes from such a statement, or from an
evaluation that does not finish. An assignment whose target does not fit is a statement that fails,
so that it binds none of its names. -/
theorem failure_keeps_work_before (limit : Nat) (session : Session) (source : String) :
    (∀ e, parseProgram source = .error e →
      session.run limit source = (.error (.malformed source e), session) ∧
      ∀ line, session.Enters line source →
        (session.input limit line).2.context = session.context ∧
        (session.input limit line).2.streams = session.streams) ∧
    (∀ program, parseProgram source = .ok program →
      (∀ f last, session.run limit source = (.error (.failed f), last) ↔
        session.StopsAt limit program f last) ∧
      (∀ f last, session.StopsAt limit program f last → ∃ k < program.length, ∀ later,
        session.executeAll limit (program.take (k + 1) ++ later) = (.error (.failed f), last)) ∧
      ∀ line, session.Enters line source →
        (∀ f last, session.StopsAt limit program f last →
          session.input limit line = (.error f.trace, { last with pending := "" })) ∧
        ∀ text last, session.input limit line = (.error text, last) →
          text = SessionError.unfinished.message ∨
          ∃ f reached, session.StopsAt limit program f reached ∧ text = f.trace ∧
            last = { reached with pending := "" }) ∧
    ∀ target value v cause context streams after,
      evaluate limit value context streams = .value v after → target.Misfits v cause →
        Fails (limit + 1) (.assign target value) context streams (.ofCause cause) after := by
  refine ⟨fun e hparse => ⟨?_, fun line hline => ?_⟩, fun program hparse => ?_, ?_⟩
  · rw [run, hparse]
  · rw [input_of_malformed hline hparse]
    split <;> exact ⟨rfl, rfl⟩
  · have hrun : session.run limit source = session.executeAll limit program := by rw [run, hparse]
    refine ⟨fun f last => ?_, fun f last hstops => ?_,
      fun line hline => ⟨fun f last hstops => ?_, fun text last h => ?_⟩⟩
    · rw [hrun]
      exact executeAll_eq_failed_iff
    · obtain ⟨k, hk, hlater⟩ := hstops.exists_take
      exact ⟨k, hk, fun later => executeAll_of_stopsAt (hlater later)⟩
    · rw [input_of_run hline hparse, hrun, executeAll_of_stopsAt hstops]
      rfl
    · rw [input_of_run hline hparse, hrun] at h
      rcases hall : session.executeAll limit program with ⟨e | values, reached⟩
      · obtain ⟨rfl, rfl⟩ : e.message = text ∧ { reached with pending := "" } = last := by
          simpa [hall] using h
        rcases executeAll_error hall with rfl | ⟨f, rfl, hstops⟩
        · exact Or.inl rfl
        · exact Or.inr ⟨f, reached, hstops, rfl, rfl⟩
      · simp [hall] at h
  · intro target value v cause context streams after hvalue hmisfits
    have hassign := evaluate_assign_of_value hvalue target
    exact .installation hassign (install_assign_of_misfits hmisfits context)

/-- The second statement reads a line and binds a name before its target does not fit. -/
def halfBound : String :=
  "a = 1\n[b, 2] = [in(), 3]\nd = in()"

/-- The name that was bound is forgotten, the line that was read is not, and the other line is
left. -/
theorem failure_keeps_work_before_halfBound :
    let session := start false (.ofText "x\ny")
    let target := Expr.list [.name "b", .int 2]
    let value := Expr.list [.int 1, .int 3]
    (∃ program f last, parseProgram halfBound = .ok program ∧
      session.StopsAt stepLimit program f last ∧
      session.run stepLimit halfBound = (.error (.failed f), last) ∧
      session.input stepLimit halfBound = (.error f.trace, { last with pending := "" }) ∧
      last.context.contains "a" = true ∧ last.context.contains "b" = false ∧
      last.context.contains "d" = false ∧ last.streams = .ofText "y") ∧
    target.Misfits value (.signatureMismatch [value]) ∧
    Fails 3 (.assign target value) session.context session.streams
      (.ofCause (.signatureMismatch [value])) session.streams := by
  intro session target value
  have hmisfits : target.Misfits value (.signatureMismatch [value]) := Or.inr ⟨rfl, rfl⟩
  obtain ⟨-, -, hassign⟩ := failure_keeps_work_before 2 session halfBound
  refine ⟨?_, hmisfits, hassign target value value _ _ _ _ rfl hmisfits⟩
  cases hparse : parseProgram halfBound with
  | error e =>
    have hread : (parseProgram halfBound).isOk = true := by decide +kernel
    rw [hparse] at hread
    cases hread
  | ok program =>
    obtain ⟨-, hprogram, -⟩ := failure_keeps_work_before stepLimit session halfBound
    obtain ⟨hrun, -, hline⟩ := hprogram program hparse
    obtain ⟨hanswer, herror⟩ := hline halfBound ⟨by decide +kernel, rfl⟩
    have htext : (session.input stepLimit halfBound).1 =
        .error "Evaluation error\n 💥  no clause matches ([\"x\", 3])" := by
      decide +kernel
    obtain hunfinished | ⟨f, last, hstops, -, -⟩ := herror _ _ (Prod.ext htext rfl)
    · exact absurd hunfinished (by decide +kernel)
    · have hstopped := (hrun f last).2 hstops
      have hlast : last = (session.run stepLimit halfBound).2 := by rw [hstopped]
      refine ⟨program, f, last, rfl, hstops, hstopped, hanswer f last hstops, ?_⟩
      rw [hlast]
      decide +kernel

end Session
end Song
