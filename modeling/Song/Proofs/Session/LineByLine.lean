import Song.Proofs.Grammar.Joined
import Song.Proofs.Session.Pending

/-!
# Lines one by one, and a whole program

A session that is given a program in lines cuts it into texts that are complete,
and executes each as soon as it is. Running the lines as one program executes the
same statements in the same order, so that it ends in the same session with the
same values.
-/
namespace Song

namespace Reply

def shown? : Reply → Option String
  | output text => some text
  | _ => none

/-- The line was taken without an error: more lines are wanted, or values are shown. -/
def IsAccepting (reply : Reply) : Prop :=
  reply = .incomplete ∨ ∃ text, reply = .output text

end Reply

namespace Session

def replies (limit : Nat) (session : Session) : List String → List Reply
  | [] => []
  | line :: rest =>
    (session.input limit line).1 :: replies limit (session.input limit line).2 rest

/-- No line is taken as a command when its turn comes. -/
def TakesNoCommand (limit : Nat) (session : Session) : List String → Prop
  | [] => True
  | line :: rest =>
    session.command? line = none ∧ TakesNoCommand limit (session.input limit line).2 rest

/-- Lines that together are a complete text, and the values of its statements. -/
structure Entry where
  lines : List String
  nonempty : lines ≠ []
  values : List Expr

namespace Entry

def text (entry : Entry) : String :=
  "\n".intercalate entry.lines

def shown (entry : Entry) : String :=
  "\n".intercalate (entry.values.map Expr.render)

def replies (entry : Entry) : List Reply :=
  List.replicate (entry.lines.length - 1) .incomplete ++ [.output entry.shown]

/-- The text is a program with as many statements as there are values. -/
def IsRead (entry : Entry) : Prop :=
  ∃ statements, parseProgram entry.text = .ok statements ∧
    statements.length = entry.values.length

theorem filterMap_replies (entry : Entry) :
    entry.replies.filterMap Reply.shown? = [entry.shown] := by
  simp [replies, List.filterMap_replicate, Reply.shown?]

theorem filterMap_flatMap_replies (entries : List Entry) :
    (entries.flatMap replies).filterMap Reply.shown? = entries.map shown := by
  induction entries with
  | nil => rfl
  | cons entry rest ih => simp [ih, filterMap_replies]

end Entry

/-- Statements after others that have values. -/
theorem executeAll_append {limit : Nat} {session after : Session} {first : List Expr}
    {values : List Expr} (h : session.executeAll limit first = (.ok values, after))
    (second : List Expr) :
    session.executeAll limit (first ++ second) =
      match after.executeAll limit second with
      | (.error e, last) => (.error e, last)
      | (.ok others, last) => (.ok (values ++ others), last) := by
  induction first generalizing session values with
  | nil =>
    obtain ⟨rfl, rfl⟩ : [] = values ∧ session = after := by simpa [executeAll] using h
    rw [List.nil_append]
    rcases session.executeAll limit second with ⟨_ | others, last⟩ <;> rfl
  | cons statement rest ih =>
    rw [executeAll] at h
    rw [List.cons_append, executeAll]
    split at h
    case h_1 => simp at h
    case h_2 value next hvalue =>
      split at h
      case h_1 => simp at h
      case h_2 others last hothers =>
        obtain ⟨rfl, rfl⟩ : value :: others = values ∧ last = after := by simpa using h
        rw [ih hothers]
        rcases last.executeAll limit second with ⟨_ | more, final⟩ <;> rfl

theorem length_of_executeAll {limit : Nat} {session after : Session} {statements : List Expr}
    {values : List Expr} (h : session.executeAll limit statements = (.ok values, after)) :
    statements.length = values.length := by
  induction statements generalizing session values with
  | nil =>
    obtain ⟨rfl, -⟩ : [] = values ∧ session = after := by simpa [executeAll] using h
    rfl
  | cons statement rest ih =>
    rw [executeAll] at h
    split at h
    case h_1 => simp at h
    case h_2 value next hvalue =>
      split at h
      case h_1 => simp at h
      case h_2 others last hothers =>
        obtain ⟨rfl, rfl⟩ : value :: others = values ∧ last = after := by simpa using h
        simp [ih hothers]

/-- A program that is run before another text in a new line. -/
theorem run_joined {limit : Nat} {session after last : Session} {first second : String}
    {values others : List Expr} (hfirst : session.run limit first = (.ok values, after))
    (hsecond : after.run limit second = (.ok others, last)) :
    session.run limit (first ++ "\n" ++ second) = (.ok (values ++ others), last) := by
  rw [run] at hfirst hsecond ⊢
  cases hparse : parseProgram first with
  | error e => simp [hparse] at hfirst
  | ok statements =>
    cases hlater : parseProgram second with
    | error e => simp [hlater] at hsecond
    | ok later =>
      rw [hparse] at hfirst
      rw [hlater] at hsecond
      dsimp only at hfirst hsecond
      rw [parseProgram_joined_eq hparse, hlater]
      dsimp only
      rw [executeAll_append hfirst, hsecond]

/-- Running some lines and then others comes to running all of them. -/
theorem run_lines_append {limit : Nat} {session after last : Session} {first second : List String}
    {values others : List Expr} (hne : first ≠ [])
    (hfirst : session.run limit ("\n".intercalate first) = (.ok values, after))
    (hsecond : after.run limit ("\n".intercalate second) = (.ok others, last)) :
    session.run limit ("\n".intercalate (first ++ second)) = (.ok (values ++ others), last) := by
  cases second with
  | nil =>
    have hempty : after.run limit ("\n".intercalate []) = (.ok [], after) := rfl
    rw [hempty] at hsecond
    obtain ⟨rfl, rfl⟩ : [] = others ∧ after = last := by simpa using hsecond
    rw [List.append_nil, List.append_nil, hfirst]
  | cons next more =>
    rw [String.intercalate_append_of_ne_nil hne (List.cons_ne_nil _ _)]
    exact run_joined hfirst hsecond

/-- A line that is taken without an error leaves its text pending, or it completes the text and
shows the values that running the text gives. -/
theorem input_cases {limit : Nat} {session : Session} {line : String}
    (hc : session.command? line = none) (ha : (session.input limit line).1.IsAccepting) :
    (session.textWith line ≠ "" ∧ session.input limit line =
      (.incomplete, { session with pending := session.textWith line })) ∨
    ∃ statements values after,
      parseProgram (session.textWith line) = .ok statements ∧
      statements.length = values.length ∧
      { session with pending := "" }.run limit (session.textWith line) = (.ok values, after) ∧
      session.input limit line = (.output ("\n".intercalate (values.map Expr.render)), after) := by
  rw [input, hc] at ha ⊢
  dsimp only at ha ⊢
  cases hparse : parseProgram (session.textWith line) with
  | error e =>
    rw [hparse] at ha
    dsimp only at ha ⊢
    by_cases he : e.isIncomplete = true
    · exact Or.inl ⟨ne_empty_of_parseProgram_error hparse, by rw [if_pos he]⟩
    · rw [if_neg he] at ha
      simp [Reply.IsAccepting] at ha
  | ok statements =>
    rw [hparse] at ha
    dsimp only at ha ⊢
    generalize hall : { session with pending := "" }.executeAll limit statements = result at ha ⊢
    obtain ⟨e | values, after⟩ := result
    · simp [Reply.IsAccepting] at ha
    · right
      refine ⟨statements, values, after, rfl, length_of_executeAll hall, ?_, rfl⟩
      rw [run, hparse]
      exact hall

def Holds (session : Session) (held : List String) : Prop :=
  session.pending = "\n".intercalate held ∧ (held ≠ [] → session.isPending = true)

theorem Holds.textWith {session : Session} {held : List String} (h : session.Holds held)
    (line : String) : session.textWith line = "\n".intercalate (held ++ [line]) := by
  obtain ⟨hpending, hheld⟩ := h
  cases held with
  | nil =>
    have hnot : session.isPending = false := isPending_eq_false.2 hpending
    simp [Session.textWith, hnot]
  | cons first rest =>
    rw [Session.textWith, if_pos (hheld (List.cons_ne_nil _ _)), hpending,
      String.intercalate_append_of_ne_nil (List.cons_ne_nil _ _) (List.cons_ne_nil _ _),
      String.intercalate_singleton]

/-- The text and one more line are pending after a line that is incomplete. -/
theorem Holds.incomplete {session : Session} {held : List String} (h : session.Holds held)
    {line : String} (hne : session.textWith line ≠ "") :
    { session with pending := session.textWith line }.Holds (held ++ [line]) := by
  refine ⟨h.textWith line, ?_⟩
  intro _
  rw [← Bool.not_eq_false, isPending_eq_false]
  exact hne

theorem holds_nil {session : Session} (h : session.pending = "") : session.Holds [] :=
  ⟨h, fun hne => absurd rfl hne⟩

/-- What lines of input come to, after the lines that are held: texts that are complete, their
answers, and the same session and values as for running all lines at once. -/
theorem exists_entries {limit : Nat} {lines held : List String} {session : Session}
    (hheld : session.Holds held) (hc : session.TakesNoCommand limit lines)
    (ha : ∀ reply ∈ session.replies limit lines, reply.IsAccepting)
    (hend : (session.feed limit lines).isPending = false) :
    ∃ entries : List Entry,
      entries.flatMap Entry.lines = held ++ lines ∧
      (∀ entry ∈ entries, entry.IsRead) ∧
      { session with pending := "" }.run limit ("\n".intercalate (held ++ lines)) =
        (.ok (entries.flatMap Entry.values), session.feed limit lines) ∧
      List.replicate held.length .incomplete ++ session.replies limit lines =
        entries.flatMap Entry.replies := by
  induction lines generalizing session held with
  | nil =>
    -- nothing is pending at the end, so no lines are held
    have hpending : session.pending = "" := isPending_eq_false.1 hend
    cases held with
    | nil =>
      refine ⟨[], rfl, nofun, ?_, rfl⟩
      rw [feed, ← hpending]
      rfl
    | cons first rest =>
      rw [feed, hheld.2 (List.cons_ne_nil _ _)] at hend
      cases hend
  | cons line rest ih =>
    obtain ⟨hcommand, hcommands⟩ := hc
    obtain ⟨hfirst, hrest⟩ := List.forall_mem_cons.1 ha
    rw [feed] at hend
    rw [replies, feed]
    rcases input_cases hcommand hfirst with
      ⟨hne, hinput⟩ | ⟨statements, values, after, hparse, hlength, hrun, hinput⟩
    · rw [hinput] at hcommands hrest hend ⊢
      obtain ⟨entries, hlines, hread, hrun, hreplies⟩ :=
        ih (hheld.incomplete hne) hcommands hrest hend
      rw [List.append_assoc, List.singleton_append] at hlines hrun
      refine ⟨entries, hlines, hread, hrun, ?_⟩
      rw [← hreplies, List.length_append, List.length_singleton, List.replicate_succ',
        List.append_assoc, List.singleton_append]
    · rw [hinput] at hcommands hrest hend ⊢
      have hpending : after.pending = "" := by
        have hkept := run_pending limit { session with pending := "" } (session.textWith line)
        rw [hrun] at hkept
        exact hkept
      obtain ⟨entries, hlines, hread, hlater, hreplies⟩ :=
        ih (holds_nil hpending) hcommands hrest hend
      have hsame : { after with pending := "" } = after := by rw [← hpending]
      rw [hsame, List.nil_append] at hlater
      rw [hheld.textWith] at hparse hrun
      refine ⟨⟨held ++ [line], by simp, values⟩ :: entries, ?_, ?_, ?_, ?_⟩
      · simp [hlines]
      · simpa using ⟨⟨statements, hparse, hlength⟩, hread⟩
      · have hall := run_lines_append (by simp) hrun hlater
        rw [List.append_assoc, List.singleton_append] at hall
        rw [List.flatMap_cons, hall]
      · rw [List.flatMap_cons, ← hreplies]
        simp [Entry.replies, Entry.shown]

/-- Lines that are all taken without an error, and that leave nothing pending, come to the same as
the program that they are together: the program has values, it leaves the session as the lines do,
and the texts shown for the lines are the values of the program in groups, one for each text that
was completed. -/
theorem run_eq_feed {limit : Nat} {session : Session} {lines : List String}
    (hp : session.isPending = false) (hc : session.TakesNoCommand limit lines)
    (ha : ∀ reply ∈ session.replies limit lines, reply.IsAccepting)
    (hend : (session.feed limit lines).isPending = false) :
    ∃ entries : List Entry,
      entries.flatMap Entry.lines = lines ∧
      (∀ entry ∈ entries, entry.IsRead) ∧
      session.run limit ("\n".intercalate lines) =
        (.ok (entries.flatMap Entry.values), session.feed limit lines) ∧
      session.replies limit lines = entries.flatMap Entry.replies ∧
      (session.replies limit lines).filterMap Reply.shown? = entries.map Entry.shown := by
  have hpending : session.pending = "" := isPending_eq_false.1 hp
  have hsame : { session with pending := "" } = session := by rw [← hpending]
  obtain ⟨entries, hlines, hread, hrun, hreplies⟩ :=
    exists_entries (holds_nil hpending) hc ha hend
  rw [hsame] at hrun
  have hall : session.replies limit lines = entries.flatMap Entry.replies := hreplies
  refine ⟨entries, hlines, hread, hrun, hall, ?_⟩
  rw [hall, Entry.filterMap_flatMap_replies]

/-- A list that reads a line of input and a string, each in two lines, and a comment. -/
def brokenLines : List String :=
  ["x = [1,", "in()]", "\"a", "?\"", "# b"]

theorem run_eq_feed_brokenLines :
    let session := start false (.ofText "7")
    session.isPending = false ∧ session.TakesNoCommand stepLimit brokenLines ∧
    session.replies stepLimit brokenLines =
      [.incomplete, .output "x = [1, \"7\"]", .incomplete, .output "\"a\\n?\"", .output ""] ∧
    (session.feed stepLimit brokenLines).isPending = false ∧
    ∃ values, session.run stepLimit "x = [1,\nin()]\n\"a\n?\"\n# b" =
      (.ok values, session.feed stepLimit brokenLines) := by
  intro session
  have hcommands : session.TakesNoCommand stepLimit brokenLines := by
    refine ⟨?_, ?_, ?_, ?_, ?_, trivial⟩ <;> decide +kernel
  have hreplies : session.replies stepLimit brokenLines =
      [.incomplete, .output "x = [1, \"7\"]", .incomplete, .output "\"a\\n?\"", .output ""] := by
    decide +kernel
  have hend : (session.feed stepLimit brokenLines).isPending = false := by decide +kernel
  have haccepting : ∀ reply ∈ session.replies stepLimit brokenLines, reply.IsAccepting := by
    simp [hreplies, Reply.IsAccepting]
  obtain ⟨entries, -, -, hrun, -⟩ := run_eq_feed rfl hcommands haccepting hend
  have hjoined : "\n".intercalate brokenLines = "x = [1,\nin()]\n\"a\n?\"\n# b" := by decide +kernel
  exact ⟨rfl, hcommands, hreplies, hend, entries.flatMap Entry.values, hjoined ▸ hrun⟩

end Session
end Song
