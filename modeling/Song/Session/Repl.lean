import Song.Session

/-!
# The interactive loop

Lines are read and answered until the input ends or a command ends the session.
Programs read from the same input, so the loop sees only the lines that they
leave.
-/
namespace Song.Session

def prompt : String := "> "

def continuationPrompt : String := ".. "

inductive LoopEnd where
  | finished
  /-- A line of the input is no text. -/
  | unreadable
deriving Repr, DecidableEq

def writePrompt (session : Session) : Session :=
  let text := if session.isPending then continuationPrompt else prompt
  { session with streams := session.streams.write text }

def writeReply (reply : Reply) (session : Session) : Session :=
  match reply with
  | .output text =>
    if text.isEmpty then session
    else { session with streams := session.streams.write (text ++ "\n") }
  | .error text => { session with streams := session.streams.writeError (text ++ "\n") }
  | .incomplete | .quit => session

/-- At most `rounds` lines are answered. -/
def replWithin (limit : Nat) : Nat → Session → LoopEnd × Session
  | 0, session => (.finished, session)
  | rounds + 1, session =>
    let session := session.writePrompt
    match session.streams.readLine with
    | (none, streams) => (.finished, { session with streams := streams.write "\n" })
    | (some .undecodable, streams) => (.unreadable, { session with streams })
    | (some (.text line), streams) =>
      match { session with streams }.input limit line with
      | (.quit, session) => (.finished, session)
      | (reply, session) => replWithin limit rounds (session.writeReply reply)

/-- Answers all lines of the input. Each round takes one of them, so their number and the round
that meets the end are enough. -/
def repl (limit : Nat) (session : Session) : LoopEnd × Session :=
  replWithin limit (session.streams.input.length + 1) session

end Song.Session
