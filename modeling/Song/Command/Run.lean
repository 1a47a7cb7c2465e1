import Song.Command
import Song.Session.Repl

/-!
# Running a command

A command is a function of its arguments, the files it can read and its input.
-/
namespace Song.Command

structure Finished where
  exit : Nat
  stdout : String
  stderr : String
deriving Repr, DecidableEq

def versionName : String := "Song 0.1.0"

def usage : String :=
  "\n".intercalate [
    "Song interpreter",
    "",
    "Usage: song [command] [options]",
    "",
    "Commands:",
    "  (none)               Start an interactive session",
    "  run <file.song>      Run a Song program",
    "  eval \"<source>\"      Evaluate source and print the last value",
    "  help                 Show this help message",
    "  version              Show version information",
    "",
    "Options:",
    "  --no-std             Do not load the standard library",
    "",
    "Session commands:",
    "  ?                    List every binding",
    "  ?forget <name>       Remove a binding",
    "  ?reset               Return to the startup bindings",
    "  ?quit                Leave the session",
    "",
    "Set RUST_LOG (e.g. RUST_LOG=song_eval=debug) to trace evaluation.",
    ""
  ]

def succeeded (streams : Streams) : Finished :=
  ⟨0, streams.output, streams.errors⟩

/-- A command that ended with one more line of errors. -/
def gaveUp (streams : Streams) (reason : String) : Finished :=
  ⟨1, streams.output, streams.errors ++ reason ++ "\n"⟩

def performRepl (session : Session) : Finished :=
  let greeted := session.streams.write (versionName ++ " (type ?quit to leave)\n")
  match { session with streams := greeted }.repl stepLimit with
  | (.finished, session) => succeeded session.streams
  | (.unreadable, session) => gaveUp session.streams ("error: " ++ Streams.undecodableReason)

/-- Runs the text of a file; only the program itself writes output. -/
def performRun (path source : String) (session : Session) : Finished :=
  match session.run stepLimit source with
  | (.ok _, session) => succeeded session.streams
  | (.error e, session) => gaveUp session.streams (path ++ ": " ++ e.message)

/-- Runs a text and writes its last value. -/
def performEval (source : String) (session : Session) : Finished :=
  match session.run stepLimit source with
  | (.ok values, session) =>
    match values.getLast? with
    | some value => succeeded (session.streams.write (value.render ++ "\n"))
    | none => succeeded session.streams
  | (.error e, session) => gaveUp session.streams e.message

/-- Performs what the options ask for. `readFile` gives the text of a file, or the reason why
there is none. -/
def perform (readFile : String → Except String String) (streams : Streams) (options : Options) :
    Finished :=
  match options.command with
  | .help => ⟨0, usage, ""⟩
  | .version => ⟨0, versionName ++ "\n", ""⟩
  | .repl => performRepl (.start options.library streams)
  | .eval source => performEval source (.start options.library streams)
  | .run path =>
    match readFile path with
    | .error reason => ⟨1, "", "error: cannot read '" ++ path ++ "': " ++ reason ++ "\n"⟩
    | .ok source => performRun path source (.start options.library streams)

def invoke (readFile : String → Except String String) (streams : Streams) (args : List String) :
    Finished :=
  match Options.parse args with
  | .error e => ⟨1, usage, "error: " ++ e.message ++ "\n\n"⟩
  | .ok options => perform readFile streams options

end Song.Command
