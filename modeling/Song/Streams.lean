import Song.Text.Lines

/-!
# Streams

What a program can read and has written. Input is a queue of lines; a line whose
bytes are no text can be taken from it but not read.
-/
namespace Song

inductive InputLine where
  | text (line : String)
  | undecodable
deriving Repr, DecidableEq

/-- Input that is left, and the output so far. -/
structure Streams where
  input : List InputLine
  output : String
  errors : String
deriving Repr, DecidableEq

namespace Streams

def ofText (stdin : String) : Streams :=
  ⟨(Text.lines stdin).map .text, "", ""⟩

def decodeLine (bytes : List UInt8) : InputLine :=
  match String.fromUTF8? ⟨bytes.toArray⟩ with
  | some line => .text line
  | none => .undecodable

def ofBytes (stdin : List UInt8) : Streams :=
  ⟨(Text.linesBy 10 13 stdin).map decodeLine, "", ""⟩

def write (streams : Streams) (text : String) : Streams :=
  { streams with output := streams.output ++ text }

def writeError (streams : Streams) (text : String) : Streams :=
  { streams with errors := streams.errors ++ text }

/-- Forgets what was written; the input stays. -/
def clear (streams : Streams) : Streams :=
  { streams with output := "", errors := "" }

def readLine (streams : Streams) : Option InputLine × Streams :=
  match streams.input with
  | [] => (none, streams)
  | line :: rest => (some line, { streams with input := rest })

def undecodableReason : String :=
  "stream did not contain valid UTF-8"

end Streams
end Song
