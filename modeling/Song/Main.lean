import Song.Command.Folder
import Song.Command.Run

/-!
# The program

Reads the input, hands it to the command and writes what that leaves behind.
-/
namespace Song

open Command

def readText (path : String) : IO (Except String String) := do
  try
    let bytes ← IO.FS.readBinFile path
    match String.fromUTF8? bytes with
    | some text => return .ok text
    | none => return .error ReadFault.undecodable.reason
  catch e =>
    match e with
    | .noFileOrDirectory .. => return .error ReadFault.notFound.reason
    | .inappropriateType .. => return .error ReadFault.isFolder.reason
    | other => return .error (toString other)

/-- The bytes of the input, read only for commands that can use them. -/
def readInput (options : Options) : IO (List UInt8) := do
  match options.command with
  | .help | .version => return []
  | _ =>
    let stdin ← IO.getStdin
    let mut bytes := ByteArray.empty
    repeat
      let chunk ← stdin.read 65536
      if chunk.isEmpty then break
      bytes := bytes ++ chunk
    return bytes.toList

def readNamed (options : Options) : IO (Except String String) :=
  match options.command with
  | .run path => readText path
  | _ => return .error ReadFault.notFound.reason

end Song

def main (args : List String) : IO UInt32 := do
  let finished ←
    match Song.Options.parse args with
    | .error _ => pure (Song.Command.invoke (fun _ => .error "") (.ofText "") args)
    | .ok options => do
      let text ← Song.readNamed options
      let bytes ← Song.readInput options
      pure (Song.Command.invoke (fun _ => text) (.ofBytes bytes) args)
  let stdout ← IO.getStdout
  stdout.putStr finished.stdout
  stdout.flush
  let stderr ← IO.getStderr
  stderr.putStr finished.stderr
  stderr.flush
  return UInt32.ofNat finished.exit
