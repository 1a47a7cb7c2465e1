/-!
# The command line

What the arguments ask for.
-/
namespace Song

inductive Command where
  | repl
  | run (path : String)
  | eval (source : String)
  | help
  | version
deriving Repr, DecidableEq

/-- A command, and whether the library is loaded for it. -/
structure Options where
  command : Command
  library : Bool
deriving Repr, DecidableEq

inductive UsageError where
  | missing (what : String)
  | unexpected (argument : String)
  | unknown (command : String)
deriving Repr, DecidableEq

def UsageError.message : UsageError → String
  | missing what => "missing " ++ what
  | unexpected argument => "unexpected argument '" ++ argument ++ "'"
  | unknown command => "unknown command: " ++ command

/-- The parts of a path that name something; the empty ones and `.` stand for nothing. -/
def pathParts (path : String) : List (List Char) :=
  (splitAt [] path.toList).filter fun part => !part.isEmpty && part != ['.']
where
  splitAt (part : List Char) : List Char → List (List Char)
    | [] => [part.reverse]
    | c :: rest =>
      if c = '/' then part.reverse :: splitAt [] rest else splitAt (c :: part) rest

/-- What follows the last dot of a file name. A dot that starts the name does not count. -/
def nameExtension? (name : List Char) : Option (List Char) :=
  let reversed := name.reverse
  let after := reversed.takeWhile (· ≠ '.')
  match reversed.dropWhile (· ≠ '.') with
  | [] | [_] => none
  | _ => some after.reverse

def extension? (path : String) : Option (List Char) :=
  match (pathParts path).getLast? with
  | none => none
  | some name => if name = ['.', '.'] then none else nameExtension? name

/-- Whether the path is that of a program, by its extension in any case. -/
def isProgramPath (path : String) : Bool :=
  ((extension? path).map fun e => e.map Char.toLower == ['s', 'o', 'n', 'g']).getD false

namespace Options

def withoutLibrary : String := "--no-std"

/-- The command at the front of the arguments, and the arguments after it. -/
def command? : List String → Except UsageError (Command × List String)
  | [] => .ok (.repl, [])
  | "run" :: rest =>
    match rest with
    | [] => .error (.missing "file path")
    | path :: rest => .ok (.run path, rest)
  | "eval" :: rest =>
    match rest with
    | [] => .error (.missing "source to evaluate")
    | source :: rest => .ok (.eval source, rest)
  | word :: rest =>
    if ["help", "--help", "-h"].contains word then .ok (.help, rest)
    else if ["version", "--version", "-V"].contains word then .ok (.version, rest)
    else if isProgramPath word then .ok (.run word, rest)
    else .error (.unknown word)

/-- Reads the arguments; the option may stand anywhere among them. -/
def parse (args : List String) : Except UsageError Options :=
  match command? (args.filter (· ≠ withoutLibrary)) with
  | .error e => .error e
  | .ok (_, extra :: _) => .error (.unexpected extra)
  | .ok (command, []) => .ok ⟨command, !args.contains withoutLibrary⟩

end Options
end Song
