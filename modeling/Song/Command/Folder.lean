import Song.Command

/-!
# Folders

The files that a command can read, each under its path, and what reading a path
gives.
-/
namespace Song.Command

inductive ReadFault where
  | notFound
  | isFolder
  | notAFolder
  | nameTooLong
  | embeddedNul
  | undecodable
deriving Repr, DecidableEq

def ReadFault.reason : ReadFault → String
  | notFound => "No such file or directory (os error 2)"
  | isFolder => "Is a directory (os error 21)"
  | notAFolder => "Not a directory (os error 20)"
  | nameTooLong => "File name too long (os error 36)"
  | embeddedNul => "file name contained an unexpected NUL byte"
  | undecodable => "stream did not contain valid UTF-8"

/-- Texts of files, each under the parts of its path. -/
structure Folder where
  files : List (List (List Char) × String)

namespace Folder

def ofList (files : List (String × String)) : Folder :=
  ⟨files.map fun file => (pathParts file.1, file.2)⟩

def file? (folder : Folder) (parts : List (List Char)) : Option String :=
  (folder.files.find? fun file => file.1 == parts).map Prod.snd

/-- Whether the parts lead to the folder itself or to one inside it. -/
def isFolderPath (folder : Folder) (parts : List (List Char)) : Bool :=
  parts.isEmpty || folder.files.any fun file => file.1 != parts && parts.isPrefixOf file.1

/-- Follows the parts of a path one by one from the folder at `visited`, which is reversed. -/
def follow (folder : Folder) (visited : List (List Char)) :
    List (List Char) → Except ReadFault (List (List Char))
  | [] => .ok visited
  | part :: rest =>
    if part = ['.', '.'] then
      match visited with
      | [] => .error .notFound
      | _ :: outer => follow folder outer rest
    else if 255 < (String.ofList part).utf8ByteSize then .error .nameTooLong
    else
      let next := part :: visited
      if folder.isFolderPath next.reverse then follow folder next rest
      else if (folder.file? next.reverse).isNone then .error .notFound
      else if rest.isEmpty then .ok next
      else .error .notAFolder

/-- Whether the path asks for a folder by how it ends. -/
def asksForFolder (path : List Char) : Bool :=
  match path.reverse with
  | '/' :: _ => true
  | '.' :: '/' :: _ => true
  | _ => false

/-- The text that a path leads to. Nothing is known outside the folder. -/
def read (folder : Folder) (path : String) : Except ReadFault String :=
  let chars := path.toList
  if chars.contains (Char.ofNat 0) then .error .embeddedNul
  else if chars.isEmpty || chars.head? = some '/' then .error .notFound
  else
    match folder.follow [] (pathParts path) with
    | .error fault => .error fault
    | .ok visited =>
      match folder.file? visited.reverse with
      | none => .error .isFolder
      | some text => if asksForFolder chars then .error .notAFolder else .ok text

end Folder
end Song.Command
