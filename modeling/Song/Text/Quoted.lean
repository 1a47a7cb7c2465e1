import Song.Text.Printable

/-!
# Quoted text

Two ways of writing a character inside quotes. In source text only the escapes
that the language reads are used, and every other character stands for itself.
In messages a character that cannot be seen on its own is written by number.
-/
namespace Song.Text

/-- The letter after the backslash for a character that both ways escape. -/
def escapeLetter (c : Char) : Option Char :=
  if c = '\n' then some 'n'
  else if c = '\t' then some 't'
  else if c = '\r' then some 'r'
  else if c = Char.ofNat 0 then some '0'
  else if c = '\\' then some '\\'
  else none

def escape (quote c : Char) : List Char :=
  match escapeLetter c with
  | some letter => ['\\', letter]
  | none => if c = quote then ['\\', c] else [c]

def literal (quote : Char) (text : List Char) : String :=
  String.ofList (quote :: text.flatMap (escape quote) ++ [quote])

/-- A character by its number in lower-case hexadecimal digits. -/
def byNumber (c : Char) : List Char :=
  ['\\', 'u', '\x7b'] ++ Nat.toDigits 16 c.toNat ++ ['\x7d']

def display (quote c : Char) : List Char :=
  match escapeLetter c with
  | some letter => ['\\', letter]
  | none =>
    if c = quote then ['\\', c]
    else if isExtending c || !isPrintable c then byNumber c
    else [c]

def displayed (quote : Char) (text : List Char) : String :=
  String.ofList (quote :: text.flatMap (display quote) ++ [quote])

end Song.Text
