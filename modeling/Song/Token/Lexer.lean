import Song.Decimal.Reader
import Song.Token

/-!
# Reading tokens

At each place the longest lexeme is taken. A lexeme is described by how many
characters follow its first one, so that reading always moves on.
-/
namespace Song

inductive Reading where
  | skip
  | token (t : Token)
  | fault (f : LexicalFault)

/-- A lexeme: the number of its characters after the first one, and what it amounts to. -/
structure Lexeme where
  extra : Nat
  reading : Reading

namespace Lexeme

open Decimal (isDigit)

def isLetter (c : Char) : Bool :=
  ('a' ≤ c && c ≤ 'z') || ('A' ≤ c && c ≤ 'Z')

def isWordPart (c : Char) : Bool :=
  isLetter c || isDigit c || c = '_'

/-- Blanks within a line. -/
def isGap (c : Char) : Bool :=
  c = ' ' || c = '\t' || c = '\r'

def unescape? : Char → Option Char
  | 'n' => some '\n'
  | 't' => some '\t'
  | 'r' => some '\r'
  | '0' => some (Char.ofNat 0)
  | '\\' => some '\\'
  | '\'' => some '\''
  | '"' => some '"'
  | _ => none

/-- The characters that the text between the quotes of a literal denotes. -/
def unescape : List Char → Except LexicalFault (List Char)
  | [] => .ok []
  | '\\' :: [] => .error (.invalidEscape '\\')
  | '\\' :: letter :: rest =>
    match unescape? letter with
    | none => .error (.invalidEscape letter)
    | some c => (unescape rest).map (c :: ·)
  | c :: rest => (unescape rest).map (c :: ·)

/-- The text of a literal up to its closing quote, and whether there is one. A backslash and
the character after it belong together, and that character is not a line end; `stops` says
which characters a literal cannot hold. -/
def enclosed (quote : Char) (stops : Char → Bool) : List Char → List Char × Bool
  | [] => ([], false)
  | '\\' :: [] => ([], false)
  | '\\' :: letter :: rest =>
    if letter = '\n' then ([], false)
    else
      let inner := enclosed quote stops rest
      ('\\' :: letter :: inner.1, inner.2)
  | c :: rest =>
    if c = quote then ([], true)
    else if stops c then ([], false)
    else
      let inner := enclosed quote stops rest
      (c :: inner.1, inner.2)

/-- A string literal, after its opening quote. -/
def textLiteral (rest : List Char) : Lexeme :=
  let (body, closed) := enclosed '"' (fun _ => false) rest
  if closed then
    match unescape body with
    | .ok chars => ⟨body.length + 1, .token (.text chars)⟩
    | .error f => ⟨body.length + 1, .fault f⟩
  else ⟨body.length, .fault .unterminatedText⟩

def charLiteral (rest : List Char) : Lexeme :=
  let (body, closed) := enclosed '\'' (fun c => c = '\n') rest
  if closed then
    match unescape body with
    | .ok [c] => ⟨body.length + 1, .token (.char c)⟩
    | .ok [] => ⟨body.length + 1, .fault .emptyChar⟩
    | .ok _ => ⟨body.length + 1, .fault .severalChars⟩
    | .error f => ⟨body.length + 1, .fault f⟩
  else ⟨body.length, .fault .unterminatedChar⟩

/-- An exponent, if a complete one comes next. -/
def exponentPart (rest : List Char) : List Char :=
  match rest with
  | [] => []
  | mark :: more =>
    if mark = 'e' || mark = 'E' then
      let sign := more.take 1 |>.takeWhile fun c => c = '+' || c = '-'
      let digits := (more.drop sign.length).takeWhile isDigit
      if digits.isEmpty then [] else mark :: sign ++ digits
    else []

/-- A fraction with its exponent, if a point and a digit come next. -/
def fractionPart (rest : List Char) : List Char :=
  match rest with
  | '.' :: more =>
    let digits := more.takeWhile isDigit
    if digits.isEmpty then []
    else '.' :: digits ++ exponentPart (more.dropWhile isDigit)
  | _ => []

def number (c : Char) (rest : List Char) : Lexeme :=
  let whole := c :: rest.takeWhile isDigit
  let fraction := fractionPart (rest.dropWhile isDigit)
  let extra := whole.length - 1 + fraction.length
  if fraction.isEmpty then
    let n := Decimal.natural whole
    if n < Nat.pow 2 63 then ⟨extra, .token (.int (Int64.ofNat n))⟩
    else ⟨extra, .fault .intOverflow⟩
  else
    match Decimal.read? (whole ++ fraction) with
    | some x => ⟨extra, .token (.float x)⟩
    | none => ⟨extra, .fault .malformedFloat⟩

def word (c : Char) (rest : List Char) : Lexeme :=
  let more := rest.takeWhile isWordPart
  ⟨more.length, .token (.ofWord (String.ofList (c :: more)))⟩

/-- A sign, or two of them that form one operator. -/
def sign (c : Char) (rest : List Char) : Lexeme :=
  match c, rest with
  | '<', '=' :: _ => ⟨1, .token (.operator .lessOrEqual)⟩
  | '>', '=' :: _ => ⟨1, .token (.operator .greaterOrEqual)⟩
  | _, _ =>
    match Token.ofSign? c with
    | some t => ⟨0, .token t⟩
    | none => ⟨0, .fault (.unknownCharacter c)⟩

/-- The lexeme that starts with `c` and goes on in `rest`. -/
def scan (c : Char) (rest : List Char) : Lexeme :=
  if isGap c then ⟨(rest.takeWhile isGap).length, .skip⟩
  else if c = '#' then ⟨(rest.takeWhile (· ≠ '\n')).length, .skip⟩
  else if isDigit c then number c rest
  else if isLetter c || c = '_' then word c rest
  else if c = '"' then textLiteral rest
  else if c = '\'' then charLiteral rest
  else sign c rest

end Lexeme

/-- Reads tokens from a byte offset on, where the first `pass` characters belong to a lexeme
that has been read. -/
def tokensFrom (pass offset : Nat) : List Char → Except LexicalError (List Located)
  | [] => .ok []
  | c :: rest =>
    match pass with
    | pass + 1 => tokensFrom pass (offset + c.utf8Size) rest
    | 0 =>
      let lexeme := Lexeme.scan c rest
      let span : Span := ⟨offset, offset + byteLength (c :: rest.take lexeme.extra)⟩
      match lexeme.reading with
      | .skip => tokensFrom lexeme.extra (offset + c.utf8Size) rest
      | .token t =>
        match tokensFrom lexeme.extra (offset + c.utf8Size) rest with
        | .ok tokens => .ok (⟨t, span⟩ :: tokens)
        | .error e => .error e
      | .fault f => .error ⟨f, span⟩

def tokenize (source : List Char) : Except LexicalError (List Located) :=
  tokensFrom 0 0 source

end Song
