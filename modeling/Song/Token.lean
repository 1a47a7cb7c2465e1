import Song.Number
import Song.Operator
import Song.Source.Span
import Song.Text.Quoted

/-!
# Tokens

The words of the language. Line ends are tokens, because they separate
statements.
-/
namespace Song

/-- A token; literals carry their value. -/
inductive Token where
  | newline
  | bool (value : Bool)
  | whenWord
  | doWord
  | endWord
  | fnWord
  | leftParen
  | rightParen
  | leftBracket
  | rightBracket
  | comma
  | bar
  | equals
  | dot
  | underscore
  | operator (o : Operator)
  | int (value : Int64)
  | float (value : Float)
  | char (value : Char)
  | text (chars : List Char)
  | identifier (name : String)
deriving DecidableEq

namespace Token

def quoted (text : String) : String :=
  "`" ++ text ++ "`"

def describe : Token → String
  | newline => "end of line"
  | bool true => quoted "true"
  | bool false => quoted "false"
  | whenWord => quoted "When"
  | doWord => quoted "Do"
  | endWord => quoted "End"
  | fnWord => quoted "Fn"
  | leftParen => quoted "("
  | rightParen => quoted ")"
  | leftBracket => quoted "["
  | rightBracket => quoted "]"
  | comma => quoted ","
  | bar => quoted "|"
  | equals => quoted "="
  | dot => quoted "."
  | underscore => quoted "_"
  | operator o => quoted o.symbol
  | int i => "integer " ++ quoted (Number.renderInt i)
  | float x => "float " ++ quoted (Number.renderFloat x)
  | char c => "character " ++ Text.displayed '\'' [c]
  | text chars => "string " ++ Text.displayed '"' chars
  | identifier name => "identifier " ++ quoted name

/-- The token that a word stands for; words with no meaning of their own are identifiers. -/
def ofWord (word : String) : Token :=
  match word with
  | "_" => underscore
  | "true" => bool true
  | "false" => bool false
  | "When" => whenWord
  | "Do" => doWord
  | "End" => endWord
  | "Fn" => fnWord
  | "Eq" => operator .equal
  | "Neq" => operator .notEqual
  | "And" => operator .and
  | "Or" => operator .or
  | "Not" => operator .not
  | "Div" => operator .quotient
  | "Mod" => operator .modulo
  | name => identifier name

def ofSign? (c : Char) : Option Token :=
  match c with
  | '\n' => some newline
  | '(' => some leftParen
  | ')' => some rightParen
  | '[' => some leftBracket
  | ']' => some rightBracket
  | ',' => some comma
  | '|' => some bar
  | '=' => some equals
  | '.' => some dot
  | '+' => some (operator .plus)
  | '-' => some (operator .minus)
  | '*' => some (operator .times)
  | '/' => some (operator .divide)
  | '%' => some (operator .remainder)
  | '^' => some (operator .power)
  | '<' => some (operator .less)
  | '>' => some (operator .greater)
  | _ => none

end Token

/-- A token and the bytes that it was read from. -/
structure Located where
  token : Token
  span : Span
deriving DecidableEq

inductive LexicalFault where
  | unknownCharacter (c : Char)
  | unterminatedText
  | unterminatedChar
  | invalidEscape (c : Char)
  | emptyChar
  | severalChars
  | intOverflow
  | malformedFloat
deriving Repr, DecidableEq

def LexicalFault.message : LexicalFault → String
  | unknownCharacter c => "unexpected character " ++ Token.quoted (String.singleton c)
  | unterminatedText => "unterminated string literal"
  | unterminatedChar => "unterminated character literal"
  | invalidEscape c => "invalid escape " ++ Token.quoted ("\\" ++ String.singleton c)
  | emptyChar => "empty character literal"
  | severalChars => "character literal holds more than one character"
  | intOverflow => "integer literal does not fit in 64 bits"
  | malformedFloat => "malformed float literal"

structure LexicalError where
  fault : LexicalFault
  span : Span
deriving Repr, DecidableEq

namespace LexicalError

def message (error : LexicalError) : String :=
  error.fault.message ++ " at byte " ++ toString error.span.start

/-- Whether more text could complete what was read. -/
def isIncomplete (error : LexicalError) : Bool :=
  error.fault = .unterminatedText

end LexicalError
end Song
