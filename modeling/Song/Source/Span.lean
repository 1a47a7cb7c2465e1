/-!
# Places in source text

Spans count bytes of the encoded text, positions count lines and characters.
-/
namespace Song

/-- A range of bytes, from `start` up to but not including `stop`. -/
structure Span where
  start : Nat
  stop : Nat
deriving Repr, DecidableEq

def Span.point (offset : Nat) : Span :=
  ⟨offset, offset⟩

/-- Line and column, both counted from one. -/
structure Position where
  line : Nat
  column : Nat
deriving Repr, DecidableEq

/-- The number of bytes that the characters are encoded in. -/
def byteLength : List Char → Nat
  | [] => 0
  | c :: cs => c.utf8Size + byteLength cs

/-- The characters before a byte offset, unless it lies inside a character or past the end. -/
def charsBefore? (offset : Nat) : List Char → Option (List Char)
  | [] => if offset = 0 then some [] else none
  | c :: cs =>
    if offset = 0 then some []
    else if offset < c.utf8Size then none
    else (charsBefore? (offset - c.utf8Size) cs).map (c :: ·)

namespace Position

def first : Position :=
  ⟨1, 1⟩

def after (position : Position) (c : Char) : Position :=
  if c = '\n' then ⟨position.line + 1, 1⟩ else ⟨position.line, position.column + 1⟩

/-- The position of a byte offset in a text, or of the end of the text if the offset lies inside a
character or past the end. -/
def ofOffset (source : List Char) (offset : Nat) : Position :=
  ((charsBefore? offset source).getD source).foldl after first

end Position
end Song
