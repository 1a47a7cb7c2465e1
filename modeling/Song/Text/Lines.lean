/-!
# Lines

Text is cut at line feeds. One carriage return directly before a line feed
belongs to the line end; any other carriage return is part of its line. A final
line feed opens no further line.
-/
namespace Song.Text

/-- Removes the carriage return that a reversed line starts with. -/
def dropReturn {α : Type} [DecidableEq α] (carriage : α) : List α → List α
  | [] => []
  | c :: cs => if c = carriage then cs else c :: cs

/-- Cuts into lines with `line`, reversed, already read. -/
def linesFrom {α : Type} [DecidableEq α] (feed carriage : α) (line : List α) :
    List α → List (List α)
  | [] => if line.isEmpty then [] else [line.reverse]
  | c :: cs =>
    if c = feed then (dropReturn carriage line).reverse :: linesFrom feed carriage [] cs
    else linesFrom feed carriage (c :: line) cs

/-- The lines of a text, for any unit the text is made of. -/
def linesBy {α : Type} [DecidableEq α] (feed carriage : α) (text : List α) : List (List α) :=
  linesFrom feed carriage [] text

def lines (text : String) : List String :=
  (linesBy '\n' '\r' text.toList).map String.ofList

end Song.Text
