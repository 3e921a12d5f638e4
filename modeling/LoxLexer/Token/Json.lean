import LoxLexer.Json
import LoxLexer.Token.Basic

/-!
Tokens as JSON objects.
-/

namespace LoxLexer

namespace Literal

/-- In JSON the power of ten of the first digit decides: from -5 to 15 no exponent is written. -/
def jsonStyle : Numeral.Style where
  ties := .even
  wholeExact := false
  isPositional e := -5 ≤ e && e ≤ 15

/-- JSON has no infinities and no NaN; they become null. -/
def toJson : Literal → Json
  | number x => if x.isFinite then .number (jsonStyle.numeral x) else .null
  | text s => .text s

end Literal

namespace Token

def toJson (t : Token) : Json :=
  .object
    [("kind", .text t.kind.tag),
      ("lexeme", .text t.lexeme),
      ("literal", (t.literal.map Literal.toJson).getD .null),
      ("line", .natural t.line)]

end Token

end LoxLexer
