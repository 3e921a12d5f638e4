import LoxLexer.Number.Style
import LoxLexer.Token.Kind

/-!
Tokens: what they hold, how they are shown, when two are equal, and what identifies one
where tokens are collected by hash.
-/

namespace LoxLexer

/-- The decoded value of a number or a string. -/
inductive Literal where
  | number (value : Binary64)
  | text (value : String)

namespace Literal

/-- Numbers are shown without exponents; whole ones to the last digit. -/
def style : Numeral.Style where
  ties := .away
  wholeExact := true
  isPositional _ := true

def display : Literal → String
  | number x =>
    if x.isFinite then (style.numeral x).text
    else if x.isNaN then "NaN"
    else if x.negative then "-inf"
    else "inf"
  | text s => s

/-- Numbers are compared as numbers. -/
def equal : Literal → Literal → Bool
  | number x, number y => x.equal y
  | text s, text t => s == t
  | _, _ => false

/-- A literal's identity: for a number, its bits. -/
inductive Key where
  | number (bits : Nat)
  | text (value : String)
deriving DecidableEq, Hashable

def key : Literal → Key
  | number x => .number x.bits
  | text s => .text s

instance : BEq Literal := ⟨equal⟩

end Literal

structure Token where
  kind : Kind
  lexeme : String
  literal : Option Literal
  line : Nat

namespace Token

/-- The marker behind the last token of a source. -/
def endOfFile (line : Nat) : Token := ⟨.endOfFile, "", none, line⟩

def display (t : Token) : String :=
  t.kind.name ++ " " ++ t.lexeme ++ " " ++ (t.literal.map Literal.display).getD "nil"

def equal (t u : Token) : Bool :=
  t.kind == u.kind && t.lexeme == u.lexeme && t.literal == u.literal && t.line == u.line

instance : BEq Token := ⟨equal⟩

/-- The data that a hash of the token is taken over. -/
structure Key where
  kind : Kind
  lexeme : String
  literal : Option Literal.Key
  line : Nat
deriving DecidableEq, Hashable

def key (t : Token) : Key := ⟨t.kind, t.lexeme, t.literal.map Literal.key, t.line⟩

instance : Hashable Token := ⟨fun t => hash t.key⟩

end Token

end LoxLexer
