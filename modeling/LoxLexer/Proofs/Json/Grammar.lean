import LoxLexer.Number.Numeral

/-!
The grammar of JSON, as texts and the values that they denote.

Each rule says of a text `u` that something is written at its beginning and that `t` follows.
Numbers are kept as they are written, so a reader may round them as it likes; strings are
decoded.
-/

namespace LoxLexer

namespace Json

/-- What a document can denote. -/
inductive Value where
  | null
  | boolean (b : Bool)
  | number (n : Numeral)
  | text (s : String)
  | array (elements : List Value)
  | object (members : List (String × Value))

def Blank (c : Char) : Prop := c ∈ [' ', '\t', '\n', '\r']

/-- Blanks, or nothing. -/
def Blanks (u t : List Char) : Prop := ∃ bs, (∀ c ∈ bs, Blank c) ∧ u = bs ++ t

/-! ### Numbers -/

/-- One digit or more. -/
structure Digits (u ds t : List Char) : Prop where
  ne : ds ≠ []
  digits : ∀ c ∈ ds, c.isDigit
  text : u = ds ++ t

inductive Sign : List Char → Bool → List Char → Prop where
  | positive (t) : Sign t false t
  | negative (t) : Sign ('-' :: t) true t

inductive Fraction : List Char → List Char → List Char → Prop where
  | absent (t) : Fraction t [] t
  | present {u ds t} (digits : Digits u ds t) : Fraction ('.' :: u) ds t

inductive ExponentSign : List Char → Bool → List Char → Prop where
  | absent (t) : ExponentSign t false t
  | plus (t) : ExponentSign ('+' :: t) false t
  | minus (t) : ExponentSign ('-' :: t) true t

inductive Exponent : List Char → Option Int → List Char → Prop where
  | absent (t) : Exponent t none t
  | present {e u v t ds negative} (letter : e = 'e' ∨ e = 'E') (sign : ExponentSign u negative v)
    (digits : Digits v ds t) :
    Exponent (e :: u)
      (some (if negative then -(Nat.ofDigitChars 10 ds 0 : Int) else Nat.ofDigitChars 10 ds 0)) t

/-- A zero at the beginning is the only digit of the whole part. -/
inductive Number : List Char → Numeral → List Char → Prop where
  | mk {u v w x t negative whole fraction exponent} (sign : Sign u negative v)
    (digits : Digits v whole w) (zero : whole.head? = some '0' → whole = ['0'])
    (point : Fraction w fraction x) (power : Exponent x exponent t) :
    Number u ⟨negative, whole, fraction, exponent⟩ t

/-! ### Strings -/

/-- What the letters behind a backslash stand for, besides `u`. -/
def escapes : List (Char × Char) :=
  [('"', '"'), ('\\', '\\'), ('/', '/'), ('b', '\x08'), ('f', '\x0c'), ('n', '\n'), ('r', '\r'),
    ('t', '\t')]

def hexDigit? (c : Char) : Option Nat :=
  if c.isDigit then some (c.toNat - '0'.toNat)
  else if 'a' ≤ c ∧ c ≤ 'f' then some (c.toNat - 'a'.toNat + 10)
  else if 'A' ≤ c ∧ c ≤ 'F' then some (c.toNat - 'A'.toNat + 10)
  else none

/-- The code unit of four hexadecimal digits. -/
def codeUnit? (a b c d : Char) : Option Nat := do
  return (((← hexDigit? a) * 16 + (← hexDigit? b)) * 16 + (← hexDigit? c)) * 16 + (← hexDigit? d)

/-- The code units that only stand for a character in pairs, a high one in front of a low one. -/
def HighSurrogate (n : Nat) : Prop := 0xD800 ≤ n ∧ n < 0xDC00

def LowSurrogate (n : Nat) : Prop := 0xDC00 ≤ n ∧ n < 0xE000

/-- One character of a string. -/
inductive Character : List Char → Char → List Char → Prop where
  | plain {c t} (printable : ' ' ≤ c) (quote : c ≠ '"') (backslash : c ≠ '\\') :
    Character (c :: t) c t
  | escaped {e c t} (h : (e, c) ∈ escapes) : Character ('\\' :: e :: t) c t
  | code {a b c d n t} (unit : codeUnit? a b c d = some n) (high : ¬ HighSurrogate n)
    (low : ¬ LowSurrogate n) : Character ('\\' :: 'u' :: a :: b :: c :: d :: t) (Char.ofNat n) t
  | pair {a b c d a' b' c' d' m n t} (unit : codeUnit? a b c d = some m)
    (unit' : codeUnit? a' b' c' d' = some n) (high : HighSurrogate m) (low : LowSurrogate n) :
    Character ('\\' :: 'u' :: a :: b :: c :: d :: '\\' :: 'u' :: a' :: b' :: c' :: d' :: t)
      (Char.ofNat (0x10000 + (m - 0xD800) * 0x400 + (n - 0xDC00))) t

/-- The characters of a string up to its closing quote. -/
inductive Characters : List Char → List Char → List Char → Prop where
  | close (t) : Characters ('"' :: t) [] t
  | cons {u v t c cs} (first : Character u c v) (tail : Characters v cs t) :
    Characters u (c :: cs) t

/-! ### Values -/

/-- The phrases of the grammar. Elements and members are those behind a first one, up to the
closing bracket. -/
inductive Phrase where
  | value (v : Value)
  | elements (vs : List Value)
  | member (m : String × Value)
  | members (ms : List (String × Value))

open Phrase in
inductive Written : List Char → Phrase → List Char → Prop where
  | null (t) : Written ('n' :: 'u' :: 'l' :: 'l' :: t) (value .null) t
  | true (t) : Written ('t' :: 'r' :: 'u' :: 'e' :: t) (value (.boolean .true)) t
  | false (t) : Written ('f' :: 'a' :: 'l' :: 's' :: 'e' :: t) (value (.boolean .false)) t
  | number {u n t} (h : Number u n t) : Written u (value (.number n)) t
  | text {u cs t} (h : Characters u cs t) :
    Written ('"' :: u) (value (.text (String.ofList cs))) t
  | emptyArray {u t} (blanks : Blanks u (']' :: t)) : Written ('[' :: u) (value (.array [])) t
  | array {u v w t e es} (blanks : Blanks u v) (first : Written v (value e) w)
    (others : Written w (elements es) t) : Written ('[' :: u) (value (.array (e :: es))) t
  | emptyObject {u t} (blanks : Blanks u ('}' :: t)) : Written ('{' :: u) (value (.object [])) t
  | object {u v w t m ms} (blanks : Blanks u v) (first : Written v (member m) w)
    (others : Written w (members ms) t) : Written ('{' :: u) (value (.object (m :: ms))) t
  | endArray {u t} (blanks : Blanks u (']' :: t)) : Written u (elements []) t
  | element {u v w x t e es} (comma : Blanks u (',' :: v)) (blanks : Blanks v w)
    (first : Written w (value e) x) (others : Written x (elements es) t) :
    Written u (elements (e :: es)) t
  | member {u v w x t cs val} (name : Characters u cs v) (colon : Blanks v (':' :: w))
    (blanks : Blanks w x) (named : Written x (value val) t) :
    Written ('"' :: u) (member (String.ofList cs, val)) t
  | endObject {u t} (blanks : Blanks u ('}' :: t)) : Written u (members []) t
  | another {u v w x t m ms} (comma : Blanks u (',' :: v)) (blanks : Blanks v w)
    (first : Written w (member m) x) (others : Written x (members ms) t) :
    Written u (members (m :: ms)) t

/-- The text is one value, with blanks around it. -/
def Document (s : String) (v : Value) : Prop :=
  ∃ u t, Blanks s.toList u ∧ Written u (.value v) t ∧ Blanks t []

/-- The text is a document, and it denotes this value and no other one. -/
structure Denotes (s : String) (v : Value) : Prop where
  document : Document s v
  unique : ∀ w, Document s w → w = v

end Json

end LoxLexer
