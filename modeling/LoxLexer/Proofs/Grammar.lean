import LoxLexer.Piece

/-!
The lexical grammar of Lox, as a set of texts.

`Kind.Spells` says which texts are tokens of a kind and what they decode to. `Known` adds
blanks, comments and strings that nothing closes; any other single character is a text of its
own, `Matches`. A source is `Munched` from left to right, the longest text first.
-/

namespace LoxLexer

namespace Grammar

def Digit (c : Char) : Prop := '0' ≤ c ∧ c ≤ '9'

def Letter (c : Char) : Prop := 'A' ≤ c ∧ c ≤ 'Z' ∨ 'a' ≤ c ∧ c ≤ 'z' ∨ c = '_'

def Digits (w : List Char) : Prop := w ≠ [] ∧ ∀ c ∈ w, Digit c

def Word (w : List Char) : Prop :=
  ∃ c cs, w = c :: cs ∧ Letter c ∧ ∀ d ∈ cs, Letter d ∨ Digit d

end Grammar

open Grammar

/-- The texts of a kind of token, and the literal of each. -/
inductive Kind.Spells : Kind → List Char → Option Literal → Prop where
  | mark (m : Mark) : Spells (.mark m) m.chars none
  | keyword (k : Keyword) : Spells (.keyword k) k.text.toList none
  | identifier {w} (word : Word w) (free : ∀ k : Keyword, w ≠ k.text.toList) :
    Spells .identifier w none
  | string {body} (closed : '"' ∉ body) :
    Spells .string ('"' :: (body ++ ['"'])) (some (.text (String.ofList body)))
  | whole {ds} (digits : Digits ds) :
    Spells .number ds (some (.number (Numeral.ofDigits ds []).read))
  | decimal {ds fs} (digits : Digits ds) (fraction : Digits fs) :
    Spells .number (ds ++ '.' :: fs) (some (.number (Numeral.ofDigits ds fs).read))

/-- What a text stands for. -/
inductive Meaning where
  | nothing
  | token (kind : Kind) (literal : Option Literal)
  | fault (f : Fault)

/-- The item of a text that begins on the given line. -/
def Meaning.item? (line : Nat) (w : List Char) : Meaning → Option Item
  | nothing => none
  | token kind literal => some (.token ⟨kind, String.ofList w, literal, line⟩)
  | fault .unterminatedString => some (.error ⟨.unterminatedString, line + w.count '\n'⟩)
  | fault (.unexpectedCharacter c) => some (.error ⟨.unexpectedCharacter c, line⟩)

namespace Grammar

inductive Known : List Char → Meaning → Prop where
  | blank {c} (h : c ∈ [' ', '\r', '\t', '\n']) : Known [c] .nothing
  | comment {body} (line : '\n' ∉ body) : Known ('/' :: '/' :: body) .nothing
  | token {kind w literal} (h : kind.Spells w literal) : Known w (.token kind literal)
  | openString {body} (unclosed : '"' ∉ body) :
    Known ('"' :: body) (.fault .unterminatedString)

inductive Matches : List Char → Meaning → Prop where
  | known {w m} (h : Known w m) : Matches w m
  | other {c} (h : ∀ m, ¬ Known [c] m) : Matches [c] (.fault (.unexpectedCharacter c))

/-- The text `w`, with the meaning `m`, is the longest one that `cs` begins with. -/
structure Longest (w : List Char) (m : Meaning) (cs : List Char) : Prop where
  text : Matches w m
  begins : w <+: cs
  longest : ∀ v n, Matches v n → v <+: cs → v.length ≤ w.length

/-- A source in texts, each of them the longest where it begins. -/
inductive Munched : List Char → List (List Char × Meaning) → Prop where
  | nil : Munched [] []
  | cons {w m rest texts} (ne : w ≠ []) (first : Longest w m (w ++ rest))
    (tail : Munched rest texts) : Munched (w ++ rest) ((w, m) :: texts)

/-- The items of texts that follow each other from the given line on. -/
def items (line : Nat) : List (List Char × Meaning) → List Item
  | [] => []
  | (w, m) :: texts => (m.item? line w).toList ++ items (line + w.count '\n') texts

end Grammar

end LoxLexer
