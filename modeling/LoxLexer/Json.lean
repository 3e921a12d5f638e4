import LoxLexer.Number.Numeral

/-!
JSON values and their text.

A `Layout` says what stands between the parts of a value: nothing, or line breaks and blanks.
-/

namespace LoxLexer

inductive Json where
  | null
  | text (s : String)
  | number (n : Numeral)
  | array (elements : List Json)
  | object (members : List (String × Json))

namespace Json

def natural (n : Nat) : Json := .number ⟨false, Nat.toDigits 10 n, [], none⟩

/-- A quote, a backslash and the control characters below the blank are escaped, five of these
by a letter. -/
def escape (c : Char) : List Char :=
  if c = '"' then ['\\', '"']
  else if c = '\\' then ['\\', '\\']
  else if c = '\x08' then ['\\', 'b']
  else if c = '\t' then ['\\', 't']
  else if c = '\n' then ['\\', 'n']
  else if c = '\x0c' then ['\\', 'f']
  else if c = '\r' then ['\\', 'r']
  else if c < ' ' then
    ['\\', 'u', '0', '0', Nat.digitChar (c.toNat / 16), Nat.digitChar (c.toNat % 16)]
  else [c]

def quote (s : String) : String :=
  String.ofList ('"' :: (s.toList.flatMap escape ++ ['"']))

structure Layout where
  /-- What stands before an element, and before the closing bracket, at a depth. -/
  gap : Nat → String
  /-- What stands between a key and its value. -/
  colon : String

namespace Layout

def compact : Layout := ⟨fun _ => "", ":"⟩

/-- Each element on a line of its own, two blanks further in at each depth. -/
def pretty : Layout :=
  ⟨fun depth => String.ofList ('\n' :: List.replicate (2 * depth) ' '), ": "⟩

end Layout

mutual

/-- Writes a value behind the text `out`. -/
def write (l : Layout) (depth : Nat) (out : String) : Json → String
  | null => out ++ "null"
  | text s => out ++ quote s
  | number n => out ++ n.text
  | array [] => out ++ "[]"
  | array (e :: es) =>
    let first := write l (depth + 1) (out ++ "[" ++ l.gap (depth + 1)) e
    writeElements l (depth + 1) first es ++ l.gap depth ++ "]"
  | object [] => out ++ "\x7b\x7d"
  | object ((key, value) :: ms) =>
    let first :=
      write l (depth + 1) (out ++ "\x7b" ++ l.gap (depth + 1) ++ quote key ++ l.colon) value
    writeMembers l (depth + 1) first ms ++ l.gap depth ++ "\x7d"

/-- Writes the elements behind the first. -/
def writeElements (l : Layout) (depth : Nat) (out : String) : List Json → String
  | [] => out
  | e :: es => writeElements l depth (write l depth (out ++ "," ++ l.gap depth) e) es

/-- Writes the members behind the first. -/
def writeMembers (l : Layout) (depth : Nat) (out : String) : List (String × Json) → String
  | [] => out
  | (key, value) :: ms =>
    let out := out ++ "," ++ l.gap depth ++ quote key ++ l.colon
    writeMembers l depth (write l depth out value) ms

end

/-! What is written does not hang on what stands before it. -/

mutual

theorem append_write (l : Layout) (depth : Nat) (a b : String) :
    ∀ j : Json, j.write l depth (a ++ b) = a ++ j.write l depth b
  | null => by simp only [write, String.append_assoc]
  | text s => by simp only [write, String.append_assoc]
  | number n => by simp only [write, String.append_assoc]
  | array [] => by simp only [write, String.append_assoc]
  | array (e :: es) => by
    simp only [write, String.append_assoc]
    rw [append_write l (depth + 1) a _ e, append_writeElements l (depth + 1) a _ es,
      String.append_assoc]
  | object [] => by simp only [write, String.append_assoc]
  | object ((key, value) :: ms) => by
    simp only [write, String.append_assoc]
    rw [append_write l (depth + 1) a _ value, append_writeMembers l (depth + 1) a _ ms,
      String.append_assoc]

theorem append_writeElements (l : Layout) (depth : Nat) (a b : String) :
    ∀ es : List Json, writeElements l depth (a ++ b) es = a ++ writeElements l depth b es
  | [] => rfl
  | e :: es => by
    simp only [writeElements, String.append_assoc]
    rw [append_write l depth a _ e, append_writeElements l depth a _ es]

theorem append_writeMembers (l : Layout) (depth : Nat) (a b : String) :
    ∀ ms : List (String × Json),
      writeMembers l depth (a ++ b) ms = a ++ writeMembers l depth b ms
  | [] => rfl
  | (key, value) :: ms => by
    simp only [writeMembers, String.append_assoc]
    rw [append_write l depth a _ value, append_writeMembers l depth a _ ms]

end

def render (l : Layout) (j : Json) : String := j.write l 0 ""

end Json

end LoxLexer
