import LoxLexer.Diagnostic
import LoxLexer.Token.Basic

/-!
Pieces of source text: lexemes, malformed lexemes, and what stands between them.

`cut` takes the first piece off a text. It loses no character, `cut_append`, and always takes
one, `chars_cut_ne_nil`. A piece with a meaning is a token or a fault, `item?`.
-/

namespace LoxLexer

/-- What a source is made of: tokens, and lexical errors among them. -/
inductive Item where
  | token (t : Token)
  | error (d : Diagnostic)

/-- A letter or an underscore. Letters and digits are those of ASCII. -/
def isWordStart (c : Char) : Bool := c.isAlpha || c == '_'

def isWordPart (c : Char) : Bool := isWordStart c || c.isDigit

inductive Piece where
  | blank (c : Char)
  /-- A comment, by what follows its two slashes on the line. -/
  | comment (body : List Char)
  | mark (m : Mark)
  | word (letters : List Char)
  /-- A number, by its digits before and behind the point. Without the latter it has none. -/
  | number (whole fraction : List Char)
  | string (body : List Char)
  /-- A string without its closing quote. -/
  | openString (body : List Char)
  /-- A character that begins no lexeme. -/
  | stray (c : Char)

namespace Piece

def chars : Piece → List Char
  | blank c => [c]
  | comment body => '/' :: '/' :: body
  | mark m => m.chars
  | word letters => letters
  | number whole fraction => whole ++ if fraction.isEmpty then [] else '.' :: fraction
  | string body => '"' :: (body ++ ['"'])
  | openString body => '"' :: body
  | stray c => [c]

def newlines (p : Piece) : Nat := p.chars.count '\n'

/-- The size in UTF-8. -/
def bytes (p : Piece) : Nat := (String.ofList p.chars).utf8ByteSize

/-! ### Cutting -/

/-- A string, behind its opening quote: up to the next quote, or to the end. -/
def cutString (cs : List Char) : Piece × List Char :=
  match cs.dropWhile (· != '"') with
  | [] => (openString cs, [])
  | _ :: rest => (string (cs.takeWhile (· != '"')), rest)

/-- A number. A point belongs to it only if a digit follows. -/
def cutNumber (cs : List Char) : Piece × List Char :=
  let whole := cs.takeWhile Char.isDigit
  match cs.dropWhile Char.isDigit with
  | '.' :: d :: rest =>
    if d.isDigit then
      (number whole (d :: rest.takeWhile Char.isDigit), rest.dropWhile Char.isDigit)
    else (number whole [], '.' :: d :: rest)
  | rest => (number whole [], rest)

/-- A mark, the longer one if there are two; any other character is stray. -/
def cutMark (c : Char) (cs : List Char) : Piece × List Char :=
  match Mark.single? c with
  | none => (stray c, cs)
  | some m =>
    match m.withEqual?, cs with
    | some n, '=' :: rest => (mark n, rest)
    | _, _ => (mark m, cs)

/-- The first piece of `c :: cs`, and what is left behind it. -/
def cut (c : Char) (cs : List Char) : Piece × List Char :=
  if c.isWhitespace then (blank c, cs)
  else if c.isDigit then cutNumber (c :: cs)
  else if isWordStart c then (word (c :: cs.takeWhile isWordPart), cs.dropWhile isWordPart)
  else if c = '"' then cutString cs
  else if c = '/' ∧ cs.head? = some '/' then
    (comment (cs.tail.takeWhile (· != '\n')), cs.tail.dropWhile (· != '\n'))
  else cutMark c cs

theorem cutString_append (cs : List Char) :
    (cutString cs).1.chars ++ (cutString cs).2 = '"' :: cs := by
  have split := List.takeWhile_append_dropWhile (p := (· != '"')) (l := cs)
  have quote := List.head_dropWhile_not (fun c : Char => c != '"') (l := cs)
  unfold cutString
  split
  · simp [chars]
  · next q rest h =>
    have hq : q = '"' := by simpa [h] using quote (by simp [h])
    rw [h, hq] at split
    simpa [chars] using split

theorem cutNumber_append (cs : List Char) :
    (cutNumber cs).1.chars ++ (cutNumber cs).2 = cs := by
  have split := List.takeWhile_append_dropWhile (p := Char.isDigit) (l := cs)
  unfold cutNumber
  dsimp only
  split
  · next d rest h =>
    rw [h] at split
    split <;> simpa [chars] using split
  · simp [chars]

theorem cutMark_append (c : Char) (cs : List Char) :
    (cutMark c cs).1.chars ++ (cutMark c cs).2 = c :: cs := by
  unfold cutMark
  split
  · rfl
  · next m h =>
    have hm := Mark.chars_of_single? h
    split
    · next n rest hn =>
      simp [chars, Mark.chars_of_withEqual? hn, hm]
    · simp [chars, hm]

theorem cut_append (c : Char) (cs : List Char) :
    (cut c cs).1.chars ++ (cut c cs).2 = c :: cs := by
  unfold cut
  split
  · rfl
  split
  · exact cutNumber_append _
  split
  · simp [chars]
  split
  · next h => simp [h, cutString_append]
  split
  · next h =>
    obtain ⟨rfl, h⟩ := h
    cases cs with
    | nil => simp at h
    | cons d cs => cases h; simp [chars]
  · exact cutMark_append c cs

theorem chars_cut_ne_nil (c : Char) (cs : List Char) : (cut c cs).1.chars ≠ [] := by
  unfold cut
  split
  · simp [chars]
  split
  · next h =>
    unfold cutNumber
    dsimp only
    split
    · split <;> simp [chars, h]
    · simp [chars, h]
  split
  · simp [chars]
  split
  · unfold cutString
    split <;> simp [chars]
  split
  · simp [chars]
  · unfold cutMark
    split
    · simp [chars]
    · split <;> simp [chars, Mark.chars_ne_nil]

theorem length_cut_lt (c : Char) (cs : List Char) :
    (cut c cs).2.length < (c :: cs).length := by
  have whole := congrArg List.length (cut_append c cs)
  have taken := List.length_pos_iff.mpr (chars_cut_ne_nil c cs)
  rw [List.length_append] at whole
  omega

/-! ### Meaning -/

/-- What a piece that starts on the given line stands for. A string that is never closed is
reported on the line where the source ends. -/
def item? (line : Nat) (p : Piece) : Option Item :=
  let lexeme := String.ofList p.chars
  match p with
  | blank _ => none
  | comment _ => none
  | mark m => some (.token ⟨.mark m, lexeme, none, line⟩)
  | word _ => some (.token ⟨.ofWord lexeme, lexeme, none, line⟩)
  | number whole fraction =>
    some (.token ⟨.number, lexeme, some (.number (Numeral.ofDigits whole fraction).read), line⟩)
  | string body => some (.token ⟨.string, lexeme, some (.text (String.ofList body)), line⟩)
  | openString _ => some (.error ⟨.unterminatedString, line + p.newlines⟩)
  | stray c => some (.error ⟨.unexpectedCharacter c, line⟩)

end Piece

end LoxLexer
