/-!
The kinds of lexemes: fixed marks, reserved words, and the three open classes.

A kind has two spellings. `name` is the one that a token is shown with, `tag` the one that it
has in JSON.
-/

namespace LoxLexer

/-- Punctuation and operators. -/
inductive Mark where
  | leftParen | rightParen | leftBrace | rightBrace
  | comma | dot | minus | plus | semicolon | slash | star
  | bang | bangEqual | equal | equalEqual | greater | greaterEqual | less | lessEqual
deriving DecidableEq, Hashable

namespace Mark

def all : List Mark :=
  [leftParen, rightParen, leftBrace, rightBrace, comma, dot, minus, plus, semicolon, slash, star,
    bang, bangEqual, equal, equalEqual, greater, greaterEqual, less, lessEqual]

theorem mem_all (m : Mark) : m ∈ all := by cases m <;> decide

def chars : Mark → List Char
  | leftParen => ['(']
  | rightParen => [')']
  | leftBrace => ['{']
  | rightBrace => ['}']
  | comma => [',']
  | dot => ['.']
  | minus => ['-']
  | plus => ['+']
  | semicolon => [';']
  | slash => ['/']
  | star => ['*']
  | bang => ['!']
  | bangEqual => ['!', '=']
  | equal => ['=']
  | equalEqual => ['=', '=']
  | greater => ['>']
  | greaterEqual => ['>', '=']
  | less => ['<']
  | lessEqual => ['<', '=']

/-- The mark of one character. -/
def single? : Char → Option Mark
  | '(' => some leftParen
  | ')' => some rightParen
  | '{' => some leftBrace
  | '}' => some rightBrace
  | ',' => some comma
  | '.' => some dot
  | '-' => some minus
  | '+' => some plus
  | ';' => some semicolon
  | '/' => some slash
  | '*' => some star
  | '!' => some bang
  | '=' => some equal
  | '>' => some greater
  | '<' => some less
  | _ => none

/-- The mark that an equals sign behind this one makes of it. -/
def withEqual? : Mark → Option Mark
  | bang => some bangEqual
  | equal => some equalEqual
  | greater => some greaterEqual
  | less => some lessEqual
  | _ => none

def tag : Mark → String
  | leftParen => "LeftParen"
  | rightParen => "RightParen"
  | leftBrace => "LeftBrace"
  | rightBrace => "RightBrace"
  | comma => "Comma"
  | dot => "Dot"
  | minus => "Minus"
  | plus => "Plus"
  | semicolon => "Semicolon"
  | slash => "Slash"
  | star => "Star"
  | bang => "Bang"
  | bangEqual => "BangEqual"
  | equal => "Equal"
  | equalEqual => "EqualEqual"
  | greater => "Greater"
  | greaterEqual => "GreaterEqual"
  | less => "Less"
  | lessEqual => "LessEqual"

def name : Mark → String
  | leftParen => "LEFT_PAREN"
  | rightParen => "RIGHT_PAREN"
  | leftBrace => "LEFT_BRACE"
  | rightBrace => "RIGHT_BRACE"
  | comma => "COMMA"
  | dot => "DOT"
  | minus => "MINUS"
  | plus => "PLUS"
  | semicolon => "SEMICOLON"
  | slash => "SLASH"
  | star => "STAR"
  | bang => "BANG"
  | bangEqual => "BANG_EQUAL"
  | equal => "EQUAL"
  | equalEqual => "EQUAL_EQUAL"
  | greater => "GREATER"
  | greaterEqual => "GREATER_EQUAL"
  | less => "LESS"
  | lessEqual => "LESS_EQUAL"

theorem chars_ne_nil (m : Mark) : m.chars ≠ [] := by cases m <;> decide

theorem chars_of_single? {c : Char} {m : Mark} (h : single? c = some m) : m.chars = [c] := by
  unfold single? at h
  split at h <;> cases h <;> rfl

theorem chars_of_withEqual? {m n : Mark} (h : m.withEqual? = some n) :
    n.chars = m.chars ++ ['='] := by
  cases m <;> cases h <;> rfl

end Mark

/-- The reserved words. -/
inductive Keyword where
  | and | «class» | «else» | false | «for» | «fun» | «if» | nil | or
  | print | «return» | super | this | true | var | «while»
deriving DecidableEq, Hashable

namespace Keyword

def all : List Keyword :=
  [.and, .class, .else, .false, .for, .fun, .if, .nil, .or,
    .print, .return, .super, .this, .true, .var, .while]

theorem mem_all (k : Keyword) : k ∈ all := by cases k <;> decide

def text : Keyword → String
  | .and => "and"
  | .class => "class"
  | .else => "else"
  | .false => "false"
  | .for => "for"
  | .fun => "fun"
  | .if => "if"
  | .nil => "nil"
  | .or => "or"
  | .print => "print"
  | .return => "return"
  | .super => "super"
  | .this => "this"
  | .true => "true"
  | .var => "var"
  | .while => "while"

def tag : Keyword → String
  | .and => "And"
  | .class => "Class"
  | .else => "Else"
  | .false => "False"
  | .for => "For"
  | .fun => "Fun"
  | .if => "If"
  | .nil => "Nil"
  | .or => "Or"
  | .print => "Print"
  | .return => "Return"
  | .super => "Super"
  | .this => "This"
  | .true => "True"
  | .var => "Var"
  | .while => "While"

def name : Keyword → String
  | .and => "AND"
  | .class => "CLASS"
  | .else => "ELSE"
  | .false => "FALSE"
  | .for => "FOR"
  | .fun => "FUN"
  | .if => "IF"
  | .nil => "NIL"
  | .or => "OR"
  | .print => "PRINT"
  | .return => "RETURN"
  | .super => "SUPER"
  | .this => "THIS"
  | .true => "TRUE"
  | .var => "VAR"
  | .while => "WHILE"

/-- The reserved word that is spelled exactly so. -/
def ofText? (s : String) : Option Keyword := all.find? (·.text == s)

@[simp] theorem ofText?_text (k : Keyword) : ofText? k.text = some k := by cases k <;> decide

theorem text_of_ofText? {s : String} {k : Keyword} (h : ofText? s = some k) : k.text = s := by
  simpa using List.find?_some h

end Keyword

inductive Kind where
  | mark (m : Mark)
  | keyword (k : Keyword)
  | identifier
  | string
  | number
  | endOfFile
deriving DecidableEq, Hashable

namespace Kind

def all : List Kind :=
  Mark.all.map mark ++ Keyword.all.map keyword ++ [identifier, string, number, endOfFile]

theorem mem_all (k : Kind) : k ∈ all := by
  cases k <;> simp [all, Mark.mem_all, Keyword.mem_all]

def tag : Kind → String
  | mark m => m.tag
  | keyword k => k.tag
  | identifier => "Identifier"
  | string => "String"
  | number => "Number"
  | endOfFile => "EndOfFile"

def name : Kind → String
  | mark m => m.name
  | keyword k => k.name
  | identifier => "IDENTIFIER"
  | string => "STRING"
  | number => "NUMBER"
  | endOfFile => "EOF"

theorem tag_inj {k l : Kind} : k.tag = l.tag ↔ k = l := by
  have all_distinct : ∀ k ∈ all, ∀ l ∈ all, k.tag = l.tag → k = l := by decide +kernel
  exact ⟨all_distinct k (mem_all k) l (mem_all l), congrArg tag⟩

theorem name_inj {k l : Kind} : k.name = l.name ↔ k = l := by
  have all_distinct : ∀ k ∈ all, ∀ l ∈ all, k.name = l.name → k = l := by decide +kernel
  exact ⟨all_distinct k (mem_all k) l (mem_all l), congrArg name⟩

/-- No name holds a blank. -/
theorem blank_not_mem_name (k : Kind) : ' ' ∉ k.name.toList := by
  have all_words : ∀ k ∈ all, ' ' ∉ k.name.toList := by decide +kernel
  exact all_words k (mem_all k)

def ofTag? (s : String) : Option Kind := all.find? (·.tag == s)

/-- A word is a keyword if it is spelled like one, and an identifier otherwise. -/
def ofWord (s : String) : Kind := (Keyword.ofText? s).elim identifier keyword

end Kind

end LoxLexer
