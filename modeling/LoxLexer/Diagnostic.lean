/-!
Lexical errors. Both kinds leave the rest of the source to be scanned.
-/

namespace LoxLexer

inductive Fault where
  | unterminatedString
  | unexpectedCharacter (c : Char)
deriving DecidableEq

def Fault.message : Fault → String
  | unterminatedString => "Unterminated string."
  | unexpectedCharacter c => "Unexpected character: " ++ String.singleton c

structure Diagnostic where
  fault : Fault
  line : Nat
deriving DecidableEq

namespace Diagnostic

def message (d : Diagnostic) : String := d.fault.message

def display (d : Diagnostic) : String :=
  "[line " ++ Nat.repr d.line ++ "] Error: " ++ d.message

end Diagnostic

end LoxLexer
