import LoxLexer.Diagnostic
import LoxLexer.Sink
import LoxLexer.Token.Basic

/-!
Who is told about lexical errors, and the log that a scan leaves.
-/

namespace LoxLexer

/-! ### The log -/

inductive Record where
  | scanned (t : Token)
  /-- A diagnostic that could not be written. -/
  | unwritten (line : Nat) (failure : Failure)
  | summary (tokens lines errors : Nat)

namespace Record

inductive Level where
  | trace
  | debug
  | warn

def Level.name : Level → String
  | trace => "TRACE"
  | debug => "DEBUG"
  | warn => "WARN"

def level : Record → Level
  | scanned _ => .trace
  | unwritten .. => .warn
  | summary .. => .debug

def text : Record → String
  | scanned t => "scanned " ++ t.display
  | unwritten line failure =>
    "could not write diagnostic for line " ++ Nat.repr line ++ ": " ++ failure.message
  | summary tokens lines errors =>
    "scanned " ++ Nat.repr tokens ++ " tokens over " ++ Nat.repr lines ++ " lines with " ++
      Nat.repr errors ++ " errors"

end Record

/-! ### Reporters -/

/-- A receiver of diagnostics. What it cannot do with one goes to the log. -/
class Reporter (ρ : Type) where
  report : ρ → Diagnostic → ρ × List Record

export Reporter (report)

/-- Keeps the diagnostics. -/
instance : Reporter (Array Diagnostic) := ⟨fun ds d => (ds.push d, [])⟩

/-- A function that is called with the line and the message of each diagnostic. -/
structure Listener (σ : Type) where
  state : σ
  hear : σ → Nat → String → σ

instance {σ : Type} : Reporter (Listener σ) :=
  ⟨fun l d => ({ l with state := l.hear l.state d.line d.message }, [])⟩

/-- Writes the diagnostics to a sink, one on a line, and remembers that there were some. -/
structure DiagnosticStream where
  sink : Sink
  hadError : Bool

namespace DiagnosticStream

def ofSink (sink : Sink) : DiagnosticStream := ⟨sink, false⟩

/-- Forgets the diagnostics so far; what is written stays. -/
def reset (s : DiagnosticStream) : DiagnosticStream := { s with hadError := false }

/-- A diagnostic counts, whether or not it can be written. -/
instance : Reporter DiagnosticStream where
  report s d :=
    let (sink, failure) := s.sink.write (d.display ++ "\n")
    (⟨sink, true⟩, (failure.map (Record.unwritten d.line)).toList)

end DiagnosticStream

end LoxLexer
