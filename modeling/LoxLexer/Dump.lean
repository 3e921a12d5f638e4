import LoxLexer.Scan
import LoxLexer.Token.Json

/-!
The printed tokens of a source.
-/

namespace LoxLexer

/-- How tokens are printed: one on a line, or as one JSON array. -/
inductive Form where
  | plain
  | json
deriving DecidableEq

/-- The texts that are written, in order. -/
def Form.texts (f : Form) (tokens : Array Token) : List String :=
  match f with
  | plain => tokens.toList.map fun t => t.display ++ "\n"
  | json => [(Json.array (tokens.toList.map Token.toJson)).render .pretty, "\n"]

/-- The streams of a run, and how the run failed if it did. -/
structure Run where
  out : Sink
  diagnostics : DiagnosticStream
  failure : Option Failure

namespace Run

/-- Scans a source to its end, and then prints the tokens. -/
def ofSource (form : Form) (source : String) (out : Sink) (diagnostics : DiagnosticStream) : Run :=
  let scanned := scan source diagnostics
  let (out, failure) := out.writeAll (form.texts scanned.tokens)
  ⟨out, scanned.reporter, failure⟩

/-- The exit status that tells of lexical errors. -/
def dataError : Nat := 65

def exitCode (diagnostics : DiagnosticStream) : Nat := if diagnostics.hadError then dataError else 0

end Run

end LoxLexer
