import LoxLexer.Scan

/-!
A session: one diagnostic stream, used step by step.
-/

namespace LoxLexer

namespace Session

/-- One use of a diagnostic stream. -/
inductive Step where
  | scan (source : String)
  | report (d : Diagnostic)
  | reset

/-- What a step leaves. -/
structure Result where
  stream : DiagnosticStream
  log : Array Record
  /-- The tokens, if the step was a scan. -/
  tokens : Option (Array Token)

def step (s : DiagnosticStream) : Step → Result
  | .scan source =>
    let scanned := scan source s
    ⟨scanned.reporter, scanned.log, some scanned.tokens⟩
  | .report d =>
    let (stream, records) := report s d
    ⟨stream, records.toArray, none⟩
  | .reset => ⟨s.reset, #[], none⟩

/-- What each step leaves, on the stream as the steps before left it. -/
def run (s : DiagnosticStream) : List Step → List Result
  | [] => []
  | first :: rest =>
    let result := step s first
    result :: run result.stream rest

end Session

end LoxLexer
