import LoxLexer.Report
import LoxLexer.Scanner

/-!
A whole scan: the tokens of a source, its errors handed to a reporter, and the log.
-/

namespace LoxLexer

structure Scan (ρ : Type) where
  tokens : Array Token
  errors : Nat
  log : Array Record
  reporter : ρ

namespace Scan

variable {ρ : Type} [Reporter ρ]

def start (reporter : ρ) : Scan ρ := ⟨#[], 0, #[], reporter⟩

def add (s : Scan ρ) : Item → Scan ρ
  | .token t => { s with tokens := s.tokens.push t, log := s.log.push (.scanned t) }
  | .error d =>
    let (reporter, records) := report s.reporter d
    { s with errors := s.errors + 1, log := s.log ++ records, reporter }

/-- Ends the scan on the given line. -/
def finish (s : Scan ρ) (line : Nat) : Scan ρ :=
  { s with
    tokens := s.tokens.push (.endOfFile line)
    log := s.log.push (.summary (s.tokens.size + 1) line s.errors) }

end Scan

/-- Scans what is left of a source. -/
def Scanner.scanRest {ρ : Type} [Reporter ρ] (s : Scanner) (reporter : ρ) : Scan ρ :=
  let (scan, stop) := s.fold Scan.add (Scan.start reporter)
  scan.finish stop.line

/-- Scans a source. The last token, and no other one, is the end of the file. -/
def scan {ρ : Type} [Reporter ρ] (source : String) (reporter : ρ) : Scan ρ :=
  (Scanner.ofSource source).scanRest reporter

end LoxLexer
