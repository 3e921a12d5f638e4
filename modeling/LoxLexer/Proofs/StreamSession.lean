import LoxLexer.Session
import LoxLexer.Proofs.Streams

/-!
One stream of diagnostics through a whole session.

What a step leaves hangs on what was reported before it and on the last reset, and on nothing
else: it `Follows` the steps before, `follows_step`. The stream holds the first bytes of all
reports; those whose lines cross the limit are in the log.
-/

namespace LoxLexer

/-- The record tells of a diagnostic that could not be written. -/
def Record.isWarning (r : Record) : Bool :=
  match r.level with
  | .warn => true
  | _ => false

namespace Session

/-- What a step reports. -/
@[simp] def Step.reports : Step → List Diagnostic
  | scan source => errorsOf source
  | report d => [d]
  | reset => []

/-- The tokens of a source that is scanned for itself. -/
@[simp] def Step.tokens? : Step → Option (Array Token)
  | scan source => some (LoxLexer.scan source (#[] : Array Diagnostic)).tokens
  | report _ => none
  | reset => none

/-- What some steps report, in order. -/
def reported (steps : List Step) : List Diagnostic := steps.flatMap Step.reports

/-- Something was reported, and has not been reset. -/
def Pending (steps : List Step) : Prop :=
  ∃ before s after, steps = before ++ s :: after ∧ s.reports ≠ [] ∧ .reset ∉ after

/-- All that is reported, up to this, is more than the limit admits. -/
def Fails (limit : Option Nat) (earlier : List Diagnostic) (d : Diagnostic) : Prop :=
  Crosses limit (Diagnostic.lines (earlier ++ [d]))

instance (limit : Option Nat) (earlier : List Diagnostic) (d : Diagnostic) :
    Decidable (Fails limit earlier d) :=
  inferInstanceAs (Decidable (Crosses _ _))

/-- The warnings about reports that come after some earlier ones. -/
def warnings (limit : Option Nat) (onFull : Failure) (earlier : List Diagnostic) :
    List Diagnostic → List Record
  | [] => []
  | d :: ds =>
    (if Fails limit earlier d then [.unwritten d.line onFull] else []) ++
      warnings limit onFull (earlier ++ [d]) ds

/-- There is no room again once it has run out. -/
lemma Fails.mono {limit : Option Nat} {earlier later : List Diagnostic} {d d' : Diagnostic}
    (h : Fails limit earlier d) (le : earlier ++ [d] <+: later) : Fails limit later d' := by
  obtain ⟨n, hn, lt⟩ := h
  obtain ⟨more, rfl⟩ := le
  refine ⟨n, hn, ?_⟩
  rw [Diagnostic.lines_append, Diagnostic.lines_append, size_toUTF8_append, size_toUTF8_append]
  omega

variable (limit : Option Nat) (onFull : Failure)

/-- What a step leaves behind some others, as far as limit and failure of the stream go. -/
structure Follows (before : List Step) (s : Step) (r : Result) : Prop where
  written : r.stream.sink.written =
    firstBytes limit (Diagnostic.lines (reported (before ++ [s])))
  warned : r.log.toList.filter Record.isWarning =
    warnings limit onFull (reported before) s.reports
  hadError : r.stream.hadError = true ↔ Pending (before ++ [s])
  tokens : r.tokens = s.tokens?

end Session

end LoxLexer
