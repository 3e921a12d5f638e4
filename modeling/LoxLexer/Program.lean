import LoxLexer.CommandLine
import LoxLexer.Prompt

/-!
The whole program, from its arguments, files and standard input to its exit status and what it
writes. It is a program for any host.
-/

namespace LoxLexer

/-- What the program leaves to others: files to the operating system, and the wording of complaints
about its arguments to their parser. -/
structure Host where
  /-- The bytes of the file that a path leads to, or why they cannot be read. -/
  read : String → Except Failure ByteArray
  complaint : Stop → String

/-- A host of some files, each of which only its own path leads to. -/
def Host.ofFiles (files : List (String × ByteArray)) : Host where
  read path := (files.lookup path).elim (.error (.system 2 "No such file or directory")) .ok
  complaint _ := ""

structure Outcome where
  code : Nat
  stdout : ByteArray
  stderr : ByteArray

namespace Outcome

/-- The outcome when there is nothing to scan. What was not called for is complained about. -/
def ofStop (complaint : Stop → String) (s : Stop) : Outcome :=
  match s.text? with
  | some text => ⟨s.exitCode, text.toUTF8, .empty⟩
  | none => ⟨s.exitCode, .empty, (complaint s).toUTF8⟩

/-- The outcome of a run that ends with the given status unless it failed. -/
def ofRun (code : Nat) (r : Run) : Outcome :=
  match r.failure with
  | none => ⟨code, r.out.written, r.diagnostics.sink.written⟩
  | some failure =>
    ⟨1, r.out.written,
      r.diagnostics.sink.written ++ ("Error: " ++ failure.message ++ "\n").toUTF8⟩

/-- A script is scanned only if all of it can be read as text. -/
def ofScript (form : Form) (path : String) (contents : Except Failure ByteArray) : Outcome :=
  let source := contents.bind fun bytes =>
    (String.fromUTF8? bytes).elim (.error .invalidText) Except.ok
  match source with
  | .error failure =>
    let complaint :=
      "Error: could not read " ++ path ++ "\n\nCaused by:\n    " ++ failure.message ++ "\n"
    ⟨1, .empty, complaint.toUTF8⟩
  | .ok source =>
    let run := Run.ofSource form source .unlimited (.ofSink .unlimited)
    ofRun (Run.exitCode run.diagnostics) run

/-- The prompt does not fail for lexical errors. -/
def ofPrompt (form : Form) (input : ByteArray) : Outcome :=
  ofRun 0 (Prompt.run form (Prompt.lines input.data.toList) .unlimited (.ofSink .unlimited))

end Outcome

/-- What the program is called with. -/
structure Invocation where
  arguments : List String
  host : Host
  input : ByteArray

def Invocation.run (i : Invocation) : Outcome :=
  match CommandLine.parse i.arguments with
  | .error stop => .ofStop i.host.complaint stop
  | .ok request =>
    match request.script with
    | none => .ofPrompt request.form i.input
    | some path => .ofScript request.form path (i.host.read path)

end LoxLexer
