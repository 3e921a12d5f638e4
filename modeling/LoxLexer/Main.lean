import LoxLexer.Program

/-!
The program `lox-scan`: reads a script, or a line at a time, and writes what the library makes
of it.
-/

namespace LoxLexer.Main

/-- Writes what a run left, the diagnostics first. -/
def emit (out diagnostics : ByteArray) : IO Unit := do
  (← IO.getStderr).write diagnostics
  let stdout ← IO.getStdout
  stdout.write out
  stdout.flush

def finish (o : Outcome) : IO UInt32 := do
  emit o.stdout o.stderr
  return o.code.toUInt32

/-- The system's number, which may come negated, and its words. -/
def failure? : IO.Error → Option Failure
  | .noFileOrDirectory _ code text | .permissionDenied _ code text
  | .inappropriateType _ code text | .invalidArgument _ code text
  | .resourceExhausted _ code text | .noSuchThing _ code text | .alreadyExists _ code text
  | .interrupted _ code text | .otherError code text | .resourceBusy code text
  | .resourceVanished code text | .unsupportedOperation code text | .hardwareFault code text
  | .unsatisfiedConstraints code text | .illegalOperation code text | .protocolError code text
  | .timeExpired code text => some (.system (min code (0 - code)).toNat text.capitalize)
  | .unexpectedEof | .userError _ => none

/-- The file's bytes, or why there are none. -/
def readFile (path : String) : IO (Except Failure ByteArray) := do
  try
    return .ok (← IO.FS.readBinFile path)
  catch e =>
    match failure? e with
    | some failure => return .error failure
    | none => throw e

def complaint (_ : Stop) : String :=
  "error: the arguments cannot be used\n\nUsage: lox-scan [OPTIONS] [SCRIPT]\n"

/-- One line of an input with its newline; nothing at the end. -/
partial def readLine (input : IO.FS.Stream) (line : List UInt8) : IO (List UInt8) := do
  match (← input.read 1).data.toList with
  | [] => return line.reverse
  | byte :: _ =>
    if byte = Prompt.newline then return (byte :: line).reverse
    else readLine input (byte :: line)

partial def prompt (form : Form) : IO UInt32 := do
  emit (Prompt.ask .unlimited).1.written .empty
  let line ← readLine (← IO.getStdin) []
  if line.isEmpty then return 0
  let run := Prompt.answer form line .unlimited (.ofSink .unlimited)
  let code ← finish (.ofRun 0 run)
  if run.failure.isSome then return code
  prompt form

end LoxLexer.Main

open LoxLexer in
def main (arguments : List String) : IO UInt32 := do
  match CommandLine.parse arguments with
  | .error stop => Main.finish (.ofStop Main.complaint stop)
  | .ok request =>
    match request.script with
    | none => Main.prompt request.form
    | some path => Main.finish (.ofScript request.form path (← Main.readFile path))
