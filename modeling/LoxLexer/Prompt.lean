import LoxLexer.Dump

/-!
The prompt: each line of the input is a source of its own.
-/

namespace LoxLexer

namespace Prompt

variable {α : Type} [DecidableEq α]

/-- Puts a character in front of some lines. A newline ends a line, so it never joins the next. -/
def cons (newline a : α) (lines : List (List α)) : List (List α) :=
  if a = newline then [a] :: lines
  else
    match lines with
    | [] => [[a]]
    | line :: lines => (a :: line) :: lines

/-- The lines of a text, each with the newline that ends it. The last one may lack it. -/
def linesBy (newline : α) (text : List α) : List (List α) := text.foldr (cons newline) []

@[simp] theorem flatten_cons (newline a : α) (ls : List (List α)) :
    (cons newline a ls).flatten = a :: ls.flatten := by
  unfold cons
  split
  · rfl
  · cases ls <;> rfl

@[simp] theorem flatten_linesBy (newline : α) (text : List α) :
    (linesBy newline text).flatten = text := by
  induction text with
  | nil => rfl
  | cons a text ih => simpa [linesBy] using ih

def newline : UInt8 := 10

/-- The lines of an input. -/
def lines (bytes : List UInt8) : List (List UInt8) := linesBy newline bytes

/-- Shows the prompt. -/
def ask (out : Sink) : Sink × Option Failure := out.write "> "

/-- Answers one line, and forgets its errors unless the answer fails. -/
def answer (form : Form) (line : List UInt8) (out : Sink) (diagnostics : DiagnosticStream) : Run :=
  match String.fromUTF8? line.toByteArray with
  | none => ⟨out, diagnostics, some .invalidText⟩
  | some source =>
    let run := Run.ofSource form source out diagnostics
    if run.failure = none then { run with diagnostics := run.diagnostics.reset } else run

/-- Asks for and answers line by line, up to the end of the input or a failure. -/
def run (form : Form) (lines : List (List UInt8)) (out : Sink) (diagnostics : DiagnosticStream) :
    Run :=
  match ask out with
  | (out, some failure) => ⟨out, diagnostics, some failure⟩
  | (out, none) =>
    match lines with
    | [] => ⟨out, diagnostics, none⟩
    | line :: lines =>
      let step := answer form line out diagnostics
      if step.failure = none then run form lines step.out step.diagnostics else step

end Prompt

end LoxLexer
