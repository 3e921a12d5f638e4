import LoxLexer.Dump

/-!
The arguments of the program.

They are read from left to right, and the first one that settles the matter does so. An empty
script is found out late: at the next option of the program, or at the end.
-/

namespace LoxLexer

/-- What is asked of the program: a script to scan, or the prompt. -/
structure Request where
  script : Option String
  form : Form
deriving DecidableEq

/-- Why no script is scanned and no prompt shown. -/
inductive Stop where
  | help
  | version
  | unknownArgument
  | repeatedOption
  | unexpectedValue
  | emptyScript
deriving DecidableEq

namespace CommandLine

def helpText : String :=
  "Print the tokens of a Lox script\n\n" ++
  "Usage: lox-scan [OPTIONS] [SCRIPT]\n\n" ++
  "Arguments:\n" ++
  "  [SCRIPT]  Script to scan; starts an interactive prompt when omitted\n\n" ++
  "Options:\n" ++
  "      --json     Print tokens as a JSON array\n" ++
  "  -h, --help     Print help\n" ++
  "  -V, --version  Print version\n"

def versionText : String := "lox-scan 0.1.0\n"

/-- The options of the program. -/
inductive Switch where
  | json
  | help
  | version
deriving DecidableEq

def Switch.ofLong? (name : String) : Option Switch :=
  if name = "json" then some .json
  else if name = "help" then some .help
  else if name = "version" then some .version
  else none

def Switch.ofShort? (letter : Char) : Option Switch :=
  if letter = 'h' then some .help
  else if letter = 'V' then some .version
  else none

/-- What an argument is by its own looks. -/
inductive Argument where
  /-- Two dashes, behind which everything is an operand. -/
  | separator
  | switch (s : Switch)
  /-- An option that is given a value, though it takes none. -/
  | valued
  | unknown
  | operand
deriving DecidableEq

namespace Argument

/-- Of short options in one argument the first decides, since each of them ends the reading. -/
def ofChars : List Char → Argument
  | ['-', '-'] => separator
  | '-' :: '-' :: long =>
    match Switch.ofLong? (String.ofList (long.takeWhile (· != '='))) with
    | none => unknown
    | some s => if long.contains '=' then valued else switch s
  | '-' :: letter :: _ => (Switch.ofShort? letter).elim unknown switch
  | _ => operand

end Argument

/-- A request whose script, if it has one, is not empty. -/
def checked (r : Request) : Except Stop Request :=
  if r.script = some "" then .error .emptyScript else .ok r

def addOperand (r : Request) (operand : String) : Except Stop Request :=
  if r.script.isSome then .error .unknownArgument else .ok { r with script := some operand }

def addSwitch (r : Request) (s : Switch) : Except Stop Request := do
  let r ← checked r
  match s with
  | .json => if r.form = .json then .error .repeatedOption else .ok { r with form := .json }
  | .help => .error .help
  | .version => .error .version

/-- Reads the arguments behind a separator. -/
def addOperands (r : Request) : List String → Except Stop Request
  | [] => checked r
  | a :: rest => do addOperands (← addOperand r a) rest

def addArguments (r : Request) : List String → Except Stop Request
  | [] => checked r
  | a :: rest =>
    match Argument.ofChars a.toList with
    | .separator => addOperands r rest
    | .switch s => do addArguments (← addSwitch r s) rest
    | .valued => .error .unexpectedValue
    | .unknown => .error .unknownArgument
    | .operand => do addArguments (← addOperand r a) rest

/-- The request that the arguments make. -/
def parse (arguments : List String) : Except Stop Request :=
  addArguments ⟨none, .plain⟩ arguments

end CommandLine

namespace Stop

/-- The text for which the program was called. -/
def text? : Stop → Option String
  | help => some CommandLine.helpText
  | version => some CommandLine.versionText
  | _ => none

def exitCode (s : Stop) : Nat := if s.text?.isSome then 0 else 2

end Stop

end LoxLexer
