import LoxLexer.Program
import LoxLexer.Proofs.LineByLine

/-!
The outcomes of the program.

A script is scanned if its file can be read and is UTF-8, `answersScript`, and the prompt answers
the lines ahead of the first one that is not, `answersPrompt`. Only with a script does the status
tell of lexical errors. What is called for depends on the arguments alone. All of this is so on any
host, whatever it has to read and says of arguments.
-/

namespace LoxLexer

/-! ### Scripts -/

namespace Outcome

/-- Why a file cannot be read as text. -/
def cause : Except Failure ByteArray → Failure
  | .error failure => failure
  | .ok _ => .invalidText

/-- What a script comes to, by the contents of its file. -/
structure AnswersScript (form : Form) (path : String) (contents : Except Failure ByteArray)
    (o : Outcome) : Prop where
  unreadable : o.code = 1 ↔ ¬ ∃ source : String, contents = .ok source.toUTF8
  erroneous : o.code = 65 ↔ ∃ source : String, contents = .ok source.toUTF8 ∧ errorsOf source ≠ []
  flawless : o.code = 0 ↔ ∃ source : String, contents = .ok source.toUTF8 ∧ errorsOf source = []
  scanned : ∀ source : String, contents = .ok source.toUTF8 →
    o.stdout = (dump form source).toUTF8 ∧
    o.stderr = (Diagnostic.lines (errorsOf source)).toUTF8
  unscanned : o.code = 1 → o.stdout = .empty ∧
    o.stderr = ("Error: could not read " ++ path ++ "\n\nCaused by:\n    " ++
      (cause contents).message ++ "\n").toUTF8

lemma ofScript_toUTF8 (form : Form) (path source : String) :
    ofScript form path (.ok source.toUTF8) =
      ⟨if errorsOf source = [] then 0 else 65, (dump form source).toUTF8,
        (Diagnostic.lines (errorsOf source)).toUTF8⟩ := by
  have text : String.fromUTF8? source.toUTF8 = some source := fromUTF8?_eq_some_iff.mpr rfl
  simp only [ofScript, Except.bind, text, Option.elim_some, ofSource_unlimited, ofRun]
  congr 1
  cases errorsOf source <;> rfl

lemma ofScript_of_unreadable (form : Form) (path : String) {contents : Except Failure ByteArray}
    (unreadable : ¬ ∃ source : String, contents = .ok source.toUTF8) :
    ofScript form path contents =
      ⟨1, .empty, ("Error: could not read " ++ path ++ "\n\nCaused by:\n    " ++
        (cause contents).message ++ "\n").toUTF8⟩ := by
  cases contents with
  | error failure => rfl
  | ok bytes =>
    have invalid : String.fromUTF8? bytes = none := by
      rw [Option.eq_none_iff_forall_ne_some]
      intro source text
      exact unreadable ⟨source, congrArg Except.ok (fromUTF8?_eq_some_iff.mp text)⟩
    simp only [ofScript, Except.bind, invalid, Option.elim_none, cause]

lemma AnswersScript.code_ne_two {form : Form} {path : String} {contents : Except Failure ByteArray}
    {o : Outcome} (h : AnswersScript form path contents o) : o.code ≠ 2 := by
  intro two
  by_cases readable : ∃ source : String, contents = .ok source.toUTF8
  · obtain ⟨source, text⟩ := readable
    by_cases flawless : errorsOf source = []
    · have := h.flawless.mpr ⟨source, text, flawless⟩
      omega
    · have := h.erroneous.mpr ⟨source, text, flawless⟩
      omega
  · have := h.unreadable.mpr readable
    omega

theorem answersScript (form : Form) (path : String) (contents : Except Failure ByteArray) :
    AnswersScript form path contents (ofScript form path contents) := by
  by_cases readable : ∃ source : String, contents = .ok source.toUTF8
  · obtain ⟨source, text⟩ := readable
    have same {other : String} : contents = .ok other.toUTF8 ↔ source = other := by
      rw [text]
      simp [String.toByteArray_inj]
    have scanned (other : String) (text' : contents = .ok other.toUTF8) :
        (dump form source).toUTF8 = (dump form other).toUTF8 ∧
        (Diagnostic.lines (errorsOf source)).toUTF8 =
          (Diagnostic.lines (errorsOf other)).toUTF8 := by
      obtain rfl := same.mp text'
      exact ⟨rfl, rfl⟩
    have outcome : ofScript form path contents = _ := text ▸ ofScript_toUTF8 form path source
    rw [outcome]
    by_cases flawless : errorsOf source = []
    · rw [if_pos flawless]
      refine ⟨iff_of_false nofun (not_not_intro ⟨source, text⟩), iff_of_false nofun ?_,
        iff_of_true rfl ⟨source, text, flawless⟩, scanned, nofun⟩
      rintro ⟨other, text', errors⟩
      exact errors (same.mp text' ▸ flawless)
    · rw [if_neg flawless]
      refine ⟨iff_of_false nofun (not_not_intro ⟨source, text⟩),
        iff_of_true rfl ⟨source, text, flawless⟩, iff_of_false nofun ?_, scanned, nofun⟩
      rintro ⟨other, text', none⟩
      exact flawless (same.mp text' ▸ none)
  · rw [ofScript_of_unreadable form path readable]
    refine ⟨iff_of_true rfl readable, iff_of_false nofun ?_, iff_of_false nofun ?_,
      fun source text => absurd ⟨source, text⟩ readable, fun _ => ⟨rfl, rfl⟩⟩
    · rintro ⟨source, text, -⟩
      exact readable ⟨source, text⟩
    · rintro ⟨source, text, -⟩
      exact readable ⟨source, text⟩

/-! ### The prompt -/

/-- What a session at the prompt comes to, by its lines. -/
structure AnswersPrompt (form : Form) (input : ByteArray) (o : Outcome) : Prop where
  failed : o.code = 1 ↔
    ∃ line ∈ Prompt.lines input.data.toList, ¬ line.toByteArray.IsValidUTF8
  ended : o.code = 0 ↔
    ∀ line ∈ Prompt.lines input.data.toList, line.toByteArray.IsValidUTF8
  session :
    let r := Prompt.run form (Prompt.lines input.data.toList) .unlimited (.ofSink .unlimited)
    o.stdout = r.out.written ∧
    o.stderr = r.diagnostics.sink.written ++
      if o.code = 1 then "Error: stream did not contain valid UTF-8\n".toUTF8 else .empty
  /-- The lines ahead of the first one that is no text. -/
  answered : ∃ (texts : List String) (rest : List (List UInt8)),
    Prompt.lines input.data.toList = texts.map (fun line => line.toUTF8.data.toList) ++ rest ∧
    (∀ line ∈ rest.head?, ¬ line.toByteArray.IsValidUTF8) ∧
    o.stdout = (String.join (texts.map fun s => "> " ++ dump form s) ++ "> ").toUTF8 ∧
    o.stderr = (Diagnostic.lines (texts.flatMap errorsOf)).toUTF8 ++
      if o.code = 1 then "Error: stream did not contain valid UTF-8\n".toUTF8 else .empty

lemma AnswersPrompt.code_ne_two {form : Form} {input : ByteArray} {o : Outcome}
    (h : AnswersPrompt form input o) : o.code ≠ 2 := by
  intro two
  by_cases all : ∀ line ∈ Prompt.lines input.data.toList, line.toByteArray.IsValidUTF8
  · have := h.ended.mpr all
    omega
  · have := h.failed.mpr (by simpa using all)
    omega

theorem answersPrompt (form : Form) (input : ByteArray) :
    AnswersPrompt form input (ofPrompt form input) := by
  obtain ⟨texts, rest, lines, invalid⟩ := Prompt.exists_texts (Prompt.lines input.data.toList)
  have ran := Prompt.run_unlimited form texts invalid
  rw [← lines] at ran
  have valid : ∀ line ∈ texts.map (fun line => line.toUTF8.data.toList),
      line.toByteArray.IsValidUTF8 := by
    intro line mem
    obtain ⟨s, -, rfl⟩ := List.mem_map.mp mem
    have text := fromUTF8?_toUTF8 s
    by_contra none
    rw [fromUTF8?_eq_none_iff.mpr none] at text
    cases text
  have outcome : ofPrompt form input = ofRun 0 _ := congrArg (ofRun 0) ran
  rw [outcome]
  cases rest with
  | nil =>
    have all : ∀ line ∈ Prompt.lines input.data.toList, line.toByteArray.IsValidUTF8 := by
      rwa [lines, List.append_nil]
    refine ⟨iff_of_false nofun ?_, iff_of_true rfl all, ?_, texts, [], lines, nofun, rfl, ?_⟩
    · rintro ⟨line, mem, not⟩
      exact not (all line mem)
    · rw [ran]
      exact ⟨rfl, ByteArray.append_empty.symm⟩
    · exact ByteArray.append_empty.symm
  | cons line rest =>
    have mem : line ∈ Prompt.lines input.data.toList := by simp [lines]
    have not := invalid line rfl
    refine ⟨iff_of_true rfl ⟨line, mem, not⟩, iff_of_false nofun fun all => not (all line mem), ?_,
      texts, line :: rest, lines, invalid, rfl, rfl⟩
    rw [ran]
    exact ⟨rfl, rfl⟩

end Outcome

/-! ### Calls -/

namespace Outcome

variable {complaint : Stop → String} {s : Stop}

lemma code_ofStop_eq_two_iff : (ofStop complaint s).code = 2 ↔ s ≠ .help ∧ s ≠ .version := by
  cases s <;> simp [ofStop, Stop.exitCode, Stop.text?]

lemma ofStop_of_ne (help : s ≠ .help) (version : s ≠ .version) :
    ofStop complaint s = ⟨2, .empty, (complaint s).toUTF8⟩ := by
  cases s with
  | help => exact absurd rfl help
  | version => exact absurd rfl version
  | _ => rfl

end Outcome

namespace Invocation

variable {i : Invocation}

lemma run_of_stop {s : Stop} (h : CommandLine.parse i.arguments = .error s) :
    i.run = .ofStop i.host.complaint s := by
  rw [run, h]

lemma run_of_script {path : String} {form : Form}
    (h : CommandLine.parse i.arguments = .ok ⟨some path, form⟩) :
    i.run = .ofScript form path (i.host.read path) := by
  rw [run, h]

lemma run_of_prompt {form : Form} (h : CommandLine.parse i.arguments = .ok ⟨none, form⟩) :
    i.run = .ofPrompt form i.input := by
  rw [run, h]

end Invocation

/-- **Calls of the program**, on any host: the status is 2 if and only if the arguments cannot be
used, and then nothing is printed. Those that ask for help or the version get it. With a script the
status tells whether its file can be read as text and is free of lexical errors, and the outcome
depends on nothing but this file. Without one the status tells whether all lines of the input are
text, and the files do not matter. -/
theorem outcome_exact (i : Invocation) :
    (i.run.code = 2 ↔
      ∃ s, CommandLine.parse i.arguments = .error s ∧ s ≠ .help ∧ s ≠ .version) ∧
    (∀ s, CommandLine.parse i.arguments = .error s → s ≠ .help → s ≠ .version →
      i.run = ⟨2, .empty, (i.host.complaint s).toUTF8⟩) ∧
    (CommandLine.parse i.arguments = .error .help →
      i.run = ⟨0, CommandLine.helpText.toUTF8, .empty⟩) ∧
    (CommandLine.parse i.arguments = .error .version →
      i.run = ⟨0, CommandLine.versionText.toUTF8, .empty⟩) ∧
    (∀ path form, CommandLine.parse i.arguments = .ok ⟨some path, form⟩ →
      Outcome.AnswersScript form path (i.host.read path) i.run ∧
      ∀ j : Invocation, j.arguments = i.arguments →
        j.host.read path = i.host.read path → j.run = i.run) ∧
    ∀ form, CommandLine.parse i.arguments = .ok ⟨none, form⟩ →
      Outcome.AnswersPrompt form i.input i.run ∧
      ∀ j : Invocation, j.arguments = i.arguments → j.input = i.input → j.run = i.run := by
  have script {path form} (asked : CommandLine.parse i.arguments = .ok ⟨some path, form⟩) :
      Outcome.AnswersScript form path (i.host.read path) i.run :=
    i.run_of_script asked ▸ Outcome.answersScript form path _
  have prompt {form} (asked : CommandLine.parse i.arguments = .ok ⟨none, form⟩) :
      Outcome.AnswersPrompt form i.input i.run :=
    i.run_of_prompt asked ▸ Outcome.answersPrompt form i.input
  refine ⟨⟨fun two => ?_, ?_⟩, fun s asked help version => ?_, i.run_of_stop, i.run_of_stop,
    fun path form asked => ⟨script asked, fun j arguments same => ?_⟩,
    fun form asked => ⟨prompt asked, fun j arguments same => ?_⟩⟩
  · match asked : CommandLine.parse i.arguments with
    | .error s =>
      rw [i.run_of_stop asked] at two
      exact ⟨s, rfl, Outcome.code_ofStop_eq_two_iff.mp two⟩
    | .ok ⟨some path, form⟩ => exact absurd two (script asked).code_ne_two
    | .ok ⟨none, form⟩ => exact absurd two (prompt asked).code_ne_two
  · rintro ⟨s, asked, unusable⟩
    rw [i.run_of_stop asked]
    exact Outcome.code_ofStop_eq_two_iff.mpr unusable
  · rw [i.run_of_stop asked, Outcome.ofStop_of_ne help version]
  · rw [i.run_of_script asked, j.run_of_script (arguments ▸ asked), same]
  · rw [i.run_of_prompt asked, j.run_of_prompt (arguments ▸ asked), same]

/-- A script with a stray character, one that must not be read, and a session that ends at its
second line. -/
theorem outcome_of_stray_character :
    let i : Invocation := ⟨["/srv/a.lox"], .ofFiles [("/srv/a.lox", "@".toUTF8)], .empty⟩
    let j : Invocation :=
      ⟨["--json", "../a.lox"],
        ⟨fun _ => .error (.system 13 "Permission denied"), fun _ => "usage"⟩, .empty⟩
    let k : Invocation := ⟨[], .ofFiles [], ⟨#[64, 10, 255]⟩⟩
    (i.run.code = 65 ∧ i.run.stdout = "EOF  nil\n".toUTF8 ∧
      i.run.stderr = "[line 1] Error: Unexpected character: @\n".toUTF8) ∧
    (j.run.code = 1 ∧ j.run.stdout = .empty ∧
      j.run.stderr = ("Error: could not read ../a.lox\n\nCaused by:\n" ++
        "    Permission denied (os error 13)\n").toUTF8) ∧
    k.run.code = 1 := by
  intro i j k
  obtain ⟨-, -, -, -, scripts, -⟩ := outcome_exact i
  obtain ⟨-, -, -, -, scripts', -⟩ := outcome_exact j
  obtain ⟨-, -, -, -, -, prompts⟩ := outcome_exact k
  have asked : CommandLine.parse i.arguments = .ok ⟨some "/srv/a.lox", .plain⟩ := by
    decide +kernel
  have asked' : CommandLine.parse j.arguments = .ok ⟨some "../a.lox", .json⟩ := by decide +kernel
  have asked'' : CommandLine.parse k.arguments = .ok ⟨none, .plain⟩ := by decide +kernel
  obtain ⟨script, -⟩ := scripts _ _ asked
  obtain ⟨script', -⟩ := scripts' _ _ asked'
  obtain ⟨prompt, -⟩ := prompts _ asked''
  have contents : i.host.read "/srv/a.lox" = .ok "@".toUTF8 := rfl
  have errors : errorsOf "@" = [⟨.unexpectedCharacter '@', 1⟩] := by decide +kernel
  obtain ⟨out, err⟩ := script.scanned "@" contents
  have unreadable := script'.unreadable.mpr nofun
  obtain ⟨out', err'⟩ := script'.unscanned unreadable
  refine ⟨⟨script.erroneous.mpr ⟨"@", contents, by rw [errors]; decide⟩, out.trans ?_,
    err.trans ?_⟩, ⟨unreadable, out', err'.trans ?_⟩,
    prompt.failed.mpr ⟨[255], by decide +kernel, by decide +kernel⟩⟩
  · exact congrArg String.toUTF8 (by decide +kernel)
  · exact congrArg String.toUTF8 (by decide +kernel)
  · exact congrArg String.toUTF8 (by decide +kernel)

end LoxLexer
