import LoxLexer.Prompt
import LoxLexer.Proofs.Streams

/-!
A prompt session, action by action.

The lines of the input ask for `actions`, and an action can fail. A session performs them up to
the first that does, `run_after`. What the streams hold is what the actions that were performed
have for them, as far as there is room.
-/

namespace LoxLexer

namespace Prompt

/-! ### Lines -/

/-- A text is cut after each newline. The last line may lack it, but no line is empty. -/
inductive IsLines {α : Type} (newline : α) : List α → List (List α) → Prop where
  | nil : IsLines newline [] []
  | last {body : List α} (ne : body ≠ []) (plain : newline ∉ body) : IsLines newline body [body]
  | cons {body text : List α} {lines : List (List α)} (plain : newline ∉ body)
      (rest : IsLines newline text lines) :
      IsLines newline (body ++ newline :: text) ((body ++ [newline]) :: lines)

lemma IsLines.push {α : Type} [DecidableEq α] {newline : α} {text : List α} {ls : List (List α)}
    (h : IsLines newline text ls) (a : α) :
    IsLines newline (a :: text) (Prompt.cons newline a ls) := by
  unfold Prompt.cons
  split
  · next same =>
    subst same
    have plain : a ∉ ([] : List α) := List.not_mem_nil
    exact .cons plain h
  · next other =>
    cases h with
    | nil => exact .last (by simp) (by simpa using Ne.symm other)
    | last ne plain => exact .last (by simp) (by simp [Ne.symm other, plain])
    | @cons body _ _ plain rest =>
      have plain : newline ∉ a :: body := by simp [Ne.symm other, plain]
      exact .cons plain rest

/-- A line with other lines behind it has its newline. -/
lemma IsLines.cons_of_ne_nil {α : Type} {newline : α} {text line : List α} {ls : List (List α)}
    (h : IsLines newline text (line :: ls)) (ne : ls ≠ []) :
    ∃ body, newline ∉ body ∧ ∃ rest, line = body ++ [newline] ∧ IsLines newline rest ls := by
  cases h with
  | last => exact absurd rfl ne
  | cons plain rest => exact ⟨_, plain, _, rfl, rest⟩

theorem isLines_linesBy {α : Type} [DecidableEq α] (newline : α) (text : List α) :
    IsLines newline text (linesBy newline text) := by
  induction text with
  | nil => exact .nil
  | cons a text ih => exact ih.push a

/-! ### Actions -/

inductive Action where
  | ask
  | read (line : List UInt8)
  | scan (source : String)
  | print (source : String)
  | reset

/-- What is to be done with a line. One that is no text cannot be read. -/
def replies (line : List UInt8) : List Action :=
  .read line ::
    match String.fromUTF8? line.toByteArray with
    | none => []
    | some source => [.scan source, .print source, .reset]

/-- What is to be done for some lines and for the end of the input. -/
def actions (lines : List (List UInt8)) : List Action :=
  lines.flatMap (fun line => .ask :: replies line) ++ [.ask]

lemma actions_nil : actions [] = [.ask] := rfl

lemma actions_cons (line : List UInt8) (ls : List (List UInt8)) :
    actions (line :: ls) = .ask :: (replies line ++ actions ls) := by
  simp [actions]

/-- What an action has for the output. -/
@[simp] def Action.output (form : Form) : Action → String
  | ask => "> "
  | print source => dump form source
  | _ => ""

/-- What an action has for the diagnostics. -/
@[simp] def Action.diagnostics : Action → String
  | scan source => Diagnostic.lines (errorsOf source)
  | _ => ""

def outputOf (form : Form) (as : List Action) : String := String.join (as.map (·.output form))

def diagnosticsOf (as : List Action) : String := String.join (as.map Action.diagnostics)

@[simp] lemma outputOf_nil (form : Form) : outputOf form [] = "" := rfl

@[simp] lemma outputOf_cons (form : Form) (a : Action) (as : List Action) :
    outputOf form (a :: as) = a.output form ++ outputOf form as := by
  simp [outputOf]

@[simp] lemma outputOf_append (form : Form) (as bs : List Action) :
    outputOf form (as ++ bs) = outputOf form as ++ outputOf form bs := by
  simp [outputOf, String.join_append]

@[simp] lemma diagnosticsOf_nil : diagnosticsOf [] = "" := rfl

@[simp] lemma diagnosticsOf_cons (a : Action) (as : List Action) :
    diagnosticsOf (a :: as) = a.diagnostics ++ diagnosticsOf as := by
  simp [diagnosticsOf]

@[simp] lemma diagnosticsOf_append (as bs : List Action) :
    diagnosticsOf (as ++ bs) = diagnosticsOf as ++ diagnosticsOf bs := by
  simp [diagnosticsOf, String.join_append]

variable (form : Form) (limit : Option Nat) (onFull : Failure)

/-- How an action fails after some others that did not, if it does: a write when it crosses the
limit of the output, and reading a line when that is no text. -/
def Action.failure? (done : List Action) : Action → Option Failure
  | read line => if String.fromUTF8? line.toByteArray = none then some .invalidText else none
  | ask => if Crosses limit (outputOf form (done ++ [ask])) then some onFull else none
  | print source =>
    if Crosses limit (outputOf form (done ++ [print source])) then some onFull else none
  | scan _ => none
  | reset => none

/-- The actions up to the first that fails, and how it does. Some are done already. -/
def performed (done : List Action) : List Action → List Action × Option Failure
  | [] => (done, none)
  | a :: todo =>
    match a.failure? form limit onFull done with
    | some failure => (done ++ [a], some failure)
    | none => performed (done ++ [a]) todo

variable {form limit onFull}

lemma performed_of_fails {done : List Action} {a : Action} {failure : Failure}
    (h : a.failure? form limit onFull done = some failure) (todo : List Action) :
    performed form limit onFull done (a :: todo) = (done ++ [a], some failure) := by
  rw [performed, h]

lemma performed_of_succeeds {done : List Action} {a : Action}
    (h : a.failure? form limit onFull done = none) (todo : List Action) :
    performed form limit onFull done (a :: todo) =
      performed form limit onFull (done ++ [a]) todo := by
  rw [performed, h]

lemma failure?_ask {done : List Action} :
    Action.ask.failure? form limit onFull done =
      if Crosses limit (outputOf form done ++ "> ") then some onFull else none := by
  simp only [Action.failure?, outputOf_append, outputOf_cons, outputOf_nil, Action.output,
    String.append_empty]

lemma failure?_print {done : List Action} {source : String} :
    (Action.print source).failure? form limit onFull done =
      if Crosses limit (outputOf form done ++ dump form source) then some onFull else none := by
  simp only [Action.failure?, outputOf_append, outputOf_cons, outputOf_nil, Action.output,
    String.append_empty]

/-- No action fails if each of them, behind the ones before it, does not. -/
lemma performed_eq_none_iff {done todo : List Action} :
    (performed form limit onFull done todo).2 = none ↔
      ∀ before a, before ++ [a] <+: todo →
        a.failure? form limit onFull (done ++ before) = none := by
  induction todo generalizing done with
  | nil => simp [performed]
  | cons b todo ih =>
    cases h : b.failure? form limit onFull done with
    | some failure =>
      rw [performed_of_fails h]
      refine iff_of_false (by simp) fun all => ?_
      have := all [] b ⟨todo, rfl⟩
      simp [h] at this
    | none =>
      rw [performed_of_succeeds h, ih]
      refine ⟨fun all before a hp => ?_, fun all before a hp => ?_⟩
      · match before, hp with
        | [], hp =>
          obtain rfl : a = b := by simpa using hp
          simpa using h
        | c :: before, hp =>
          obtain ⟨rfl, rest⟩ : c = b ∧ before ++ [a] <+: todo := by simpa using hp
          simpa using all before a rest
      · have := all (b :: before) a (by simpa using hp)
        simpa using this

/-- On unlimited streams only reading fails. -/
lemma performed_unlimited {form : Form} {onFull : Failure} {done todo : List Action} :
    (performed form none onFull done todo).2 = none ↔
      ∀ line, .read line ∈ todo → String.fromUTF8? line.toByteArray ≠ none := by
  have room (text : String) : ¬ Crosses none text := by simp [Crosses]
  rw [performed_eq_none_iff]
  refine ⟨fun all line mem text => ?_, fun text before a hp => ?_⟩
  · obtain ⟨before, after, rfl⟩ := List.append_of_mem mem
    have := all before (.read line) ⟨after, by simp⟩
    simp [Action.failure?, text] at this
  · have mem : a ∈ todo := hp.subset (by simp)
    cases a with
    | read line => exact if_neg (text line mem)
    | ask => rw [failure?_ask, if_neg (room _)]
    | print source => rw [failure?_print, if_neg (room _)]
    | scan source => rfl
    | reset => rfl

lemma performed_append (done as bs : List Action) :
    performed form limit onFull done (as ++ bs) =
      if (performed form limit onFull done as).2 = none then
        performed form limit onFull (done ++ as) bs
      else performed form limit onFull done as := by
  induction as generalizing done with
  | nil => simp [performed]
  | cons a as ih =>
    rw [List.cons_append]
    cases ha : a.failure? form limit onFull done with
    | some failure => simp [performed_of_fails ha]
    | none => rw [performed_of_succeeds ha, performed_of_succeeds ha, ih, List.append_assoc,
        List.singleton_append]

lemma performed_of_eq_none {done todo : List Action}
    (h : (performed form limit onFull done todo).2 = none) :
    performed form limit onFull done todo = (done ++ todo, none) := by
  have all : performed form limit onFull done (todo ++ []) = _ := performed_append done todo []
  rwa [List.append_nil, if_pos h] at all

/-! ### Sessions -/

/-- The errors of a source are forgotten once its tokens have been printed. -/
@[simp] def Action.leavesErrors : Action → Bool
  | print source => !(errorsOf source).isEmpty
  | _ => false

lemma any_leavesErrors_iff (done : List Action) :
    done.getLast?.any Action.leavesErrors = true ↔
      ∃ before source, done = before ++ [.print source] ∧ errorsOf source ≠ [] := by
  constructor
  · intro h
    obtain ⟨a, last, errors⟩ := (Option.any_eq_true _ _).mp h
    obtain ⟨before, rfl⟩ := List.getLast?_eq_some_iff.mp last
    cases a with
    | print source => exact ⟨before, source, rfl, by simpa using errors⟩
    | _ => cases errors
  · rintro ⟨before, source, rfl, errors⟩
    simpa using errors

/-- What a session leaves behind the actions that it performed. -/
def resultOf (form : Form) (limit : Option Nat) (onFull : Failure) (limit' : Option Nat)
    (onFull' : Failure) (session : List Action × Option Failure) : Run :=
  ⟨.after limit onFull (outputOf form session.1),
    .after limit' onFull' (diagnosticsOf session.1) (session.1.getLast?.any Action.leavesErrors),
    session.2⟩

lemma not_crosses_of_succeeds {done : List Action} {a : Action}
    (h : a.failure? form limit onFull done = none) (fits : ¬ Crosses limit (outputOf form done)) :
    ¬ Crosses limit (outputOf form (done ++ [a])) := by
  cases a with
  | ask => simpa [Action.failure?] using h
  | print source => simpa [Action.failure?] using h
  | read line => simpa using fits
  | scan source => simpa using fits
  | reset => simpa using fits

lemma not_crosses_of_performed {done todo : List Action}
    (h : (performed form limit onFull done todo).2 = none)
    (fits : ¬ Crosses limit (outputOf form done)) :
    ¬ Crosses limit (outputOf form (done ++ todo)) := by
  induction todo generalizing done with
  | nil => simpa using fits
  | cons a todo ih =>
    cases ha : a.failure? form limit onFull done with
    | some failure => simp [performed_of_fails ha] at h
    | none =>
      rw [performed_of_succeeds ha] at h
      simpa using ih h (not_crosses_of_succeeds ha fits)

lemma ask_after {done : List Action} (fits : ¬ Crosses limit (outputOf form done)) :
    ask (.after limit onFull (outputOf form done)) =
      (.after limit onFull (outputOf form (done ++ [.ask])),
        Action.ask.failure? form limit onFull done) := by
  rw [ask, Sink.write_after_of_not_crosses onFull fits, failure?_ask, outputOf_append,
    outputOf_cons, outputOf_nil, Action.output, String.append_empty]

lemma answer_after (line : List UInt8) {done : List Action}
    (fits : ¬ Crosses limit (outputOf form done)) (limit' : Option Nat) (onFull' : Failure) :
    answer form line (.after limit onFull (outputOf form done))
        (.after limit' onFull' (diagnosticsOf done) false) =
      resultOf form limit onFull limit' onFull'
        (performed form limit onFull done (replies line)) := by
  unfold answer replies
  cases text : String.fromUTF8? line.toByteArray with
  | none =>
    have fails : (Action.read line).failure? form limit onFull done = some .invalidText :=
      if_pos text
    rw [performed_of_fails fails]
    simp [resultOf]
  | some source =>
    have reads : (Action.read line).failure? form limit onFull done = none :=
      if_neg (by simp [text])
    have scans : (Action.scan source).failure? form limit onFull (done ++ [.read line]) = none :=
      rfl
    have same : outputOf form (done ++ [.read line] ++ [.scan source]) = outputOf form done := by
      simp
    have reported : diagnosticsOf (done ++ [.read line] ++ [.scan source]) =
        diagnosticsOf done ++ Diagnostic.lines (errorsOf source) := by
      simp
    have prints : (Action.print source).failure? form limit onFull
        (done ++ [.read line] ++ [.scan source]) =
          if Crosses limit (outputOf form done ++ dump form source) then some onFull else none := by
      rw [failure?_print, same]
    rw [performed_of_succeeds reads, performed_of_succeeds scans]
    simp only [ofSource_after form source onFull fits]
    by_cases long : Crosses limit (outputOf form done ++ dump form source)
    · rw [if_pos long] at prints
      rw [performed_of_fails prints, resultOf, outputOf_append, same, diagnosticsOf_append,
        reported]
      simp [long]
    · rw [if_neg long] at prints
      have resets : Action.reset.failure? form limit onFull
          (done ++ [.read line] ++ [.scan source] ++ [.print source]) = none := rfl
      rw [performed_of_succeeds prints, performed_of_succeeds resets]
      simp [performed, resultOf, long, DiagnosticStream.reset_after]

lemma leavesErrors_replies (done : List Action) (line : List UInt8) :
    (done ++ replies line).getLast?.any Action.leavesErrors = false := by
  unfold replies
  cases String.fromUTF8? line.toByteArray <;> simp

lemma run_of_ask_fails {done : List Action} (fits : ¬ Crosses limit (outputOf form done))
    {failure : Failure} (asks : Action.ask.failure? form limit onFull done = some failure)
    (ls : List (List UInt8)) (limit' : Option Nat) (onFull' : Failure) :
    run form ls (.after limit onFull (outputOf form done))
        (.after limit' onFull' (diagnosticsOf done) false) =
      resultOf form limit onFull limit' onFull' (done ++ [.ask], some failure) := by
  rw [run, ask_after fits, asks]
  simp [resultOf]

theorem run_after (ls : List (List UInt8)) {done : List Action}
    (fits : ¬ Crosses limit (outputOf form done)) (limit' : Option Nat) (onFull' : Failure) :
    run form ls (.after limit onFull (outputOf form done))
        (.after limit' onFull' (diagnosticsOf done) false) =
      resultOf form limit onFull limit' onFull'
        (performed form limit onFull done (actions ls)) := by
  induction ls generalizing done with
  | nil =>
    rw [actions_nil]
    cases asks : Action.ask.failure? form limit onFull done with
    | some failure => rw [performed_of_fails asks, run_of_ask_fails fits asks]
    | none =>
      rw [performed_of_succeeds asks, run, ask_after fits, asks]
      simp [performed, resultOf]
  | cons line ls ih =>
    rw [actions_cons]
    cases asks : Action.ask.failure? form limit onFull done with
    | some failure => rw [performed_of_fails asks, run_of_ask_fails fits asks]
    | none =>
      have same : diagnosticsOf (done ++ [.ask]) = diagnosticsOf done := by simp
      rw [performed_of_succeeds asks, run, ask_after fits, asks, ← same]
      have fits := not_crosses_of_succeeds asks fits
      simp only [answer_after line fits limit' onFull']
      rw [performed_append]
      by_cases replied : (performed form limit onFull (done ++ [.ask]) (replies line)).2 = none
      · rw [if_pos replied, ← ih (not_crosses_of_performed replied fits)]
        simp only [resultOf, performed_of_eq_none replied, leavesErrors_replies, if_true]
      · rw [if_neg replied]
        exact if_neg replied

/-- **Prompt sessions**: a session asks for and answers line by line up to the first action that
fails. The output and the diagnostics are what the actions performed have for them, as far as
there is room, and only the output's room matters for what is performed. Errors are left counted
only by a source whose tokens could not be printed. -/
theorem session_exact (form : Form) (input : List UInt8) (limit : Option Nat) (onFull : Failure)
    (limit' : Option Nat) (onFull' : Failure) :
    let session := performed form limit onFull [] (actions (lines input))
    let result := run form (lines input) ⟨limit, onFull, .empty⟩ (.ofSink ⟨limit', onFull', .empty⟩)
    IsLines newline input (lines input) ∧
    result.out.written = firstBytes limit (outputOf form session.1) ∧
    result.diagnostics.sink.written = firstBytes limit' (diagnosticsOf session.1) ∧
    result.failure = session.2 ∧
    (result.failure = none ↔ ∀ before a, before ++ [a] <+: actions (lines input) →
      a.failure? form limit onFull before = none) ∧
    (result.failure = none → session.1 = actions (lines input)) ∧
    (result.diagnostics.hadError = true ↔
      ∃ before source, session.1 = before ++ [.print source] ∧ errorsOf source ≠ []) := by
  intro session result
  have fits : ¬ Crosses limit (outputOf form []) := by simp [Crosses]
  have exact : result = resultOf form limit onFull limit' onFull' session := by
    rw [← run_after (lines input) fits]
    simp [result, Sink.after_empty, DiagnosticStream.after, DiagnosticStream.ofSink]
  rw [exact]
  refine ⟨isLines_linesBy newline input, rfl, rfl, rfl, ?_, fun h => ?_, ?_⟩
  · exact performed_eq_none_iff.trans (by simp only [List.nil_append])
  · exact congrArg Prod.fst (performed_of_eq_none h)
  · exact any_leavesErrors_iff session.1

/-- Two lines, the first with a string that is left open; and a line for which there is neither room
for its tokens nor for all bytes of its stray character. -/
theorem session_exact_of_open_string :
    let input := "\"open\nx\n".toUTF8.data.toList
    let r := run .plain (lines input) ⟨none, .diskFull, .empty⟩ (.ofSink ⟨none, .diskFull, .empty⟩)
    let input' := "é\n".toUTF8.data.toList
    let r' := run .json (lines input') ⟨some 33, .diskFull, .empty⟩
      (.ofSink ⟨some 39, .shortWrite, .empty⟩)
    (r.out.written = "> EOF  nil\n> IDENTIFIER x nil\nEOF  nil\n> ".toUTF8 ∧
      r.diagnostics.sink.written = "[line 2] Error: Unterminated string.\n".toUTF8 ∧
      r.failure = none ∧ r.diagnostics.hadError = false) ∧
    r'.out.written = "> [\n  \x7b\n    \"kind\": \"EndOfFile\",\n".toUTF8 ∧
      r'.diagnostics.sink.written = "[line 1] Error: Unexpected character: ".toUTF8.push 0xC3 ∧
      r'.failure = some .diskFull ∧ r'.diagnostics.hadError = true := by
  intro input r input' r'
  obtain ⟨-, out, err, failure, -, -, flag⟩ :=
    session_exact .plain input none .diskFull none .diskFull
  obtain ⟨-, out', err', failure', -, -, flag'⟩ :=
    session_exact .json input' (some 33) .diskFull (some 39) .shortWrite
  rw [← any_leavesErrors_iff] at flag flag'
  refine ⟨⟨out.trans ?_, err.trans ?_, failure.trans ?_, Bool.eq_false_iff.mpr (flag.not.mpr ?_)⟩,
    out'.trans ?_, err'.trans ?_, failure'.trans ?_, flag'.mpr ?_⟩
  all_goals decide +kernel

end Prompt

end LoxLexer
