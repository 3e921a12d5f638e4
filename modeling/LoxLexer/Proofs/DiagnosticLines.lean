import LoxLexer.Proofs.LineByLine
import LoxLexer.Proofs.Reporters

/-!
The errors of a source can be told from its diagnostics.

Of all characters that are shown for a diagnostic only the reported one could be a newline, and a
newline is never reported, `newline_not_mem_display`. So each error has a line of its own, and
from the line it can be told, `display_inj`.
-/

namespace LoxLexer

/-! ### What can be reported -/

/-- A character that is reported begins no lexeme, and is no blank. -/
theorem proper_stray_of_mem_errorsOf {source : String} {d : Diagnostic} {c : Char}
    (hd : d ∈ errorsOf source) (hc : d.fault = .unexpectedCharacter c) :
    (Piece.stray c).Proper := by
  rw [errorsOf_eq, itemsOf_eq] at hd
  obtain ⟨i, hi, error⟩ := List.mem_filterMap.mp hd
  obtain ⟨p, hp, line, item⟩ := Piece.exists_of_mem_itemsFrom hi
  have proper := (cuts_piecesOf source).proper_of_mem hp
  cases p with
  | stray b =>
    cases item
    cases error
    cases hc
    exact proper
  | openString body =>
    cases item
    cases error
    cases hc
  | blank | comment => cases item
  | mark | word | number | string =>
    cases item
    cases error

/-- The diagnostic does not report a newline. -/
def Diagnostic.OnOneLine (d : Diagnostic) : Prop := d.fault ≠ .unexpectedCharacter '\n'

lemma onOneLine_of_mem_errorsOf {source : String} {d : Diagnostic} (hd : d ∈ errorsOf source) :
    d.OnOneLine := fun newline =>
  (proper_stray_of_mem_errorsOf hd newline).1 (by decide)

/-! ### Displays -/

lemma Fault.message_ne (c : Char) :
    unterminatedString.message ≠ (unexpectedCharacter c).message := fun same => by
  have chars : "Unterminated string.".toList =
      ("Unexpected character: " ++ String.singleton c).toList := congrArg String.toList same
  simp at chars

lemma Fault.message_inj {f g : Fault} : f.message = g.message ↔ f = g := by
  refine ⟨fun same => ?_, congrArg message⟩
  cases f with
  | unterminatedString =>
    cases g with
    | unterminatedString => rfl
    | unexpectedCharacter c => exact absurd same (message_ne c)
  | unexpectedCharacter b =>
    cases g with
    | unterminatedString => exact absurd same.symm (message_ne b)
    | unexpectedCharacter c =>
      have chars : "Unexpected character: " ++ String.singleton b =
        "Unexpected character: " ++ String.singleton c := same
      simpa using chars

namespace Diagnostic

lemma toList_display (d : Diagnostic) :
    d.display.toList = "[line ".toList ++ (Nat.toDigits 10 d.line ++
      ']' :: (" Error: ".toList ++ d.message.toList)) := by
  simp [display]

lemma not_mem_toDigits {c : Char} (h : ¬ c.isDigit) (n : Nat) : c ∉ Nat.toDigits 10 n := fun mem =>
  h (Nat.isDigit_of_mem_toDigits (by decide) (by decide) mem)

/-- The digits of the line end at the bracket. -/
theorem display_inj {d e : Diagnostic} : d.display = e.display ↔ d = e := by
  refine ⟨fun same => ?_, congrArg display⟩
  have bracket : ¬ (']').isDigit := by decide
  have chars := congrArg String.toList same
  rw [toList_display, toList_display] at chars
  obtain ⟨digits, rest⟩ := Piece.append_cons_inj_of_not_mem (not_mem_toDigits bracket d.line)
    (not_mem_toDigits bracket e.line) (List.append_cancel_left chars)
  have line : d.line = e.line := by
    have number := congrArg (fun ds => Nat.ofDigitChars 10 ds 0) digits
    simpa only [Nat.ofDigitChars_ten_toDigits] using number
  have message : d.message = e.message := String.toList_inj.mp (List.append_cancel_left rest)
  have fault : d.fault = e.fault := Fault.message_inj.mp message
  cases d
  cases e
  congr

lemma newline_not_mem_display {d : Diagnostic} (h : d.OnOneLine) : '\n' ∉ d.display.toList := by
  have digits : '\n' ∉ Nat.toDigits 10 d.line := not_mem_toDigits (by decide) d.line
  have message : '\n' ∉ d.message.toList := by
    rcases d with ⟨- | c, line⟩
    · have plain : '\n' ∉ "Unterminated string.".toList := by decide
      exact plain
    · have other : '\n' ≠ c := fun same => h (congrArg Fault.unexpectedCharacter same.symm)
      have plain : '\n' ∉ ("Unexpected character: " ++ String.singleton c).toList := by simp [other]
      exact plain
  rw [toList_display]
  simp [digits, message]

/-! ### Lines -/

lemma toList_lines_cons (d : Diagnostic) (ds : List Diagnostic) :
    (lines (d :: ds)).toList = d.display.toList ++ '\n' :: (lines ds).toList := by
  simp [lines_cons]

theorem lines_inj {ds es : List Diagnostic} (hds : ∀ d ∈ ds, d.OnOneLine)
    (hes : ∀ e ∈ es, e.OnOneLine) (eq : (lines ds).toList = (lines es).toList) : ds = es := by
  induction ds generalizing es with
  | nil =>
    cases es with
    | nil => rfl
    | cons e es => simp [lines] at eq
  | cons d ds ih =>
    cases es with
    | nil => simp [lines] at eq
    | cons e es =>
      rw [toList_lines_cons, toList_lines_cons] at eq
      obtain ⟨first, rest⟩ := Piece.append_cons_inj_of_not_mem
        (newline_not_mem_display (hds d (by simp))) (newline_not_mem_display (hes e (by simp))) eq
      rw [display_inj.mp (String.toList_inj.mp first),
        ih (fun d hd => hds d (by simp [hd])) (fun e he => hes e (by simp [he])) rest]

/-! ### Bytes -/

lemma toUTF8_lines_cons (d : Diagnostic) (ds : List Diagnostic) :
    (lines (d :: ds)).toUTF8.data.toList =
      d.display.toUTF8.data.toList ++ Prompt.newline :: (lines ds).toUTF8.data.toList := by
  have newline : String.utf8EncodeChar '\n' = [Prompt.newline] := rfl
  simp only [toList_toUTF8, toList_lines_cons, List.flatMap_append, List.flatMap_cons, newline,
    List.singleton_append]

lemma newline_not_mem_toUTF8 {d : Diagnostic} (h : d.OnOneLine) :
    Prompt.newline ∉ d.display.toUTF8.data.toList := by
  rw [toList_toUTF8]
  intro mem
  obtain ⟨c, hc, byte⟩ := List.mem_flatMap.mp mem
  exact newline_not_mem_display h (eq_newline_of_mem_encoding byte ▸ hc)

theorem isLines_lines {ds : List Diagnostic} (hds : ∀ d ∈ ds, d.OnOneLine) :
    Prompt.IsLines Prompt.newline (lines ds).toUTF8.data.toList
      (ds.map fun d => d.display.toUTF8.data.toList ++ [Prompt.newline]) := by
  induction ds with
  | nil => exact .nil
  | cons d ds ih =>
    rw [toUTF8_lines_cons]
    exact .cons (newline_not_mem_toUTF8 (hds d (by simp))) (ih fun e he => hds e (by simp [he]))

lemma count_newline_lines {ds : List Diagnostic} (hds : ∀ d ∈ ds, d.OnOneLine) :
    (lines ds).toUTF8.data.toList.count Prompt.newline = ds.length := by
  induction ds with
  | nil => rfl
  | cons d ds ih =>
    have plain := List.count_eq_zero.mpr (newline_not_mem_toUTF8 (hds d (by simp)))
    rw [toUTF8_lines_cons, List.count_append, List.count_cons_self, plain, Nat.zero_add,
      ih fun e he => hds e (by simp [he]), List.length_cons]

end Diagnostic

/-- The bytes of a stream without a limit to which the errors of a source were reported. -/
def diagnosticBytes (source : String) : List UInt8 :=
  (scan source (DiagnosticStream.ofSink .unlimited)).reporter.sink.written.data.toList

lemma diagnosticBytes_eq (source : String) :
    diagnosticBytes source = (Diagnostic.lines (errorsOf source)).toUTF8.data.toList :=
  congrArg (fun bytes => bytes.data.toList) (written_scan_unlimited source)

/-- **Diagnostics**: a stream without a limit has a line for each error of a source, in their order
and with what is shown for it, since no newline is ever reported. From its bytes the errors can be
told. -/
theorem diagnostics_decode :
    (∀ source,
      (diagnosticBytes source).count Prompt.newline = (errorsOf source).length ∧
      Prompt.IsLines Prompt.newline (diagnosticBytes source)
        ((errorsOf source).map fun d => d.display.toUTF8.data.toList ++ [Prompt.newline]) ∧
      ∀ d ∈ errorsOf source, d.fault ≠ .unexpectedCharacter '\n') ∧
    ∀ a b, diagnosticBytes a = diagnosticBytes b ↔ errorsOf a = errorsOf b := by
  have plain (source : String) : ∀ d ∈ errorsOf source, d.OnOneLine :=
    fun d => onOneLine_of_mem_errorsOf
  refine ⟨fun source => ?_, fun a b => ?_⟩
  · rw [diagnosticBytes_eq]
    exact ⟨Diagnostic.count_newline_lines (plain source), Diagnostic.isLines_lines (plain source),
      plain source⟩
  · rw [diagnosticBytes_eq, diagnosticBytes_eq]
    refine ⟨fun same => ?_, fun same => by rw [same]⟩
    have lines := String.toByteArray_inj.mp (ByteArray.ext (Array.toList_inj.mp same))
    exact Diagnostic.lines_inj (plain a) (plain b) (congrArg String.toList lines)

end LoxLexer
