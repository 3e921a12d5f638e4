import LoxLexer.Dump
import LoxLexer.Proofs.Reading

/-!
Streams with a limit.

Whatever is written to a sink and in how many parts, it holds the first bytes of all of it,
`write_eq`. So does a stream of diagnostics, which goes on after a failed write. A run writes
the diagnostics of its source to the one and its dump to the other, `ofSource_after`.
-/

namespace LoxLexer

/-- The bytes of a text up to the limit, if there is one. -/
def firstBytes (limit : Option Nat) (text : String) : ByteArray :=
  limit.elim text.toUTF8 (text.toUTF8.extract 0)

/-- The text has more bytes than the limit admits. -/
def Crosses (limit : Option Nat) (text : String) : Prop := ∃ n ∈ limit, n < text.toUTF8.size

instance (limit : Option Nat) (text : String) : Decidable (Crosses limit text) :=
  match limit with
  | none => isFalse (by simp [Crosses])
  | some n => decidable_of_iff (n < text.toUTF8.size) (by simp [Crosses])

lemma size_toUTF8_append (s t : String) : (s ++ t).toUTF8.size = s.toUTF8.size + t.toUTF8.size := by
  simp

lemma firstBytes_empty (limit : Option Nat) : firstBytes limit "" = .empty := by
  cases limit <;> simp [firstBytes]

lemma firstBytes_append (limit : Option Nat) (s t : String) :
    firstBytes limit (s ++ t) =
      firstBytes limit s ++ firstBytes (limit.map (· - s.toUTF8.size)) t := by
  cases limit <;> simp [firstBytes, ByteArray.extract_append]

lemma firstBytes_of_not_crosses {limit : Option Nat} {text : String} (fits : ¬ Crosses limit text) :
    firstBytes limit text = text.toUTF8 := by
  cases limit with
  | none => rfl
  | some n =>
    have le : text.toUTF8.size ≤ n := by simpa [Crosses] using fits
    have := ByteArray.extract_zero_max_size (a := text.toUTF8) (i := n)
    rwa [Nat.max_eq_left le] at this

namespace Sink

/-- The sink when a text has been written to it, as far as there was room. -/
def taking (s : Sink) (text : String) : Sink :=
  { s with written := s.written ++ firstBytes s.room text }

lemma room_taking (s : Sink) (text : String) :
    (s.taking text).room = s.room.map (· - text.toUTF8.size) := by
  cases h : s.limit with
  | none => simp [room, taking, h]
  | some n =>
    simp only [room, taking, h, Option.map_some, firstBytes, Option.elim_some,
      ByteArray.size_append, ByteArray.size_extract, Nat.sub_zero]
    congr 1
    omega

lemma taking_empty (s : Sink) : s.taking "" = s := by
  rw [taking, firstBytes_empty, ByteArray.append_empty]

lemma taking_taking (s : Sink) (t u : String) : (s.taking t).taking u = s.taking (t ++ u) := by
  have room : (s.taking t).room = _ := s.room_taking t
  rw [taking, room, taking, taking, firstBytes_append, ByteArray.append_assoc]

/-- A write fails if there is no room for all of the text; in any case the first bytes are there. -/
theorem write_eq (s : Sink) (text : String) :
    s.write text = (s.taking text, if Crosses s.room text then some s.onFull else none) := by
  rw [write, writeBytes, taking]
  by_cases long : Crosses s.room text
  · obtain ⟨n, room, lt⟩ := long
    have room : s.room = some n := room
    have crosses : Crosses (some n) text := ⟨n, rfl, lt⟩
    rw [room]
    dsimp only
    rw [if_neg (by omega), if_pos crosses]
    rfl
  · rw [if_neg long, firstBytes_of_not_crosses long]
    cases room : s.room with
    | none => rfl
    | some n =>
      have le : text.toUTF8.size ≤ n := by simpa [Crosses, room] using long
      dsimp only
      rw [if_pos le]
      rfl

/-- Behind a text there is no room for another one if there is none for both. The empty text
always has room, also when the first one had none. -/
lemma crosses_room_taking {s : Sink} {t u : String} (h : ¬ Crosses s.room t ∨ u ≠ "") :
    Crosses (s.taking t).room u ↔ Crosses s.room (t ++ u) := by
  have pos (ne : u ≠ "") : 0 < u.toUTF8.size := by
    rw [String.toUTF8_eq_toByteArray, String.size_toByteArray]
    exact Nat.pos_of_ne_zero fun h => ne (String.utf8ByteSize_eq_zero_iff.mp h)
  have size := size_toUTF8_append t u
  rw [room_taking]
  cases room : s.room with
  | none => simp [Crosses]
  | some n =>
    rw [room] at h
    simp only [Crosses, Option.map_some, Option.mem_some_iff, exists_eq_left'] at h ⊢
    rcases h with fits | ne
    · omega
    · have := pos ne
      omega

lemma room_empty (limit : Option Nat) (onFull : Failure) :
    (⟨limit, onFull, .empty⟩ : Sink).room = limit := by
  cases limit <;> simp [room]

/-- A sink to which a text has been written. -/
def after (limit : Option Nat) (onFull : Failure) (text : String) : Sink :=
  ⟨limit, onFull, firstBytes limit text⟩

lemma after_eq (limit : Option Nat) (onFull : Failure) (text : String) :
    after limit onFull text = taking ⟨limit, onFull, .empty⟩ text := by
  rw [taking, room_empty, ByteArray.empty_append, after]

lemma after_empty (limit : Option Nat) (onFull : Failure) :
    after limit onFull "" = ⟨limit, onFull, .empty⟩ := by
  rw [after_eq, taking_empty]

lemma taking_after (limit : Option Nat) (onFull : Failure) (s t : String) :
    (after limit onFull s).taking t = after limit onFull (s ++ t) := by
  rw [after_eq, after_eq, taking_taking]

lemma crosses_room_after {limit : Option Nat} (onFull : Failure) {s t : String}
    (h : ¬ Crosses limit s ∨ t ≠ "") :
    Crosses (after limit onFull s).room t ↔ Crosses limit (s ++ t) := by
  have fresh := room_empty limit onFull
  rw [after_eq, crosses_room_taking (by rwa [fresh]), fresh]

/-- As long as no write has failed, the next one fails if all the text crosses the limit. -/
lemma write_after_of_not_crosses {limit : Option Nat} (onFull : Failure) {s : String}
    (fits : ¬ Crosses limit s) (t : String) :
    (after limit onFull s).write t =
      (after limit onFull (s ++ t), if Crosses limit (s ++ t) then some onFull else none) := by
  rw [write_eq, taking_after]
  simp only [crosses_room_after onFull (Or.inl fits)]
  rfl

end Sink

/-! ### Diagnostics -/

/-- The lines that a stream writes for some diagnostics. -/
def Diagnostic.lines (ds : List Diagnostic) : String :=
  String.join (ds.map fun d => d.display ++ "\n")

lemma Diagnostic.lines_cons (d : Diagnostic) (ds : List Diagnostic) :
    lines (d :: ds) = d.display ++ "\n" ++ lines ds := by
  simp [lines]

lemma Diagnostic.lines_append (ds es : List Diagnostic) :
    lines (ds ++ es) = lines ds ++ lines es := by
  simp [lines, String.join_append]

lemma Diagnostic.lines_singleton (d : Diagnostic) : lines [d] = d.display ++ "\n" := by
  simp [lines]

namespace DiagnosticStream

/-- A report counts in any case. It fails if there is no room for its line. -/
lemma report_eq (s : DiagnosticStream) (d : Diagnostic) :
    report s d =
      (⟨s.sink.taking (d.display ++ "\n"), true⟩,
        if Crosses s.sink.room (d.display ++ "\n") then [.unwritten d.line s.sink.onFull]
        else []) := by
  simp only [report, Sink.write_eq]
  split <;> rfl

/-- The stream when some diagnostics have been reported to it. -/
def taking (s : DiagnosticStream) (ds : List Diagnostic) : DiagnosticStream :=
  ⟨s.sink.taking (Diagnostic.lines ds), s.hadError || !ds.isEmpty⟩

/-- Reports go on when there is no room left, and each of them counts. -/
theorem foldl_report (s : DiagnosticStream) (ds : List Diagnostic) :
    ds.foldl (fun s d => (report s d).1) s = s.taking ds := by
  induction ds generalizing s with
  | nil =>
    have same : s.sink.taking (Diagnostic.lines []) = s.sink := s.sink.taking_empty
    rw [taking, same]
    simp
  | cons d ds ih =>
    rw [List.foldl_cons, ih, report_eq, taking, taking, Sink.taking_taking, Diagnostic.lines_cons]
    simp

/-- So the line of a diagnostic has no room if all that was reported has none. -/
lemma crosses_room_foldl_report (s : DiagnosticStream) (ds : List Diagnostic) (d : Diagnostic) :
    Crosses (ds.foldl (fun s d => (report s d).1) s).sink.room (d.display ++ "\n") ↔
      Crosses s.sink.room (Diagnostic.lines (ds ++ [d])) := by
  have ne : d.display ++ "\n" ≠ "" := by simp
  rw [foldl_report, taking, Sink.crosses_room_taking (Or.inr ne), Diagnostic.lines_append,
    Diagnostic.lines_singleton]

/-- A stream to which a text has been written. -/
def after (limit : Option Nat) (onFull : Failure) (text : String) (hadError : Bool) :
    DiagnosticStream :=
  ⟨.after limit onFull text, hadError⟩

lemma reset_after (limit : Option Nat) (onFull : Failure) (text : String) (hadError : Bool) :
    (after limit onFull text hadError).reset = after limit onFull text false := rfl

lemma foldl_report_after (limit : Option Nat) (onFull : Failure) (text : String)
    (hadError : Bool) (ds : List Diagnostic) :
    ds.foldl (fun s d => (report s d).1) (after limit onFull text hadError) =
      after limit onFull (text ++ Diagnostic.lines ds) (hadError || !ds.isEmpty) := by
  rw [foldl_report, taking, after, Sink.taking_after, after]

end DiagnosticStream

/-! ### Runs -/

/-- The tokens of a source as they are to be printed: each on a line, or all of them as one JSON
array with a newline behind it. -/
def dump (form : Form) (source : String) : String :=
  let tokens := (scan source (#[] : Array Diagnostic)).tokens.toList
  match form with
  | .plain => String.join (tokens.map fun t => t.display ++ "\n")
  | .json => (Json.array (tokens.map Token.toJson)).render .pretty ++ "\n"

lemma join_texts (form : Form) (source : String) :
    String.join (form.texts (scan source (#[] : Array Diagnostic)).tokens) = dump form source := by
  cases form with
  | plain => rfl
  | json => simp [dump, Form.texts]

/-- The tokens do not hang on who is told about the errors. -/
lemma tokens_scan_eq {ρ σ : Type} [Reporter ρ] [Reporter σ] (source : String) (r : ρ) (s : σ) :
    (scan source r).tokens = (scan source s).tokens := by
  rw [← Array.toList_inj, tokens_scan, tokens_scan]

theorem ofSource_after (form : Form) (source : String) {limit : Option Nat} (onFull : Failure)
    {text : String} (fits : ¬ Crosses limit text) (limit' : Option Nat) (onFull' : Failure)
    (text' : String) (hadError : Bool) :
    Run.ofSource form source (.after limit onFull text)
        (.after limit' onFull' text' hadError) =
      ⟨.after limit onFull (text ++ dump form source),
        .after limit' onFull' (text' ++ Diagnostic.lines (errorsOf source))
          (hadError || !(errorsOf source).isEmpty),
        if Crosses limit (text ++ dump form source) then some onFull else none⟩ := by
  have reported : (scan source (DiagnosticStream.after limit' onFull' text' hadError)).reporter =
      .after limit' onFull' (text' ++ Diagnostic.lines (errorsOf source))
        (hadError || !(errorsOf source).isEmpty) := by
    rw [reporter_scan, ← errorsOf_eq, DiagnosticStream.foldl_report_after]
  have printed := Sink.write_after_of_not_crosses onFull fits (dump form source)
  rw [← join_texts, ← Sink.writeAll_eq, join_texts] at printed
  rw [Run.ofSource, reported, tokens_scan_eq source _ (#[] : Array Diagnostic), printed]

/-- A run on streams to which nothing has been written. -/
theorem ofSource_fresh (form : Form) (source : String) (limit : Option Nat) (onFull : Failure)
    (limit' : Option Nat) (onFull' : Failure) :
    Run.ofSource form source ⟨limit, onFull, .empty⟩ (.ofSink ⟨limit', onFull', .empty⟩) =
      ⟨.after limit onFull (dump form source),
        .after limit' onFull' (Diagnostic.lines (errorsOf source)) (!(errorsOf source).isEmpty),
        if Crosses limit (dump form source) then some onFull else none⟩ := by
  have fits : ¬ Crosses limit "" := by simp [Crosses]
  have ran := ofSource_after form source onFull fits limit' onFull' "" false
  rw [Sink.after_empty, DiagnosticStream.after, Sink.after_empty] at ran
  rw [DiagnosticStream.ofSink, ran]
  simp

theorem ofSource_unlimited (form : Form) (source : String) :
    Run.ofSource form source .unlimited (.ofSink .unlimited) =
      ⟨.after none .diskFull (dump form source),
        .after none .diskFull (Diagnostic.lines (errorsOf source)) (!(errorsOf source).isEmpty),
        none⟩ := by
  rw [Sink.unlimited, ofSource_fresh]
  simp [Crosses]

/-- What a run prints for a source when nothing limits it. -/
def output (form : Form) (source : String) : ByteArray :=
  (Run.ofSource form source .unlimited (.ofSink .unlimited)).out.written

lemma output_eq (form : Form) (source : String) :
    output form source = (dump form source).toUTF8 := by
  rw [output, ofSource_unlimited]
  rfl

lemma output_eq_iff (form : Form) (a b : String) :
    output form a = output form b ↔ dump form a = dump form b := by
  rw [output_eq, output_eq, String.toUTF8_eq_toByteArray, String.toUTF8_eq_toByteArray,
    String.toByteArray_inj]

/-- **Runs**: a run writes the first bytes of its source's diagnostics, whatever becomes of the
tokens, and the first bytes of the printed tokens. It fails if these cross the limit. Only lexical
errors decide on the exit status. Nor does it matter in what parts the tokens are printed. -/
theorem run_exact (form : Form) (source : String) (limit : Option Nat) (onFull : Failure)
    (limit' : Option Nat) (onFull' : Failure) :
    let tokens := (scan source (#[] : Array Diagnostic)).tokens.toList
    let whole := match form with
      | .plain => String.join (tokens.map fun t => t.display ++ "\n")
      | .json => (Json.array (tokens.map Token.toJson)).render .pretty ++ "\n"
    let r := Run.ofSource form source ⟨limit, onFull, .empty⟩ (.ofSink ⟨limit', onFull', .empty⟩)
    r.diagnostics.sink.written = firstBytes limit' (Diagnostic.lines (errorsOf source)) ∧
    r.out.written = firstBytes limit whole ∧
    r.failure = (if Crosses limit whole then some onFull else none) ∧
    Run.exitCode r.diagnostics = (if errorsOf source = [] then 0 else 65) ∧
    ∀ parts, String.join parts = whole →
      Sink.writeAll ⟨limit, onFull, .empty⟩ parts = (r.out, r.failure) := by
  intro tokens whole r
  have printed : dump form source = whole := by cases form <;> rfl
  have ran : r = _ := ofSource_fresh form source limit onFull limit' onFull'
  rw [printed] at ran
  rw [ran]
  refine ⟨rfl, rfl, rfl, ?_, fun parts join => ?_⟩
  · cases errorsOf source <;> simp [Run.exitCode, Run.dataError, DiagnosticStream.after]
  · have fits : ¬ Crosses limit "" := by simp [Crosses]
    rw [Sink.writeAll_eq, join, ← Sink.after_empty, Sink.write_after_of_not_crosses onFull fits,
      String.empty_append]

end LoxLexer
