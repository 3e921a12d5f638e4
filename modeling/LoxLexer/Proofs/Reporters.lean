import LoxLexer.Proofs.Streams

/-!
Who is told about the errors of a source.

A scan reports each error once, in the order in which the scanner gives it, and asks nothing of
the reporter, `reporter_scan_eq`. So a list, a listener and a stream are told the same, whether
or not they can keep it, and the tokens are the same for all of them.
-/

namespace LoxLexer

/-- A reporter to which some diagnostics have been reported, one after the other. -/
def told {ρ : Type} [Reporter ρ] (r : ρ) (ds : List Diagnostic) : ρ :=
  ds.foldl (fun r d => (report r d).1) r

lemma reporter_scan_eq {ρ : Type} [Reporter ρ] (source : String) (r : ρ) :
    (scan source r).reporter = told r (errorsOf source) := by
  rw [reporter_scan, ← errorsOf_eq, told]

lemma told_array (kept : Array Diagnostic) (ds : List Diagnostic) :
    told kept ds = kept ++ ds.toArray := by
  rw [← Array.toList_inj, told, toList_foldl_report, Array.toList_append]

/-- A listener is called with the lines and messages of what is reported. -/
lemma told_listener {σ : Type} (l : Listener σ) (ds : List Diagnostic) :
    told l ds =
      ⟨(ds.map fun d => (d.line, d.message)).foldl (fun state call => l.hear state call.1 call.2)
        l.state, l.hear⟩ := by
  induction ds generalizing l with
  | nil => rfl
  | cons d ds ih => exact ih { l with state := l.hear l.state d.line d.message }

lemma told_stream (s : DiagnosticStream) (ds : List Diagnostic) : told s ds = s.taking ds :=
  s.foldl_report ds

/-- A stream without a limit has the lines of all errors. -/
lemma written_scan_unlimited (source : String) :
    (scan source (DiagnosticStream.ofSink .unlimited)).reporter.sink.written =
      (Diagnostic.lines (errorsOf source)).toUTF8 := by
  rw [reporter_scan_eq, told_stream]
  exact ByteArray.empty_append

/-! ### Items -/

/-- An item is a token or an error. -/
lemma length_items (is : List Item) :
    (is.filterMap Item.token?).length + (is.filterMap Item.error?).length = is.length := by
  induction is with
  | nil => rfl
  | cons i is ih =>
    cases i
    all_goals
      simp only [List.filterMap_cons, Item.token?, Item.error?, List.length_cons]
      omega

/-- The end of the file is the only token that is not an item. -/
lemma size_tokens_scan {ρ : Type} [Reporter ρ] (source : String) (r : ρ) :
    (scan source r).tokens.size = ((itemsOf source).filterMap Item.token?).length + 1 := by
  rw [← Array.length_toList, tokens_scan, List.length_append, List.length_singleton]

lemma size_tokens_scan_add {ρ : Type} [Reporter ρ] (source : String) (r : ρ) :
    (scan source r).tokens.size - 1 + (errorsOf source).length = (itemsOf source).length := by
  rw [size_tokens_scan, Nat.add_sub_cancel, errorsOf_eq, length_items]

lemma count_eq (s : Scanner) : s.count.1 = s.items.length := by
  have counted (is : List Item) (n : Nat) : is.foldl (fun n _ => n + 1) n = n + is.length := by
    induction is generalizing n with
    | nil => rfl
    | cons i is ih => rw [List.foldl_cons, ih, List.length_cons, Nat.add_assoc, Nat.add_comm 1]
  rw [Scanner.count, Scanner.fold_eq, counted, Nat.zero_add]

/-- **Reporters**: the errors of a source are those among the items of its pieces, from left to
right, which are also the items that the scanner gives one by one. Every reporter is told each of
them once and in this order, and every scan has the other items as its tokens. A list has the errors
behind what it kept, a listener is called with their lines and messages, and a stream has their
lines as far as there is room, and remembers that there were some. -/
theorem reports_agree (source : String) :
    let items := itemsOf source
    let errors := errorsOf source
    let lines := String.join (errors.map fun d =>
      "[line " ++ Nat.repr d.line ++ "] Error: " ++ d.message ++ "\n")
    (Piece.Cuts source.toList (piecesOf source) ∧ items = Piece.itemsFrom 1 (piecesOf source) ∧
      (Scanner.ofSource source).Gives items ∧ errors = items.filterMap Item.error?) ∧
    (∀ {ρ : Type} [Reporter ρ] (r : ρ),
      (scan source r).tokens.toList =
        items.filterMap Item.token? ++ [.endOfFile (1 + source.toList.count '\n')] ∧
      (scan source r).reporter = told r errors ∧
      (scan source r).tokens.size - 1 + errors.length = (Scanner.ofSource source).count.1) ∧
    (∀ kept : Array Diagnostic, (scan source kept).reporter = kept ++ errors.toArray) ∧
    (∀ {σ : Type} (l : Listener σ),
      (scan source l).reporter =
        ⟨(errors.map fun d => (d.line, d.message)).foldl
          (fun state call => l.hear state call.1 call.2) l.state, l.hear⟩) ∧
    (∀ s : DiagnosticStream,
      (scan source s).reporter.sink.written = s.sink.written ++ firstBytes s.sink.room lines ∧
      ((scan source s).reporter.hadError = true ↔ s.hadError = true ∨ errors ≠ [])) ∧
    (scan source (DiagnosticStream.ofSink .unlimited)).reporter.sink.written = lines.toUTF8 ∧
    ∀ sink, (scan source (DiagnosticStream.ofSink sink)).reporter.hadError = true ↔
      errors ≠ [] := by
  intro items errors lines
  have streamed (s : DiagnosticStream) :
      (scan source s).reporter.sink.written = s.sink.written ++ firstBytes s.sink.room lines ∧
      ((scan source s).reporter.hadError = true ↔ s.hadError = true ∨ errors ≠ []) := by
    rw [reporter_scan_eq, told_stream]
    exact ⟨rfl, by simp [DiagnosticStream.taking, errors]⟩
  refine ⟨⟨cuts_piecesOf source, itemsOf_eq source, gives_itemsOf source, errorsOf_eq source⟩,
    fun r => ⟨tokens_scan source r, reporter_scan_eq source r, ?_⟩, fun kept => ?_, fun l => ?_,
    streamed, written_scan_unlimited source, fun sink => ?_⟩
  · rw [count_eq]
    exact size_tokens_scan_add source r
  · rw [reporter_scan_eq, told_array]
  · rw [reporter_scan_eq, told_listener]
  · rw [(streamed _).2]
    simp [DiagnosticStream.ofSink]

end LoxLexer
