import LoxLexer.Proofs.Reporters
import Mathlib.Data.List.Infix

/-!
The log of a scan.

It tells of the items in their order: of each token, and of an error what its reporter has to say,
which hangs on the errors before it, `chronicle_eq`. Of the reporters only a stream has something to
say, and only of a diagnostic that it has no room for. The totals stand at the end.
-/

namespace LoxLexer

/-- A record as it is logged: its level, and its text. -/
def Record.entry (r : Record) : String × String := (r.level.name, r.text)

/-- What is logged when a diagnostic is reported after some others. -/
def remarks {ρ : Type} [Reporter ρ] (r : ρ) (earlier : List Diagnostic) (d : Diagnostic) :
    List (String × String) :=
  (report (told r earlier) d).2.map Record.entry

lemma remarks_array (kept : Array Diagnostic) (earlier : List Diagnostic) (d : Diagnostic) :
    remarks kept earlier d = [] := rfl

lemma remarks_listener {σ : Type} (l : Listener σ) (earlier : List Diagnostic) (d : Diagnostic) :
    remarks l earlier d = [] := rfl

lemma remarks_stream (s : DiagnosticStream) (earlier : List Diagnostic) (d : Diagnostic) :
    remarks s earlier d =
      if Crosses s.sink.room (Diagnostic.lines (earlier ++ [d])) then
        [("WARN", "could not write diagnostic for line " ++ Nat.repr d.line ++ ": " ++
          s.sink.onFull.message)]
      else [] := by
  have room := s.crosses_room_foldl_report earlier d
  have onFull : (told s earlier).sink.onFull = s.sink.onFull := by
    rw [told_stream]
    rfl
  rw [← told] at room
  rw [remarks, DiagnosticStream.report_eq]
  simp only [room, onFull]
  split <;> rfl

/-- What is logged of an item behind some others. -/
def Item.entries (remarks : List Diagnostic → Diagnostic → List (String × String))
    (before : List Item) : Item → List (String × String)
  | token t => [("TRACE", "scanned " ++ t.display)]
  | error d => remarks (before.filterMap Item.error?) d

/-- The items of a list, each with those before it. -/
def Item.behind (is : List Item) : List (List Item × Item) := is.inits.zip is

lemma Item.behind_cons (i : Item) (is : List Item) :
    behind (i :: is) = ([], i) :: (behind is).map fun (before, j) => (i :: before, j) := by
  rw [behind, List.inits, List.zip_cons_cons, List.zip_map_left]
  rfl

theorem chronicle_eq {ρ : Type} [Reporter ρ] (r : ρ) (is : List Item) :
    (Scan.chronicle r is).map Record.entry =
      (Item.behind is).flatMap fun (before, i) => i.entries (remarks r) before := by
  induction is generalizing r with
  | nil => rfl
  | cons i is ih =>
    rw [Item.behind_cons, List.flatMap_cons, List.flatMap_map]
    cases i with
    | token t =>
      rw [Scan.chronicle, List.map_cons, ih]
      rfl
    | error d =>
      rw [Scan.chronicle, List.map_append, ih]
      rfl

/-- **The log**: it has a trace of each token and the reporter's remarks on each error, in the order
of the items and each of them once, and then the totals, which count every error. Lists and
listeners have no remarks; a stream warns of a diagnostic if there is no room for its line behind
those before it. -/
theorem log_exact (source : String) :
    let items := itemsOf source
    let errors := errorsOf source
    (Piece.Cuts source.toList (piecesOf source) ∧ items = Piece.itemsFrom 1 (piecesOf source) ∧
      (Scanner.ofSource source).Gives items ∧ errors = items.filterMap Item.error?) ∧
    (∀ {ρ : Type} [Reporter ρ] (r : ρ),
      let tokens := (scan source r).tokens
      (scan source r).log.toList.map Record.entry =
        (Item.behind items).flatMap (fun (before, i) => i.entries (remarks r) before) ++
          [("DEBUG", "scanned " ++ Nat.repr tokens.size ++ " tokens over " ++
            Nat.repr (1 + source.toList.count '\n') ++ " lines with " ++
            Nat.repr errors.length ++ " errors")] ∧
      tokens.size - 1 + errors.length = items.length) ∧
    (∀ (kept : Array Diagnostic) earlier d, remarks kept earlier d = []) ∧
    (∀ {σ : Type} (l : Listener σ) earlier d, remarks l earlier d = []) ∧
    ∀ (s : DiagnosticStream) earlier d,
      remarks s earlier d =
        if Crosses s.sink.room (Diagnostic.lines (earlier ++ [d])) then
          [("WARN", "could not write diagnostic for line " ++ Nat.repr d.line ++ ": " ++
            s.sink.onFull.message)]
        else [] := by
  intro items errors
  refine ⟨⟨cuts_piecesOf source, itemsOf_eq source, gives_itemsOf source, errorsOf_eq source⟩,
    fun r => ⟨?_, size_tokens_scan_add source r⟩, remarks_array, remarks_listener, remarks_stream⟩
  rw [log_scan, List.map_append, chronicle_eq, size_tokens_scan, ← errorsOf_eq]
  rfl

end LoxLexer
