import LoxLexer.Proofs.LineBreak
import LoxLexer.Proofs.Lookahead
import LoxLexer.Proofs.Reporters
import Mathlib.Data.List.ReduceOption

/-!
A scanner that stops behind some items, and goes on later.

What it gives hangs on the text ahead and on the line where that begins, and on nothing else: a
scanner on the same text further up gives the same on earlier lines, `Trails.next`, so it is as
good to go on as to begin anew on the text that is left, `trails_ofSource`. The items come first and
then there are none any more, `answers_eq`, so what has been asked for and what is left make up the
whole scan.
-/

namespace LoxLexer

namespace Scanner

variable {s t u : Scanner} {n : Nat}

/-! ### The same text further down -/

/-- Both scanners have the same text ahead, the first one `n` lines further down. -/
structure Trails (n : Nat) (s t : Scanner) : Prop where
  rest : s.rest = t.rest
  line : s.line = t.line + n

lemma Trails.step {p : Piece} (h : Trails n s t) (hs : s.step = some (p, u)) :
    ∃ v, t.step = some (p, v) ∧ Trails n u v := by
  obtain ⟨reads, proper, stops⟩ := step_spec hs
  have behind : t.rest = p.chars ++ u.rest := by rw [← h.rest, reads.rest]
  refine ⟨_, step_of_stops proper stops behind, rfl, ?_⟩
  rw [reads.line, h.line, Piece.newlines, Nat.add_right_comm]

/-- Asked for an item, both give the same one, and go on with the same text. -/
theorem Trails.next {s t : Scanner} (h : Trails n s t) :
    s.next.1 = t.next.1.map (Item.raise n) ∧ Trails n s.next.2 t.next.2 := by
  match hs : s.step with
  | none =>
    have ht : t.step = none := step_eq_none.mpr (h.rest ▸ step_eq_none.mp hs)
    rw [next_of_none hs, next_of_none ht]
    exact ⟨rfl, h⟩
  | some (p, u) =>
    obtain ⟨v, ht, behind⟩ := h.step hs
    have item : p.item? s.line = (p.item? t.line).map (Item.raise n) := by
      rw [h.line, Piece.item?_raise]
    match hi : p.item? t.line with
    | some i =>
      rw [hi] at item
      rw [next_of_item hs item, next_of_item ht hi]
      exact ⟨rfl, behind⟩
    | none =>
      rw [hi] at item
      rw [next_of_skip hs item, next_of_skip ht hi]
      exact behind.next
termination_by s.rest.length
decreasing_by exact length_rest_step_lt hs

lemma Trails.items (h : Trails n s t) : s.items = t.items.map (Item.raise n) := by
  have cuts := t.cuts_pieces
  rw [items_eq cuts, ← Piece.itemsFrom_raise, ← h.line]
  exact items_eq (h.rest ▸ cuts)

/-- A scanner that has read some of a source goes on as one that begins with the rest. -/
lemma trails_ofSource {source : String} {cs : List Char} (h : Reads (.ofSource source) cs s) :
    Trails (cs.count '\n') s (.ofSource (String.ofList s.rest)) :=
  ⟨String.toList_ofList.symm, h.line⟩

/-! ### Asking again and again -/

/-- What the scanner answers when it is asked `n` times for the next item. -/
def answers (s : Scanner) : Nat → List (Option Item)
  | 0 => []
  | n + 1 => s.next.1 :: s.next.2.answers n

lemma Trails.answers (h : Trails n s t) (k : Nat) :
    s.answers k = (t.answers k).map (Option.map (Item.raise n)) := by
  induction k generalizing s t with
  | zero => rfl
  | succ k ih =>
    obtain ⟨first, behind⟩ := h.next
    rw [Scanner.answers, Scanner.answers, List.map_cons, first, ih behind]

lemma items_of_next_none (h : s.next = (none, t)) : s.items = [] ∧ t.items = [] := by
  refine ⟨?_, items_of_none (step_eq_none.mpr (rest_of_next_none h))⟩
  rw [items_of_next, h]

/-- The items are given one by one, and when there are no more, there are none for ever. -/
theorem answers_eq (s : Scanner) (k : Nat) :
    s.answers k = (s.items.take k).map some ++ List.replicate (k - s.items.length) none := by
  induction k generalizing s with
  | zero => simp [answers]
  | succ k ih =>
    rw [answers, ih]
    match hn : s.next with
    | (some i, t) =>
      rw [items_of_next_some hn, List.take_succ_cons, List.map_cons, List.cons_append,
        List.length_cons, Nat.add_sub_add_right]
    | (none, t) =>
      obtain ⟨ended, ended'⟩ := items_of_next_none hn
      simp [ended, ended', List.replicate_succ]

/-- The items among the answers. -/
lemma reduceOption_answers (s : Scanner) (k : Nat) :
    (s.answers k).reduceOption = s.items.take k := by
  have present (is : List Item) : (is.map some).reduceOption = is := by
    simp [List.reduceOption]
  rw [answers_eq, List.reduceOption_append, present, List.reduceOption_replicate_none,
    List.append_nil]

lemma answers_of_rest (h : s.rest = []) (k : Nat) : s.answers k = List.replicate k none := by
  rw [answers_eq, items_of_none (step_eq_none.mpr h)]
  simp

/-- A scanner that has once said that there is no item stays where it is. -/
lemma behind_of_next_none (h : s.next.1 = none) (k : Nat) : (s.behind k).next.1 = none := by
  have ended : s.items = [] := (items_of_next_none (t := s.next.2) (by rw [← h])).1
  have left := s.items_behind k
  rw [ended, List.drop_nil] at left
  match hn : (s.behind k).next with
  | (some i, t) => simp [items_of_next_some hn] at left
  | (none, t) => rfl

/-- To give an item a character has to be read. -/
lemma exists_reads_of_next {i : Item} (h : s.next = (some i, t)) : ∃ c cs, Reads s (c :: cs) t := by
  obtain ⟨⟨cs, reads⟩, -⟩ := s.next_spec
  have shorter := length_rest_next_lt h
  rw [h] at reads
  have size := reads.length
  cases cs with
  | nil =>
    dsimp only [List.length_nil] at size
    omega
  | cons c cs => exact ⟨c, cs, reads⟩

/-! ### What is left -/

lemma count_snd (s : Scanner) : s.count.2 = s.stop := by rw [count, fold_eq]

lemma rest_stop (s : Scanner) : s.stop.rest = [] := by
  have whole := s.stop_spec.length
  exact List.eq_nil_of_length_eq_zero (by omega)

variable {ρ : Type} [Reporter ρ]

lemma Trails.tokens (h : Trails n s t) (r : ρ) :
    (s.scanRest r).tokens.toList = (t.scanRest r).tokens.toList.map (Token.raise n) := by
  have last : s.line + s.rest.count '\n' = t.line + t.rest.count '\n' + n := by
    rw [h.line, h.rest, Nat.add_right_comm]
  rw [tokens_scanRest, tokens_scanRest, h.items, last]
  simp [List.filterMap_map, List.map_filterMap, Item.token?_raise, Token.raise, Token.endOfFile]

lemma Trails.errors (h : Trails n s t) :
    s.items.filterMap Item.error? =
      (t.items.filterMap Item.error?).map (Diagnostic.raise n) := by
  rw [h.items]
  simp [List.filterMap_map, List.map_filterMap, Item.error?_raise]

/-- When the rest has been counted, nothing but the end of the file is left to scan. -/
lemma scanRest_count (s : Scanner) (r : ρ) :
    (s.count.2.scanRest r).tokens.toList = [.endOfFile (s.line + s.rest.count '\n')] ∧
    (s.count.2.scanRest r).reporter = r := by
  have none_left : s.stop.items = [] := items_of_none (step_eq_none.mpr s.rest_stop)
  rw [count_snd, tokens_scanRest, reporter_scanRest, none_left, s.rest_stop, s.stop_spec.line]
  exact ⟨rfl, rfl⟩

end Scanner

lemma told_told {ρ : Type} [Reporter ρ] (r : ρ) (ds es : List Diagnostic) :
    told (told r ds) es = told r (ds ++ es) := by
  rw [told, told, told, List.foldl_append]

/-- **Resuming**: a scanner that has been asked for some items goes on as a fresh one on the text
that it has not read, on later lines. The items it has given and what a scan of the rest has to say
are the whole scan; so many items as are counted were left, and when they are counted or have all
been given, there are none for ever. To give one it reads a character at least. -/
theorem resume_anywhere {ρ : Type} [Reporter ρ] (source : String) (k : Nat) (r : ρ) :
    let s := (Scanner.ofSource source).behind k
    let given := ((Scanner.ofSource source).answers k).reduceOption
    let left := String.ofList s.rest
    (∃ read, source = read ++ left ∧
      (∀ j, s.answers j = ((Scanner.ofSource left).answers j).map
        (Option.map (Item.raise (read.toList.count '\n')))) ∧
      (s.scanRest r).tokens.toList =
        (scan left r).tokens.toList.map (Token.raise (read.toList.count '\n')) ∧
      (s.scanRest r).reporter =
        told r ((errorsOf left).map (Diagnostic.raise (read.toList.count '\n')))) ∧
    given.filterMap Item.token? ++ (s.scanRest r).tokens.toList =
      (scan source r).tokens.toList ∧
    (s.scanRest (told r (given.filterMap Item.error?))).reporter = (scan source r).reporter ∧
    given.filterMap Item.error? ++ (s.scanRest (#[] : Array Diagnostic)).reporter.toList =
      errorsOf source ∧
    given.length + s.count.1 = (scan source r).tokens.size - 1 + (errorsOf source).length ∧
    (s.count.2.scanRest r).tokens.toList = [.endOfFile (1 + source.toList.count '\n')] ∧
    (s.count.2.scanRest r).reporter = r ∧
    (∀ j, s.count.2.answers j = List.replicate j none) ∧
    (s.next.1 = none → ∀ j, (s.behind j).next.1 = none) ∧
    (∀ i t, s.next = (some i, t) → ∃ c cs, Scanner.Reads s (c :: cs) t) ∧
    (itemsOf source).length ≤ source.toList.length := by
  intro s given left
  obtain ⟨cs, reads⟩ := (Scanner.ofSource source).reads_behind k
  have trails := Scanner.trails_ofSource reads
  have items : (itemsOf source).take k ++ s.items = itemsOf source := by
    rw [Scanner.items_behind]
    exact List.take_append_drop k _
  have given_eq : given = (itemsOf source).take k := Scanner.reduceOption_answers _ k
  have last : s.line + s.rest.count '\n' = 1 + source.toList.count '\n' := by
    have text : source.toList = cs ++ s.rest := reads.rest
    have line : s.line = 1 + cs.count '\n' := reads.line
    rw [text, line, List.count_append, Nat.add_assoc]
  obtain ⟨counted_tokens, counted_reporter⟩ := s.scanRest_count r
  refine ⟨⟨String.ofList cs, ?_, ?_, ?_, ?_⟩, ?_, ?_, ?_, ?_, ?_, counted_reporter, ?_,
    Scanner.behind_of_next_none, fun _ _ => Scanner.exists_reads_of_next,
    Scanner.length_items_le _⟩
  · rw [← String.ofList_append, ← String.toList_inj, String.toList_ofList]
    exact reads.rest
  · intro j
    rw [String.toList_ofList]
    exact trails.answers j
  · rw [String.toList_ofList]
    exact trails.tokens r
  · rw [reporter_scanRest, trails.errors, String.toList_ofList, errorsOf_eq]
    rfl
  · rw [tokens_scan, tokens_scanRest, last, given_eq, ← List.append_assoc, ← List.filterMap_append,
      items]
  · rw [reporter_scanRest, ← told, told_told, ← List.filterMap_append, given_eq, items,
      reporter_scan_eq, errorsOf_eq]
  · rw [reporter_scanRest, toList_foldl_report, List.nil_append, ← List.filterMap_append, given_eq,
      items, errorsOf_eq]
  · rw [size_tokens_scan_add, count_eq, given_eq, ← List.length_append, items]
  · rw [counted_tokens, last]
  · intro j
    rw [Scanner.count_snd]
    exact Scanner.answers_of_rest s.rest_stop j

/-- A comment is left behind the first two items, the second of which is an error on the second
line. Behind the fourth one, a string that nothing closes, there are no more. -/
theorem resume_behind_open_string :
    let source := "\"a\nb\" @ // c\nx \"d\n"
    let s := (Scanner.ofSource source).behind 2
    let t := (Scanner.ofSource source).behind 4
    String.ofList s.rest = " // c\nx \"d\n" ∧
    (s.scanRest (#[] : Array Diagnostic)).tokens.toList =
      (scan " // c\nx \"d\n" (#[] : Array Diagnostic)).tokens.toList.map (Token.raise 1) ∧
    (∃ i u, s.next = (some i, u) ∧ ∃ c cs, Scanner.Reads s (c :: cs) u) ∧
    t.next.1 = none ∧ ∀ j, (t.behind j).next.1 = none := by
  intro source s t
  obtain ⟨⟨read, text, -, tokens, -⟩, -, -, -, -, -, -, -, -, progress, -⟩ :=
    resume_anywhere source 2 (#[] : Array Diagnostic)
  obtain ⟨-, -, -, -, -, -, -, -, ended, -⟩ := resume_anywhere source 4 (#[] : Array Diagnostic)
  have left : String.ofList s.rest = " // c\nx \"d\n" := by decide +kernel
  have front : read = "\"a\nb\" @" := by
    have parts : source = "\"a\nb\" @" ++ " // c\nx \"d\n" := by decide
    rw [left, parts] at text
    exact (String.append_left_inj _).mp text.symm
  have lines : read.toList.count '\n' = 1 := by
    rw [front]
    decide
  rw [left, lines] at tokens
  have given : s.next.1.isSome := by decide +kernel
  have finished : t.next.1 = none := Option.isNone_iff_eq_none.mp (by decide +kernel)
  obtain ⟨i, item⟩ := Option.isSome_iff_exists.mp given
  have answer : s.next = (some i, s.next.2) := by rw [← item]
  exact ⟨left, tokens, ⟨i, _, answer, progress i _ answer⟩, finished, ended finished⟩

end LoxLexer
