import LoxLexer.Proofs.Cutting
import LoxLexer.Scan

/-!
What a scanner makes of a text.

A scanner `Reads` the pieces of its text one after the other, and its items are theirs,
`items_eq`. Asking for the next item again and again `Gives` the same items, `gives_items`, and
a scan keeps the tokens and reports the errors among them, `tokens_scan` and `reporter_scan`. Its
log follows the items one by one, `log_scan`.
-/

namespace LoxLexer

namespace Piece

/-- The items of pieces that follow each other from the given line on. -/
def itemsFrom (line : Nat) : List Piece → List Item
  | [] => []
  | p :: ps => (p.item? line).toList ++ itemsFrom (line + p.newlines) ps

lemma exists_of_mem_itemsFrom {line : Nat} {ps : List Piece} {i : Item}
    (h : i ∈ itemsFrom line ps) : ∃ p ∈ ps, ∃ l, p.item? l = some i := by
  induction ps generalizing line with
  | nil => simp [itemsFrom] at h
  | cons p ps ih =>
    rw [itemsFrom, List.mem_append] at h
    rcases h with h | h
    · exact ⟨p, by simp, line, Option.mem_toList.mp h⟩
    · obtain ⟨q, hq, l, hi⟩ := ih h
      exact ⟨q, by simp [hq], l, hi⟩

lemma itemsFrom_append (line : Nat) (ps qs : List Piece) :
    itemsFrom line (ps ++ qs) =
      itemsFrom line ps ++ itemsFrom (line + (ps.flatMap chars).count '\n') qs := by
  induction ps generalizing line with
  | nil => rfl
  | cons p ps ih =>
    rw [List.cons_append, itemsFrom, ih, itemsFrom, List.flatMap_cons, List.count_append,
      ← Nat.add_assoc, List.append_assoc]
    rfl

end Piece

namespace Item

def token? : Item → Option Token
  | token t => some t
  | error _ => none

def error? : Item → Option Diagnostic
  | token _ => none
  | error d => some d

def line : Item → Nat
  | token t => t.line
  | error d => d.line

end Item

namespace Scanner

/-- The scanner gets from `s` to `t` by reading the characters `cs`. -/
structure Reads (s : Scanner) (cs : List Char) (t : Scanner) : Prop where
  rest : s.rest = cs ++ t.rest
  offset : t.offset = s.offset + (String.ofList cs).utf8ByteSize
  line : t.line = s.line + cs.count '\n'

lemma Reads.refl (s : Scanner) : Reads s [] s := ⟨rfl, rfl, rfl⟩

lemma Reads.trans {s t u : Scanner} {cs ds : List Char} (h : Reads s cs t) (h' : Reads t ds u) :
    Reads s (cs ++ ds) u where
  rest := by rw [h.rest, h'.rest, List.append_assoc]
  offset := by rw [h'.offset, h.offset, String.ofList_append, String.utf8ByteSize_append,
    Nat.add_assoc]
  line := by rw [h'.line, h.line, List.count_append, Nat.add_assoc]

/-! ### Steps -/

lemma step_eq_none {s : Scanner} : s.step = none ↔ s.rest = [] := by
  unfold step
  split <;> simp_all

lemma step_spec {s t : Scanner} {p : Piece} (h : s.step = some (p, t)) :
    Reads s p.chars t ∧ p.Proper ∧ p.Stops t.rest := by
  unfold step at h
  split at h
  · cases h
  · next c cs hs =>
    simp only [Option.some.injEq, Prod.mk.injEq] at h
    obtain ⟨rfl, rfl⟩ := h
    refine ⟨⟨?_, rfl, rfl⟩, Piece.cut_spec c cs⟩
    rw [hs, Piece.cut_append]

lemma step_of_stops {s : Scanner} {p : Piece} {rest : List Char} (hp : p.Proper)
    (hr : p.Stops rest) (h : s.rest = p.chars ++ rest) :
    s.step = some (p, ⟨rest, s.offset + p.bytes, s.line + p.newlines⟩) := by
  obtain ⟨c, cs, hc⟩ := List.exists_cons_of_ne_nil hp.chars_ne_nil
  have hs : s.rest = c :: (cs ++ rest) := by rw [h, hc, List.cons_append]
  have cutting : Piece.cut c (cs ++ rest) = (p, rest) := Piece.cut_eq hp hr (by rw [← h, hs])
  unfold step
  rw [hs]
  simp only [cutting]

/-- The items of a text are those of its pieces. -/
theorem items_eq {s : Scanner} {ps : List Piece} (h : Piece.Cuts s.rest ps) :
    s.items = Piece.itemsFrom s.line ps := by
  generalize hcs : s.rest = cs at h
  induction h generalizing s with
  | nil => exact items_of_none (step_eq_none.mpr hcs)
  | cons proper stops _ ih =>
    rw [items_of_some (step_of_stops proper stops hcs), ih rfl]
    rfl

/-- The pieces that are left. -/
def pieces (s : Scanner) : List Piece :=
  match _h : s.step with
  | none => []
  | some (p, t) => p :: pieces t
termination_by s.rest.length
decreasing_by exact length_rest_step_lt _h

theorem cuts_pieces (s : Scanner) : Piece.Cuts s.rest s.pieces := by
  rw [pieces]
  split
  · next h =>
    rw [step_eq_none.mp h]
    exact .nil
  · next p t h =>
    obtain ⟨reads, proper, stops⟩ := step_spec h
    rw [reads.rest]
    exact .cons proper stops (cuts_pieces t)
termination_by s.rest.length
decreasing_by exact length_rest_step_lt (by assumption)

theorem stop_spec (s : Scanner) : Reads s s.rest s.stop := by
  match h : s.step with
  | none =>
    rw [stop_of_none h, step_eq_none.mp h]
    exact .refl s
  | some (p, t) =>
    have first := (step_spec h).1
    rw [stop_of_some h, first.rest]
    exact first.trans (stop_spec t)
termination_by s.rest.length
decreasing_by exact length_rest_step_lt h

/-! ### Asking for the next item -/

lemma next_of_none {s : Scanner} (h : s.step = none) : s.next = (none, s) := by
  rw [next]
  split <;> simp_all

lemma next_of_item {s t : Scanner} {p : Piece} {i : Item} (h : s.step = some (p, t))
    (hi : p.item? s.line = some i) : s.next = (some i, t) := by
  rw [next]
  split
  · simp_all
  · next h' =>
    obtain ⟨rfl, rfl⟩ := Prod.mk.inj (Option.some.inj (h.symm.trans h'))
    simp [hi]

lemma next_of_skip {s t : Scanner} {p : Piece} (h : s.step = some (p, t))
    (hi : p.item? s.line = none) : s.next = t.next := by
  rw [next]
  split
  · simp_all
  · next h' =>
    obtain ⟨rfl, rfl⟩ := Prod.mk.inj (Option.some.inj (h.symm.trans h'))
    simp [hi]

/-- An item is that of the first piece that has one; pieces without one are read over. -/
theorem next_some {s t : Scanner} {i : Item} (h : s.next = (some i, t)) :
    ∃ skipped u p, Reads s skipped u ∧ u.step = some (p, t) ∧ p.item? u.line = some i := by
  match hs : s.step with
  | none => rw [next_of_none hs] at h; cases h
  | some (p, u) =>
    match hi : p.item? s.line with
    | some j =>
      rw [next_of_item hs hi] at h
      obtain ⟨rfl, rfl⟩ : j = i ∧ u = t := by simpa using h
      exact ⟨[], s, p, .refl s, hs, hi⟩
    | none =>
      rw [next_of_skip hs hi] at h
      obtain ⟨skipped, v, q, hv, hq⟩ := next_some h
      exact ⟨p.chars ++ skipped, v, q, (step_spec hs).1.trans hv, hq⟩
termination_by s.rest.length
decreasing_by exact length_rest_step_lt hs

theorem items_of_next {s : Scanner} :
    s.items = match s.next with
      | (none, _) => []
      | (some i, t) => i :: t.items := by
  match hs : s.step with
  | none => rw [items_of_none hs, next_of_none hs]
  | some (p, t) =>
    rw [items_of_some hs]
    match hi : p.item? s.line with
    | some i => rw [next_of_item hs hi]; rfl
    | none =>
      rw [next_of_skip hs hi, items_of_next (s := t)]
      rfl
termination_by s.rest.length
decreasing_by exact length_rest_step_lt hs

/-- Asking for items gives `is`, one after the other, and leaves the scanner at `t`. -/
inductive Yields : Scanner → List Item → Scanner → Prop where
  | nil {s} : Yields s [] s
  | cons {s t u i is} (first : s.next = (some i, t)) (tail : Yields t is u) :
    Yields s (i :: is) u

/-- Asking for items until there is no other one gives `is`. -/
def Gives (s : Scanner) (is : List Item) : Prop := ∃ t, Yields s is t ∧ t.next.1 = none

theorem gives_items (s : Scanner) : s.Gives s.items := by
  generalize h : s.items = is
  induction is generalizing s with
  | nil =>
    refine ⟨s, .nil, ?_⟩
    rw [items_of_next] at h
    split at h
    · next hn => rw [hn]
    · cases h
  | cons i is ih =>
    rw [items_of_next] at h
    split at h
    · cases h
    · next hn =>
      obtain ⟨rfl, rest⟩ := List.cons.inj h
      obtain ⟨u, hu, stop⟩ := ih _ rest
      exact ⟨u, .cons hn hu, stop⟩

lemma Yields.split {s t : Scanner} {is js : List Item} (h : Yields s (is ++ js) t) :
    ∃ u, Yields s is u ∧ Yields u js t := by
  induction is generalizing s with
  | nil => exact ⟨s, .nil, h⟩
  | cons i is ih =>
    cases h with
    | cons first tail =>
      obtain ⟨u, hu, ht⟩ := ih tail
      exact ⟨u, .cons first hu, ht⟩

lemma Yields.append {s t u : Scanner} {is js : List Item} (h : Yields s is t)
    (h' : Yields t js u) : Yields s (is ++ js) u := by
  induction h with
  | nil => exact h'
  | cons first _ ih => exact .cons first (ih h')

/-- What has been read when some items have been given. -/
theorem Yields.reads {s t : Scanner} {is : List Item} (h : Yields s is t) :
    ∃ cs, Reads s cs t := by
  induction h with
  | @nil s => exact ⟨[], .refl s⟩
  | cons first _ ih =>
    obtain ⟨skipped, u, p, hu, step, -⟩ := next_some first
    obtain ⟨cs, hcs⟩ := ih
    exact ⟨_, (hu.trans (step_spec step).1).trans hcs⟩

lemma Yields.eq_nil_of_rest {s t : Scanner} {is : List Item} (h : Yields s is t)
    (hs : s.rest = []) : is = [] := by
  cases h with
  | nil => rfl
  | cons first =>
    rw [next_of_none (step_eq_none.mpr hs)] at first
    cases first

end Scanner

/-! ### Scans -/

namespace Scan

variable {ρ : Type} [Reporter ρ]

lemma tokens_foldl_add (s : Scan ρ) (is : List Item) :
    (is.foldl add s).tokens.toList = s.tokens.toList ++ is.filterMap Item.token? := by
  induction is generalizing s with
  | nil => simp
  | cons i is ih =>
    rw [List.foldl_cons, ih]
    cases i with
    | token t => simp [add, Item.token?]
    | error d => rfl

lemma reporter_foldl_add (s : Scan ρ) (is : List Item) :
    (is.foldl add s).reporter =
      (is.filterMap Item.error?).foldl (fun r d => (report r d).1) s.reporter := by
  induction is generalizing s with
  | nil => rfl
  | cons i is ih =>
    rw [List.foldl_cons, ih]
    cases i <;> rfl

lemma errors_foldl_add (s : Scan ρ) (is : List Item) :
    (is.foldl add s).errors = s.errors + (is.filterMap Item.error?).length := by
  induction is generalizing s with
  | nil => rfl
  | cons i is ih =>
    rw [List.foldl_cons, ih]
    cases i with
    | token t => rfl
    | error d =>
      simp only [add, Item.error?, List.filterMap_cons, List.length_cons]
      omega

/-- What items leave in the log, the words of the reporter among them. -/
def chronicle (r : ρ) : List Item → List Record
  | [] => []
  | .token t :: is => .scanned t :: chronicle r is
  | .error d :: is => (report r d).2 ++ chronicle (report r d).1 is

lemma log_foldl_add (s : Scan ρ) (is : List Item) :
    (is.foldl add s).log.toList = s.log.toList ++ chronicle s.reporter is := by
  induction is generalizing s with
  | nil => simp [chronicle]
  | cons i is ih =>
    rw [List.foldl_cons, ih]
    cases i <;> simp [add, chronicle]

end Scan

/-- The items of a source. -/
def itemsOf (source : String) : List Item := (Scanner.ofSource source).items

theorem gives_itemsOf (source : String) : (Scanner.ofSource source).Gives (itemsOf source) :=
  Scanner.gives_items _

lemma line_stop (source : String) :
    (Scanner.ofSource source).stop.line = 1 + source.toList.count '\n' :=
  (Scanner.ofSource source).stop_spec.line

/-- The pieces of a source. -/
def piecesOf (source : String) : List Piece := (Scanner.ofSource source).pieces

theorem cuts_piecesOf (source : String) : Piece.Cuts source.toList (piecesOf source) :=
  Scanner.cuts_pieces (Scanner.ofSource source)

theorem itemsOf_eq (source : String) : itemsOf source = Piece.itemsFrom 1 (piecesOf source) :=
  Scanner.items_eq (cuts_piecesOf source)

section

variable {ρ : Type} [Reporter ρ]

theorem tokens_scanRest (s : Scanner) (r : ρ) :
    (s.scanRest r).tokens.toList =
      s.items.filterMap Item.token? ++ [.endOfFile (s.line + s.rest.count '\n')] := by
  simp [Scanner.scanRest, Scanner.fold_eq, Scan.finish, Scan.tokens_foldl_add, Scan.start,
    s.stop_spec.line]

theorem reporter_scanRest (s : Scanner) (r : ρ) :
    (s.scanRest r).reporter =
      (s.items.filterMap Item.error?).foldl (fun r d => (report r d).1) r := by
  simp [Scanner.scanRest, Scanner.fold_eq, Scan.finish, Scan.reporter_foldl_add, Scan.start]

theorem tokens_scan (source : String) (r : ρ) :
    (scan source r).tokens.toList =
      (itemsOf source).filterMap Item.token? ++ [.endOfFile (1 + source.toList.count '\n')] :=
  tokens_scanRest (.ofSource source) r

theorem reporter_scan (source : String) (r : ρ) :
    (scan source r).reporter =
      ((itemsOf source).filterMap Item.error?).foldl (fun r d => (report r d).1) r :=
  reporter_scanRest (.ofSource source) r

theorem log_scan (source : String) (r : ρ) :
    (scan source r).log.toList =
      Scan.chronicle r (itemsOf source) ++
        [.summary (((itemsOf source).filterMap Item.token?).length + 1)
          (1 + source.toList.count '\n') ((itemsOf source).filterMap Item.error?).length] := by
  have tokens (s : Scan ρ) (is : List Item) := congrArg List.length (Scan.tokens_foldl_add s is)
  simp only [Array.length_toList, List.length_append] at tokens
  simp [scan, Scanner.scanRest, Scanner.fold_eq, Scan.finish, Scan.log_foldl_add,
    Scan.errors_foldl_add, tokens, Scan.start, itemsOf, line_stop]

end

/-- The errors that a scan of a source reports, in order. -/
def errorsOf (source : String) : List Diagnostic :=
  (scan source (#[] : Array Diagnostic)).reporter.toList

lemma toList_foldl_report (ds : List Diagnostic) (kept : Array Diagnostic) :
    (ds.foldl (fun r d => (report r d).1) kept).toList = kept.toList ++ ds := by
  induction ds generalizing kept with
  | nil => simp
  | cons d ds ih =>
    rw [List.foldl_cons, ih]
    simp [report]

theorem errorsOf_eq (source : String) :
    errorsOf source = (itemsOf source).filterMap Item.error? := by
  rw [errorsOf, reporter_scan, toList_foldl_report]
  rfl

end LoxLexer
