import LoxLexer.Proofs.Cursor.Moves
import LoxLexer.Proofs.Lookahead
import LoxLexer.Proofs.Printing

/-!
No slice of a source goes wrong.

A lexeme is sliced out of the source between two offsets, and a slice can fail. Where a cursor
stands behind what a scanner has read, its offsets are boundaries of characters, and the slice is
what it has taken since the lexeme began: `At`. It stays so when both go on to the next item, and
that is the same one, `At.next`.
-/

namespace LoxLexer

/-! ### Slices -/

/-- A slice that there is not. -/
structure BadSlice where
  text : String
  start : Nat
  stop : Nat

/-- The text from one offset to another. Both have to be boundaries of its characters. -/
def slice (text : String) (start stop : Nat) : Except BadSlice String :=
  if h : (⟨start⟩ : String.Pos.Raw).IsValid text ∧ (⟨stop⟩ : String.Pos.Raw).IsValid text ∧
      start ≤ stop then
    .ok (String.extract (text.pos ⟨start⟩ h.1) (text.pos ⟨stop⟩ h.2.1))
  else .error ⟨text, start, stop⟩

lemma isValid_append (u v : String) : (⟨u.utf8ByteSize⟩ : String.Pos.Raw).IsValid (u ++ v) :=
  String.Pos.Raw.isValid_iff_exists_append.mpr ⟨u, v, rfl, rfl⟩

/-- Between what precedes it and what follows, a text can be sliced out. -/
theorem slice_append (u w v : String) :
    slice (u ++ w ++ v) u.utf8ByteSize (u ++ w).utf8ByteSize = .ok w := by
  have start : (⟨u.utf8ByteSize⟩ : String.Pos.Raw).IsValid (u ++ w ++ v) := by
    rw [String.append_assoc]
    exact isValid_append u (w ++ v)
  have ordered : u.utf8ByteSize ≤ (u ++ w).utf8ByteSize := by
    rw [String.utf8ByteSize_append]
    exact Nat.le_add_right _ _
  have bytes : (u.toByteArray ++ (w.toByteArray ++ v.toByteArray)).extract
      (u.toByteArray.size + 0) (u.toByteArray.size + w.toByteArray.size) = w.toByteArray := by
    rw [ByteArray.extract_append_size_add, ByteArray.extract_append_eq_left rfl]
  rw [slice, dif_pos ⟨start, isValid_append (u ++ w) v, ordered⟩]
  congr 1
  rw [← String.toByteArray_inj]
  simpa [ByteArray.append_assoc] using bytes

namespace Cursor

variable {σ : Type} [Peeking σ (Nat × Char)] {c d e : Cursor σ}

/-! ### Items -/

/-- What lies between the beginning of the lexeme and the place of the cursor. -/
def lexeme (c : Cursor σ) : Except BadSlice String := slice c.source c.start c.current

/-- The number that digits denote, perhaps with a point among them. -/
def numberOf (text : String) : Binary64 :=
  (Numeral.ofDigits (text.toList.takeWhile Char.isDigit)
    (text.toList.dropWhile Char.isDigit).tail).read

/-- What a lexeme that began on the given line stands for. The cursor is behind it. -/
def item? (line : Nat) (c : Cursor σ) : Shape → Except BadSlice (Option Item)
  | .trivia => return none
  | .fault f => return some (.error ⟨f, c.line⟩)
  | .mark m => do
    let text ← c.lexeme
    return some (.token ⟨.mark m, text, none, line⟩)
  | .word => do
    let text ← c.lexeme
    return some (.token ⟨.ofWord text, text, none, line⟩)
  | .number => do
    let text ← c.lexeme
    return some (.token ⟨.number, text, some (.number (numberOf text)), line⟩)
  | .string => do
    let text ← c.lexeme
    let body ← slice text 1 (text.utf8ByteSize - 1)
    return some (.token ⟨.string, text, some (.text body), line⟩)

/-- The next item, if one is left, and the cursor behind it, unless a slice fails. -/
def next (c : Cursor σ) : Except BadSlice (Option Item × Cursor σ) :=
  match _h : c.begin.advance with
  | (none, d) => return (none, d)
  | (some x, d) => do
    match ← (d.pass x).2.item? c.line (d.pass x).1 with
    | some i => return (some i, (d.pass x).2)
    | none => next (d.pass x).2
termination_by c.ahead.length
decreasing_by
  obtain ⟨cs, -, past⟩ := (passes_pass x d).takes
  have first := (advance_spec _h).2.length
  have shorter := past.length
  have same : c.begin.ahead = c.ahead := rfl
  simp only [Option.toList_some, List.length_singleton, same] at first
  omega

/-- The cursor behind the next `n` items, unless a slice fails. -/
def behind (c : Cursor σ) : Nat → Except BadSlice (Cursor σ)
  | 0 => return c
  | n + 1 => do return (← (← c.behind n).next).2

lemma behind_succ {o : Option Item} {n : Nat} (h : c.behind n = .ok d)
    (next : d.next = .ok (o, e)) : c.behind (n + 1) = .ok e := by
  rw [behind, h]
  exact congrArg (Except.map Prod.snd) next

/-! ### Where the cursor stands -/

lemma utf8ByteSize_ofList_cons (x : Char) (cs : List Char) :
    (String.ofList (x :: cs)).utf8ByteSize = x.utf8Size + (String.ofList cs).utf8ByteSize := by
  rw [String.ofList_cons, String.utf8ByteSize_append, String.utf8ByteSize_singleton]

lemma indices_append (n : Nat) (us vs : List Char) :
    indices n (us ++ vs) = indices n us ++ indices (n + (String.ofList us).utf8ByteSize) vs := by
  induction us generalizing n with
  | nil => simp [indices]
  | cons x us ih =>
    rw [List.cons_append, indices, ih, indices, utf8ByteSize_ofList_cons, Nat.add_assoc,
      List.cons_append]

lemma map_indices (n : Nat) (cs : List Char) : (indices n cs).map Prod.snd = cs := by
  induction cs generalizing n with
  | nil => rfl
  | cons x cs ih => rw [indices, List.map_cons, ih]

lemma endFrom_indices (n : Nat) (cs : List Char) :
    endFrom n (indices n cs) = n + (String.ofList cs).utf8ByteSize := by
  induction cs generalizing n with
  | nil => simp [indices, endFrom]
  | cons x cs ih => rw [indices, endFrom, ih, utf8ByteSize_ofList_cons, Nat.add_assoc]

/-- The cursor stands where the scanner `s` does in the source, behind what has been `read` and
the `lexeme` under way. -/
structure At (source : String) (s : Scanner) (read lexeme : String) (c : Cursor σ) : Prop where
  reads : Scanner.Reads (.ofSource source) (read ++ lexeme).toList s
  source : c.source = source
  start : c.start = read.utf8ByteSize
  current : c.current = s.offset
  ahead : c.ahead = indices c.current s.rest
  line : c.line = s.line

variable {source read lexeme : String} {s t : Scanner}

lemma at_ofSource (source : String) :
    At source (.ofSource source) "" "" (ofSource source : Cursor σ) where
  reads := .refl _
  source := rfl
  start := rfl
  current := rfl
  ahead := Peeking.left_ofList _
  line := rfl

lemma At.text (h : At source s read lexeme c) : c.text = s.rest := by
  rw [Cursor.text, h.ahead, map_indices]

lemma At.source_eq (h : At source s read lexeme c) :
    source = read ++ lexeme ++ String.ofList s.rest := by
  rw [← String.toList_inj, String.toList_append, String.toList_ofList]
  exact h.reads.rest

lemma At.current_eq (h : At source s read lexeme c) :
    c.current = (read ++ lexeme).utf8ByteSize := by
  rw [h.current, h.reads.offset, String.ofList_toList]
  exact Nat.zero_add _

lemma At.begin (h : At source s read lexeme c) : At source s (read ++ lexeme) "" c.begin where
  reads := by simpa using h.reads
  source := h.source
  start := h.current_eq
  current := h.current
  ahead := h.ahead
  line := h.line

/-- The lexeme grows by what the cursor takes, if the scanner reads the same. -/
lemma At.takes {cs : List Char} {n : Nat} (h : At source s read lexeme c) (takes : Takes c cs n d)
    (reads : Scanner.Reads s cs t) (lines : n = cs.count '\n') :
    At source t read (lexeme ++ String.ofList cs) d := by
  obtain ⟨w, hw, ahead, current⟩ := takes.ahead
  rw [h.ahead, reads.rest, indices_append] at ahead
  have size : (indices c.current cs).length = w.length := by
    rw [← List.length_map (f := Prod.snd), map_indices, ← hw, List.length_map]
  obtain ⟨rfl, behind⟩ := List.append_inj ahead size
  have place : d.current = c.current + (String.ofList cs).utf8ByteSize := by
    rw [current, endFrom_indices]
  refine ⟨?_, takes.source.trans h.source, takes.start.trans h.start, ?_, ?_, ?_⟩
  · simpa [← String.append_assoc] using h.reads.trans reads
  · rw [place, h.current, reads.offset]
  · rw [place, behind]
  · rw [takes.line, h.line, lines, reads.line]

/-- **The lexeme** is what has been taken since it began. -/
theorem At.lexeme_eq (h : At source s read lexeme c) : c.lexeme = .ok lexeme := by
  rw [Cursor.lexeme, h.source, h.start, h.current_eq, h.source_eq]
  exact slice_append read lexeme _

/-- What stands between the quotes. -/
lemma slice_quoted (body : String) :
    slice ("\"" ++ body ++ "\"") 1 (("\"" ++ body ++ "\"").utf8ByteSize - 1) = .ok body := by
  have last : ("\"" ++ body ++ "\"").utf8ByteSize - 1 = ("\"" ++ body).utf8ByteSize := by
    rw [String.utf8ByteSize_append]
    exact Nat.add_sub_cancel _ _
  rw [last]
  exact slice_append "\"" body "\""

lemma two_le_quoted (body : String) : 2 ≤ ("\"" ++ body ++ "\"").utf8ByteSize := by
  have quote : "\"".utf8ByteSize = 1 := by decide
  rw [String.utf8ByteSize_append, String.utf8ByteSize_append, quote]
  omega

lemma numberOf_chars {whole fraction : List Char} (hp : (Piece.number whole fraction).Proper) :
    numberOf (String.ofList (Piece.number whole fraction).chars) =
      (Numeral.ofDigits whole fraction).read := by
  have digits := hp.2.1
  have stops : ∀ x ∈ (if fraction.isEmpty then [] else '.' :: fraction).head?, ¬ x.isDigit := by
    cases fraction with
    | nil => simp
    | cons y ys => simp [show ¬ ('.').isDigit by decide]
  rw [numberOf, String.toList_ofList, Piece.chars, Piece.takeWhile_append_stop digits stops,
    Piece.dropWhile_append_stop digits stops]
  cases fraction <;> rfl

/-- Behind a piece, the cursor makes of it what the scanner does. -/
theorem At.item?_eq {p : Piece} {line : Nat} (h : At source s read (String.ofList p.chars) c)
    (hp : p.Proper) (lines : c.line = line + p.newlines) :
    c.item? line p.shape = .ok (p.item? line) := by
  have text := h.lexeme_eq
  cases p with
  | blank => rfl
  | comment => rfl
  | mark | word =>
    simp only [Piece.shape, item?, text]
    rfl
  | number whole fraction =>
    simp only [Piece.shape, item?, text, bind, Except.bind, numberOf_chars hp]
    rfl
  | string body =>
    have quoted : String.ofList (Piece.string body).chars = "\"" ++ String.ofList body ++ "\"" := by
      rw [← String.toList_inj]
      simp [Piece.chars]
    rw [quoted] at text
    simp only [Piece.shape, item?, text, bind, Except.bind, slice_quoted]
    rw [← quoted]
    rfl
  | openString body =>
    simp only [Piece.shape, item?, lines]
    rfl
  | stray x =>
    rw [hp.newlines_eq_zero trivial] at lines
    simp only [Piece.shape, item?, lines]
    rfl

/-- A step of the scanner: the cursor begins a lexeme, takes a character, and passes over the
piece that it begins. -/
lemma At.step {p : Piece} (h : At source s read lexeme c) (hs : s.step = some (p, t)) :
    ∃ x d, c.begin.advance = (some x, d) ∧ (d.pass x).1 = p.shape ∧
      At source t (read ++ lexeme) (String.ofList p.chars) (d.pass x).2 := by
  have begun := h.begin
  obtain ⟨reads, -, -⟩ := Scanner.step_spec hs
  have text := begun.text
  unfold Scanner.step at hs
  split at hs
  · cases hs
  · next y ys hrest =>
    obtain ⟨rfl, rfl⟩ : (Piece.cut y ys).1 = p ∧ _ = t := by simpa using hs
    rw [hrest] at text
    rcases ha : c.begin.advance with ⟨o, d⟩
    obtain ⟨head, first⟩ := advance_spec ha
    obtain rfl : o = some y := by simpa [text] using head
    have left : d.text = ys := first.text_of_append text
    obtain ⟨shape, cs, chars, past⟩ := passes_pass y d
    rw [left] at shape chars past
    refine ⟨y, d, rfl, shape, ?_⟩
    have taken := first.trans past
    rw [Option.toList_some, List.singleton_append, ← chars, Nat.zero_add] at taken
    simpa using begun.takes taken reads rfl

lemma next_of_none (h : c.begin.advance = (none, d)) : c.next = .ok (none, d) := by
  rw [Cursor.next]
  split
  · next h' =>
    obtain ⟨-, rfl⟩ := Prod.mk.inj (h.symm.trans h')
    rfl
  · next h' => cases h.symm.trans h'

lemma next_of_some {x : Char} (h : c.begin.advance = (some x, d)) :
    c.next = (do
      match ← (d.pass x).2.item? c.line (d.pass x).1 with
      | some i => return (some i, (d.pass x).2)
      | none => (d.pass x).2.next) := by
  rw [Cursor.next]
  split
  · next h' => cases h.symm.trans h'
  · next h' =>
    obtain ⟨same, rfl⟩ := Prod.mk.inj (h.symm.trans h')
    obtain rfl := Option.some.inj same
    rfl

lemma next_of_item {x : Char} {i : Item} (h : c.begin.advance = (some x, d))
    (hi : (d.pass x).2.item? c.line (d.pass x).1 = .ok (some i)) :
    c.next = .ok (some i, (d.pass x).2) := by
  rw [next_of_some h, hi]
  rfl

lemma next_of_skip {x : Char} (h : c.begin.advance = (some x, d))
    (hi : (d.pass x).2.item? c.line (d.pass x).1 = .ok none) :
    c.next = (d.pass x).2.next := by
  rw [next_of_some h, hi]
  rfl

/-- **In step**: no slice fails, the cursor gives the item that the scanner gives, and it stands
where the scanner does then. The lexeme under way is the text of the item. -/
theorem At.next {s : Scanner} {read lexeme : String} {c : Cursor σ}
    (h : At source s read lexeme c) :
    ∃ d skipped lexeme', c.next = .ok (s.next.1, d) ∧
      At source s.next.2 (read ++ lexeme ++ skipped) lexeme' d ∧
      ∀ i, s.next.1 = some i → ∃ (p : Piece) (line : Nat),
        p.Proper ∧ lexeme' = String.ofList p.chars ∧ p.item? line = some i := by
  match hs : s.step with
  | none =>
    have begun := h.begin
    have ended : c.begin.text = [] := begun.text.trans (Scanner.step_eq_none.mp hs)
    rcases ha : c.begin.advance with ⟨o, d⟩
    obtain ⟨head, stays⟩ := advance_spec ha
    obtain rfl : o = none := by simpa [ended] using head
    rw [Scanner.next_of_none hs]
    refine ⟨d, "", "", next_of_none ha, ?_, nofun⟩
    simpa using begun.takes stays (.refl s) rfl
  | some (p, t) =>
    obtain ⟨x, d, first, shape, past⟩ := h.step hs
    obtain ⟨reads, proper, -⟩ := Scanner.step_spec hs
    have lines : (d.pass x).2.line = s.line + p.newlines := by
      rw [past.line, reads.line]
      rfl
    have item := past.item?_eq proper lines
    rw [← shape, ← h.line] at item
    match hi : p.item? s.line with
    | some i =>
      rw [h.line, hi] at item
      rw [Scanner.next_of_item hs hi]
      refine ⟨_, "", _, next_of_item first (h.line ▸ item), by simpa using past, fun j hj => ?_⟩
      obtain rfl : i = j := Option.some.inj hj
      exact ⟨p, s.line, proper, rfl, hi⟩
    | none =>
      rw [h.line, hi] at item
      obtain ⟨e, skipped, lexeme', next, place, text⟩ := past.next
      rw [Scanner.next_of_skip hs hi]
      refine ⟨e, String.ofList p.chars ++ skipped, lexeme',
        (next_of_skip first (h.line ▸ item)).trans next, ?_, text⟩
      simpa [String.append_assoc] using place
termination_by s.rest.length
decreasing_by exact Scanner.length_rest_step_lt hs

theorem At.behind (h : At source s read lexeme c) (n : Nat) :
    ∃ d read' lexeme', c.behind n = .ok d ∧ At source (s.behind n) read' lexeme' d := by
  induction n with
  | zero => exact ⟨c, read, lexeme, rfl, h⟩
  | succ n ih =>
    obtain ⟨d, read', lexeme', behind, place⟩ := ih
    obtain ⟨e, skipped, lexeme'', next, place', -⟩ := place.next
    rw [s.behind_succ]
    exact ⟨e, read' ++ lexeme' ++ skipped, lexeme'', behind_succ behind next, place'⟩

lemma At.start_valid (h : At source s read lexeme c) :
    (⟨c.start⟩ : String.Pos.Raw).IsValid source := by
  rw [h.start, h.source_eq, String.append_assoc]
  exact isValid_append read _

lemma At.current_valid (h : At source s read lexeme c) :
    (⟨c.current⟩ : String.Pos.Raw).IsValid source := by
  rw [h.current_eq, h.source_eq]
  exact isValid_append (read ++ lexeme) _

lemma At.start_le (h : At source s read lexeme c) : c.start ≤ c.current := by
  rw [h.start, h.current_eq, String.utf8ByteSize_append]
  exact Nat.le_add_right _ _

end Cursor

namespace Piece

variable {p : Piece} {line : Nat} {t : Token}

lemma lexeme_of_item (hi : p.item? line = some (.token t)) : t.lexeme = String.ofList p.chars := by
  cases p <;> cases hi <;> rfl

lemma quoted_of_item (hp : p.Proper) (hi : p.item? line = some (.token t))
    (ht : t.kind = .string) :
    ∃ body : String, t.lexeme = "\"" ++ body ++ "\"" ∧ '"' ∉ body.toList ∧
      t.literal = some (.text body) := by
  obtain ⟨spells, -⟩ := spells_of_item hp hi
  rw [ht] at spells
  generalize text : t.lexeme.toList = w at spells
  generalize t.literal = literal at spells
  cases spells with
  | @string body closed =>
    refine ⟨String.ofList body, ?_, by simpa using closed, rfl⟩
    rw [← String.toList_inj, text]
    simp

end Piece

/-- **No slice goes wrong**: a cursor that has been asked for some items stands between characters,
and so does the beginning of its lexeme. Its offset is the size of what has been taken, and that of
the next character; its line counts the newlines there; and the lexeme is what lies between its two
offsets. Asked again it gives the item that the scanner gives, and no slice fails, neither of
the lexeme nor of what stands between the quotes of a string. -/
theorem cursor_slices_exact {σ : Type} [Peeking σ (Nat × Char)] (source : String) (k : Nat) :
    let s := (Scanner.ofSource source).behind k
    ∃ (c : Cursor σ) (read lexeme : String),
      (Cursor.ofSource source).behind k = .ok c ∧
      source = read ++ lexeme ++ String.ofList s.rest ∧
      c.start = read.utf8ByteSize ∧ c.current = (read ++ lexeme).utf8ByteSize ∧
      (⟨c.start⟩ : String.Pos.Raw).IsValid source ∧
      (⟨c.current⟩ : String.Pos.Raw).IsValid source ∧
      c.start ≤ c.current ∧ c.current ≤ source.utf8ByteSize ∧
      c.ahead = Cursor.indices c.current s.rest ∧
      c.line = 1 + (read ++ lexeme).toList.count '\n' ∧
      c.lexeme = .ok lexeme ∧
      c.current = s.offset ∧ c.line = s.line ∧
      ∃ d : Cursor σ, c.next = .ok (s.next.1, d) ∧
        (Cursor.ofSource source).behind (k + 1) = .ok d ∧ c.current ≤ d.start ∧
        ∀ t, s.next.1 = some (.token t) → d.lexeme = .ok t.lexeme ∧
          (t.kind = .string → ∃ body : String,
            t.lexeme = "\"" ++ body ++ "\"" ∧ '"' ∉ body.toList ∧
            2 ≤ t.lexeme.utf8ByteSize ∧
            slice t.lexeme 1 (t.lexeme.utf8ByteSize - 1) = .ok body ∧
            t.literal = some (.text body)) := by
  intro s
  have origin : Cursor.At source _ "" "" (Cursor.ofSource source : Cursor σ) :=
    Cursor.at_ofSource source
  obtain ⟨c, read, lexeme, behind, place⟩ := origin.behind k
  obtain ⟨d, skipped, lexeme', next, place', text⟩ := place.next
  refine ⟨c, read, lexeme, behind, place.source_eq, place.start, place.current_eq,
    place.start_valid, place.current_valid, place.start_le, place.current_valid.le_utf8ByteSize,
    place.ahead, place.line.trans place.reads.line, place.lexeme_eq, place.current, place.line,
    d, next, Cursor.behind_succ behind next, ?_, fun t ht => ?_⟩
  · rw [place.current_eq, place'.start, String.utf8ByteSize_append (s := read ++ lexeme)]
    exact Nat.le_add_right _ _
  · obtain ⟨p, line, proper, rfl, item⟩ := text _ ht
    rw [place'.lexeme_eq, Piece.lexeme_of_item item]
    refine ⟨rfl, fun string => ?_⟩
    obtain ⟨body, quoted, closed, literal⟩ := Piece.quoted_of_item proper item string
    rw [← Piece.lexeme_of_item item, quoted]
    exact ⟨body, rfl, closed, Cursor.two_le_quoted body, Cursor.slice_quoted body, literal⟩

/-- A string over two lines, between characters of two, three and four bytes. -/
theorem cursor_slices_exact_between_wide_characters :
    let source := "é\"ü\n\"€ 1.😀"
    ∃ c : Cursor (Buffered (Nat × Char)), (Cursor.ofSource source).behind 2 = .ok c ∧
      c.start = 2 ∧ c.current = 7 ∧ c.line = 2 ∧ c.lexeme = .ok "\"ü\n\"" ∧
      (⟨c.current⟩ : String.Pos.Raw).IsValid source := by
  intro source
  have places : ((Cursor.ofSource source : Cursor (Buffered (Nat × Char))).behind 2).toOption.map
      (fun c => (c.start, c.current, c.line, c.lexeme.toOption)) =
        some (2, 7, 2, some "\"ü\n\"") := by
    decide +kernel
  obtain ⟨c, -, lexeme, behind, -, -, -, -, valid, -, -, -, -, slice, -⟩ :=
    @cursor_slices_exact (Buffered (Nat × Char)) _ source 2
  rw [behind] at places
  simp only [Except.toOption, Option.map_some, Option.some.injEq, Prod.mk.injEq, slice] at places
  obtain ⟨start, current, line, rfl⟩ := places
  exact ⟨c, behind, start, current, line, slice, valid⟩

end LoxLexer
