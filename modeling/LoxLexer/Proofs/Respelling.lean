import LoxLexer.Proofs.Editing
import LoxLexer.Proofs.LineBreak
import LoxLexer.Proofs.Number.ReadBack

/-!
The display of a number is a number of the same value.

It consists of digits on either side of a point, `display_number`, so a scan finds one number
in it, and the digits read back. In a source it can stand in the place of the number that it
displays.
-/

namespace LoxLexer

/-- What is shown for a double without a sign is the text of a number that is read as it. -/
theorem display_number {x : Binary64} (finite : x.isFinite) (positive : x.negative = false) :
    ∃ whole fraction, (Piece.number whole fraction).Proper ∧ fraction ≠ [] ∧
      (Literal.number x).display.toList = (Piece.number whole fraction).chars ∧
      (Numeral.ofDigits whole fraction).read = x := by
  have plain : Literal.style.numeral x =
      (Literal.style.decimal x).positional false := by
    rw [← positive]
    rfl
  have same : (Literal.style.numeral x).read = x := Literal.style.read_numeral finite
  obtain ⟨sign, power, whole, fraction, digits, digits', -⟩ :=
    (Literal.style.decimal x).positional_spec false
  rw [plain] at same
  have text : (Literal.number x).display =
      ((Literal.style.decimal x).positional false).text := by
    rw [Literal.display, if_pos finite, plain]
  generalize (Literal.style.decimal x).positional false = n at *
  obtain ⟨negative, ds, fs, exponent⟩ := n
  obtain rfl : negative = false := sign
  obtain rfl : exponent = none := power
  refine ⟨ds, fs, ⟨whole, digits, digits'⟩, fraction, ?_, same⟩
  rw [text]
  simp [Numeral.text, Numeral.chars, Piece.chars]

namespace Piece

lemma newlines_number {whole fraction : List Char} (hp : (number whole fraction).Proper) :
    (number whole fraction).newlines = 0 :=
  hp.newlines_eq_zero trivial

/-- Of the pieces `ps`, those in `us` give the items `is`, `p` gives `i`, and `vs` give `js`. -/
structure Split (line : Nat) (ps : List Piece) (is : List Item) (i : Item) (js : List Item)
    (us : List Piece) (p : Piece) (vs : List Piece) : Prop where
  pieces : ps = us ++ p :: vs
  before : itemsFrom line us = is
  item : p.item? (line + (us.flatMap chars).count '\n') = some i
  behind : itemsFrom (line + (us.flatMap chars).count '\n' + p.newlines) vs = js

lemma Split.items {line : Nat} {p : Piece} {ps us vs : List Piece} {is js : List Item} {i : Item}
    (h : Split line ps is i js us p vs) : itemsFrom line ps = is ++ i :: js := by
  rw [h.pieces, itemsFrom_append, itemsFrom, h.before, h.item, h.behind]
  rfl

lemma Split.cons {line : Nat} {q p : Piece} {ps us vs : List Piece} {is js : List Item} {i : Item}
    (h : Split (line + q.newlines) ps is i js us p vs) :
    Split line (q :: ps) ((q.item? line).toList ++ is) i js (q :: us) p vs := by
  have lines : line + ((q :: us).flatMap chars).count '\n' =
      line + q.newlines + (us.flatMap chars).count '\n' := by
    rw [List.flatMap_cons, List.count_append, newlines, Nat.add_assoc]
  constructor
  · rw [h.pieces, List.cons_append]
  · rw [itemsFrom, h.before]
  · rw [lines, h.item]
  · rw [lines, h.behind]

lemma exists_split {line : Nat} {ps : List Piece} {is js : List Item} {i : Item}
    (h : itemsFrom line ps = is ++ i :: js) : ∃ us p vs, Split line ps is i js us p vs := by
  induction ps generalizing line is with
  | nil => simp [itemsFrom] at h
  | cons q ps ih =>
    rw [itemsFrom] at h
    cases hq : q.item? line with
    | none =>
      rw [hq] at h
      obtain ⟨us, p, vs, split⟩ := ih h
      have := split.cons
      rw [hq] at this
      exact ⟨q :: us, p, vs, this⟩
    | some j =>
      rw [hq] at h
      cases is with
      | nil =>
        obtain ⟨rfl, rest⟩ := List.cons.inj h
        exact ⟨[], q, ps, rfl, rfl, hq, rest⟩
      | cons k is =>
        obtain ⟨rfl, rest⟩ := List.cons.inj h
        obtain ⟨us, p, vs, split⟩ := ih rest
        have := split.cons
        rw [hq] at this
        exact ⟨q :: us, p, vs, this⟩

lemma number_of_item {line : Nat} {p : Piece} {t : Token} {x : Binary64}
    (hi : p.item? line = some (.token t)) (ht : t.literal = some (.number x)) :
    ∃ whole fraction, p = number whole fraction ∧
      t = ⟨.number, String.ofList (number whole fraction).chars, some (.number x), line⟩ ∧
      x.negative = false := by
  cases p <;> cases hi <;> cases ht
  exact ⟨_, _, rfl, rfl, rfl⟩

lemma edits_number (us vs : List Piece) (whole fraction : List Char)
    {whole' fraction' : List Char} (proper : (number whole' fraction').Proper)
    (point : fraction' ≠ []) :
    Edits (us ++ number whole fraction :: vs) (us ++ number whole' fraction' :: vs) := by
  induction us with
  | nil => exact .respell whole fraction proper point (.refl vs)
  | cons u us ih => exact .keep u ih

/-- Another number in the place of this one has its item there, and changes no other. -/
lemma Split.respell {line : Nat} {ps us vs : List Piece} {is js : List Item} {i : Item}
    {whole fraction whole' fraction' : List Char} {x : Binary64}
    (h : Split line ps is i js us (number whole fraction) vs)
    (old : (number whole fraction).Proper) (proper : (number whole' fraction').Proper)
    (same : (Numeral.ofDigits whole' fraction').read = x) :
    itemsFrom line (us ++ number whole' fraction' :: vs) =
      is ++ .token ⟨.number, String.ofList (number whole' fraction').chars, some (.number x),
        line + (us.flatMap chars).count '\n'⟩ :: js := by
  rw [itemsFrom_append, itemsFrom, h.before, newlines_number proper, ← newlines_number old,
    h.behind, ← same]
  rfl

end Piece

/-- A token with a literal is not the end of the file, so a piece of the source gives it. -/
lemma exists_split_of_token {ρ : Type} [Reporter ρ] {r : ρ} {source : String}
    {front back : List Token} {t : Token} (h : (scan source r).tokens.toList = front ++ t :: back)
    (ht : t.literal ≠ none) :
    ∃ is js us p vs, Piece.Split 1 (piecesOf source) is (.token t) js us p vs ∧
      is.filterMap Item.token? = front ∧
      js.filterMap Item.token? ++ [.endOfFile (1 + source.toList.count '\n')] = back := by
  rw [tokens_scan] at h
  obtain ⟨back', rfl, tokens⟩ :
      ∃ back', back = back' ++ [.endOfFile (1 + source.toList.count '\n')] ∧
        (itemsOf source).filterMap Item.token? = front ++ t :: back' := by
    rcases List.eq_nil_or_concat back with rfl | ⟨back', last, rfl⟩
    · obtain ⟨-, same⟩ := List.append_inj' h rfl
      obtain rfl : Token.endOfFile _ = t := (List.cons.inj same).1
      exact absurd rfl ht
    · rw [List.concat_eq_append] at h ⊢
      rw [← List.cons_append, ← List.append_assoc] at h
      obtain ⟨tokens, same⟩ := List.append_inj' h rfl
      exact ⟨back', by rw [same], tokens⟩
  obtain ⟨is, rest, items, front, tail⟩ := List.filterMap_eq_append_iff.mp tokens
  obtain ⟨skipped, i, js, rfl, none, token, back⟩ := List.filterMap_eq_cons_iff.mp tail
  obtain rfl : i = .token t := by
    cases i with
    | token u => exact congrArg Item.token (Option.some.inj token)
    | error d => cases token
  rw [itemsOf_eq, ← List.append_assoc] at items
  obtain ⟨us, p, vs, split⟩ := Piece.exists_split items
  refine ⟨_, js, us, p, vs, split, ?_, by rw [back]⟩
  rw [List.filterMap_append, front, List.filterMap_eq_nil_iff.mpr none, List.append_nil]

/-- What is shown for a double is one number. -/
lemma itemsOf_display {x : Binary64} (finite : x.isFinite) (positive : x.negative = false) :
    itemsOf (Literal.number x).display =
        [.token ⟨.number, (Literal.number x).display, some (.number x), 1⟩] ∧
      (Literal.number x).display.toList.count '\n' = 0 := by
  obtain ⟨whole, fraction, proper, -, chars, same⟩ := display_number finite positive
  have cuts : Piece.Cuts (Literal.number x).display.toList [.number whole fraction] := by
    rw [chars, ← List.append_nil (Piece.chars _)]
    exact .cons proper (Piece.stops_nil _) .nil
  have items : itemsOf (Literal.number x).display =
      Piece.itemsFrom 1 [.number whole fraction] := Scanner.items_eq cuts
  rw [items, ← String.ofList_toList (s := (Literal.number x).display), chars, ← same]
  exact ⟨rfl, by rw [String.toList_ofList]; exact Piece.newlines_number proper⟩

/-- A number of a source is written as it is shown: the text before and behind it stays, and so
do the other items. -/
lemma exists_respelled {source : String} {is js : List Item} {us vs : List Piece} {p : Piece}
    {t : Token} {x : Binary64}
    (split : Piece.Split 1 (piecesOf source) is (.token t) js us p vs)
    (ht : t.literal = some (.number x)) (finite : x.isFinite) :
    ∃ before after, source = before ++ t.lexeme ++ after ∧
      t.line = 1 + before.toList.count '\n' ∧
      itemsOf (before ++ (Literal.number x).display ++ after) =
        is ++ .token { t with lexeme := (Literal.number x).display } :: js ∧
      (before ++ (Literal.number x).display ++ after).toList.count '\n' =
        source.toList.count '\n' := by
  obtain ⟨whole, fraction, rfl, rfl, positive⟩ := Piece.number_of_item split.item ht
  obtain ⟨whole', fraction', proper, point, chars, same⟩ := display_number finite positive
  have cuts := cuts_piecesOf source
  rw [split.pieces] at cuts
  have old : (Piece.number whole fraction).Proper := cuts.proper_of_mem (by simp)
  have cuts' := ((Piece.edits_number us vs whole fraction proper point).cuts cuts).1
  refine ⟨String.ofList (us.flatMap Piece.chars), String.ofList (vs.flatMap Piece.chars),
    ?_, ?_, ?_, ?_⟩
  · rw [← String.toList_inj, ← cuts.flatMap_chars]
    simp
  · rw [String.toList_ofList]
  · have edited : Scanner.rest (.ofSource (String.ofList (us.flatMap Piece.chars) ++
        (Literal.number x).display ++ String.ofList (vs.flatMap Piece.chars))) =
        (us ++ Piece.number whole' fraction' :: vs).flatMap Piece.chars := by
      simp [Scanner.ofSource, chars]
    have items := split.respell old proper same
    rw [← chars, String.ofList_toList] at items
    rw [itemsOf, Scanner.items_eq (edited ▸ cuts')]
    exact items
  · have new_lines := Piece.newlines_number proper
    have old_lines := Piece.newlines_number old
    rw [Piece.newlines] at new_lines old_lines
    simp [← cuts.flatMap_chars, chars, new_lines, old_lines]

/-- **Respelling**: what is shown for a double is scanned as one number with this value. In a
source each number can be written as it is shown; its token keeps its value, and nothing else
changes. -/
theorem scan_display {ρ : Type} [Reporter ρ] (r : ρ) :
    (∀ x : Binary64, x.isFinite → x.negative = false →
      let text := (Literal.number x).display
      (scan text r).tokens.toList =
        [⟨.number, text, some (.number x), 1⟩, .endOfFile 1] ∧ errorsOf text = []) ∧
    (∀ (source : String) (front back : List Token) (t : Token) (x : Binary64),
      (scan source r).tokens.toList = front ++ t :: back → t.literal = some (.number x) →
      x.isFinite →
      let text := (Literal.number x).display
      ∃ before after, source = before ++ t.lexeme ++ after ∧
        t.line = 1 + before.toList.count '\n' ∧
        (scan (before ++ text ++ after) r).tokens.toList =
          front ++ { t with lexeme := text } :: back ∧
        errorsOf (before ++ text ++ after) = errorsOf source) := by
  constructor
  · intro x finite positive text
    obtain ⟨items, lines⟩ := itemsOf_display finite positive
    rw [tokens_scan, errorsOf_eq, items, lines]
    exact ⟨rfl, rfl⟩
  · intro source front back t x h ht finite text
    obtain ⟨is, js, us, p, vs, split, rfl, rfl⟩ := exists_split_of_token h (by simp [ht])
    obtain ⟨before, after, place, line, items, lines⟩ := exists_respelled split ht finite
    refine ⟨before, after, place, line, ?_, ?_⟩
    · rw [tokens_scan, items, lines, List.filterMap_append, List.append_assoc]
      rfl
    · rw [errorsOf_eq, errorsOf_eq, items, itemsOf_eq source, split.items,
        List.filterMap_append, List.filterMap_append]
      rfl

/-- A number with a zero too many, on the second line and in front of a point, is shown without
the zero. -/
theorem scan_display_of_fraction :
    let x := (Numeral.ofDigits ['1'] ['5', '0']).read
    let t : Token := ⟨.number, "1.50", some (.number x), 2⟩
    let front : List Token := [⟨.mark .minus, "-", none, 1⟩]
    let back : List Token := [⟨.mark .dot, ".", none, 2⟩, .endOfFile 2]
    x.isFinite ∧ x.negative = false ∧
    (scan "1.5" (#[] : Array Diagnostic)).tokens.toList =
      [⟨.number, "1.5", some (.number x), 1⟩, .endOfFile 1] ∧
    (scan "-\n1.50." (#[] : Array Diagnostic)).tokens.toList = front ++ t :: back ∧
    ∃ before after, "-\n1.50." = before ++ "1.50" ++ after ∧
      (scan (before ++ "1.5" ++ after) (#[] : Array Diagnostic)).tokens.toList =
        front ++ { t with lexeme := "1.5" } :: back := by
  intro x t front back
  have finite : x.isFinite := by decide +kernel
  have display : (Literal.number x).display = "1.5" := by decide +kernel
  have text : "-\n1.50.".toList = ['-', '\n', '1', '.', '5', '0', '.'] := by decide
  have cuts : Piece.Cuts ['-', '\n', '1', '.', '5', '0', '.']
      [.mark .minus, .blank '\n', .number ['1'] ['5', '0'], .mark .dot] := by
    refine .cons (p := .mark .minus) trivial ?_ (.cons (p := .blank '\n') ?_ trivial
      (.cons (p := .number ['1'] ['5', '0']) ?_ ?_
        (.cons (p := .mark .dot) trivial (Piece.stops_nil _) .nil)))
    · simp [Piece.Stops, Mark.Joins]
    · simp [Piece.Proper]
    · simp [Piece.Proper]
    · simp [Piece.Stops]
  have tokens : (scan "-\n1.50." (#[] : Array Diagnostic)).tokens.toList =
      front ++ t :: back := by
    rw [tokens_scan, itemsOf, Scanner.items_eq (text ▸ cuts)]
    rfl
  obtain ⟨shown, replaced⟩ := scan_display (#[] : Array Diagnostic)
  obtain ⟨before, after, place, -, scanned, -⟩ := replaced _ front back t x tokens rfl finite
  have alone := (shown x finite rfl).1
  rw [display] at alone scanned
  exact ⟨finite, rfl, alone, tokens, before, after, place, scanned⟩

end LoxLexer
