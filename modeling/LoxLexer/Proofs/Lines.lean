import LoxLexer.Proofs.Reading

/-!
Lines.

The scanner counts newlines as it reads them, so the line of an item follows from where its
text stands in the source: `Item.PlacedIn`. A string that nothing closes is the last item, and
is reported on the last line.
-/

namespace LoxLexer

/-- The item's text stands in the source between `before` and `after`, and its line is the one
that this place calls for. -/
def Item.PlacedIn (source before after : List Char) : Item → Prop
  | token t =>
    source = before ++ t.lexeme.toList ++ after ∧ t.line = 1 + before.count '\n'
  | error ⟨.unexpectedCharacter c, line⟩ =>
    source = before ++ [c] ++ after ∧ line = 1 + before.count '\n'
  | error ⟨.unterminatedString, line⟩ =>
    (∃ body, '"' ∉ body ∧ source = before ++ '"' :: body) ∧ after = [] ∧
      line = 1 + source.count '\n'

namespace Piece

lemma placed_item {source before after : List Char} {p : Piece} {i : Item} (hp : p.Proper)
    (hr : p.Stops after) (place : source = before ++ p.chars ++ after)
    (hi : p.item? (1 + before.count '\n') = some i) : i.PlacedIn source before after := by
  cases p with
  | blank => cases hi
  | comment => cases hi
  | mark | word | number | string =>
    cases hi
    exact ⟨by simpa using place, rfl⟩
  | openString body =>
    cases hi
    have hr : after = [] := hr
    subst hr
    refine ⟨⟨body, hp, by simpa [chars] using place⟩, rfl, ?_⟩
    simp [place, newlines, Nat.add_assoc]
  | stray c =>
    cases hi
    exact ⟨place, rfl⟩

lemma line_item {line : Nat} {p : Piece} {i : Item} (hi : p.item? line = some i) :
    line ≤ i.line ∧ i.line ≤ line + p.newlines := by
  cases p <;> cases hi <;> simp [Item.line]

lemma line_itemsFrom {line : Nat} {ps : List Piece} {i : Item} (hi : i ∈ itemsFrom line ps) :
    line ≤ i.line ∧ i.line ≤ line + (ps.flatMap chars).count '\n' := by
  induction ps generalizing line with
  | nil => simp [itemsFrom] at hi
  | cons p ps ih =>
    rw [itemsFrom, List.mem_append] at hi
    rw [List.flatMap_cons, List.count_append]
    rcases hi with hi | hi
    · have := line_item (Option.mem_toList.mp hi)
      rw [newlines] at this
      omega
    · have := ih hi
      rw [newlines] at this
      omega

lemma pairwise_itemsFrom (line : Nat) (ps : List Piece) :
    (itemsFrom line ps).Pairwise fun i j => i.line ≤ j.line := by
  induction ps generalizing line with
  | nil => exact .nil
  | cons p ps ih =>
    rw [itemsFrom, List.pairwise_append]
    refine ⟨by cases p.item? line <;> simp, ih _, fun i hi j hj => ?_⟩
    have first := line_item (Option.mem_toList.mp hi)
    have later := line_itemsFrom hj
    omega

end Piece

namespace Scanner

/-- Each item is given with the scanner behind its text. -/
theorem placed_of_yields {source : String} {is js : List Item} {i : Item} {stop : Scanner}
    (h : Yields (ofSource source) (is ++ i :: js) stop) :
    ∃ before s, Yields (ofSource source) (is ++ [i]) s ∧ Yields s js stop ∧
      i.PlacedIn source.toList before s.rest := by
  obtain ⟨s, his, hs⟩ := h.split
  cases hs with
  | @cons _ t _ _ _ first tail =>
    obtain ⟨read, hread⟩ := his.reads
    obtain ⟨skipped, u, p, hu, step, item⟩ := next_some first
    obtain ⟨piece, proper, stops⟩ := step_spec step
    have before := hread.trans hu
    refine ⟨read ++ skipped, t, his.append (.cons first .nil), tail, ?_⟩
    refine Piece.placed_item proper stops ?_ ?_
    · have place : source.toList = read ++ skipped ++ u.rest := before.rest
      rw [place, piece.rest, ← List.append_assoc]
    · have line : u.line = 1 + (read ++ skipped).count '\n' := before.line
      rwa [line] at item

end Scanner

/-- **Exact lines**: every item stands where its line says, the end of the file is on the last
line, and only the last item can be a string that nothing closes. -/
theorem lines_exact {ρ : Type} [Reporter ρ] (source : String) (r : ρ) :
    (Scanner.ofSource source).Gives (itemsOf source) ∧
    (∀ is i js, itemsOf source = is ++ i :: js → ∃ before s,
      (Scanner.ofSource source).Yields (is ++ [i]) s ∧
        i.PlacedIn source.toList before s.rest) ∧
    (scan source r).tokens.toList =
      (itemsOf source).filterMap Item.token? ++ [.endOfFile (1 + source.toList.count '\n')] ∧
    errorsOf source = (itemsOf source).filterMap Item.error? ∧
    (∀ is d js, itemsOf source = is ++ .error d :: js → d.fault = .unterminatedString →
      js = [] ∧ d.line = 1 + source.toList.count '\n') ∧
    ((itemsOf source).map Item.line ++ [1 + source.toList.count '\n']).Pairwise (· ≤ ·) := by
  obtain ⟨stop, yields, ends⟩ := gives_itemsOf source
  refine ⟨⟨stop, yields, ends⟩, fun is i js h => ?_, tokens_scan source r, errorsOf_eq source,
    fun is d js h hd => ?_, ?_⟩
  · obtain ⟨before, s, hs, -, place⟩ := Scanner.placed_of_yields (h ▸ yields)
    exact ⟨before, s, hs, place⟩
  · obtain ⟨before, s, -, later, place⟩ := Scanner.placed_of_yields (h ▸ yields)
    obtain ⟨fault, line⟩ := d
    obtain rfl : fault = .unterminatedString := hd
    obtain ⟨-, behind, hline⟩ := place
    exact ⟨later.eq_nil_of_rest behind, hline⟩
  · obtain ⟨ps, hps⟩ := Piece.exists_cuts source.toList
    have items : itemsOf source = Piece.itemsFrom 1 ps := Scanner.items_eq hps
    rw [items, List.pairwise_append, List.pairwise_map, ← hps.flatMap_chars]
    refine ⟨Piece.pairwise_itemsFrom 1 ps, by simp, ?_⟩
    rintro line hline last hlast
    obtain ⟨i, hi, rfl⟩ := List.mem_map.mp hline
    obtain rfl : last = _ := List.mem_singleton.mp hlast
    exact (Piece.line_itemsFrom hi).2

end LoxLexer
