import LoxLexer.Proofs.Cutting

/-!
Sources that are edited piece by piece.

An edit takes comments out, blanks stray characters and writes numbers in another way. A piece
sees two characters of what follows it at most, and to these an edited text is like the text
before, `Echoes`. So an edited source is cut into the edited pieces, `Edits.cuts`.
-/

namespace LoxLexer

namespace Piece

/-- What becomes of pieces when their source is edited. -/
inductive Edits : List Piece → List Piece → Prop where
  | nil : Edits [] []
  | keep (p : Piece) {ps qs} (tail : Edits ps qs) : Edits (p :: ps) (p :: qs)
  | drop (body : List Char) {ps qs} (tail : Edits ps qs) : Edits (comment body :: ps) qs
  | space (c : Char) {ps qs} (tail : Edits ps qs) : Edits (stray c :: ps) (blank ' ' :: qs)
  /-- A point that follows must not become the number's own, so there is one in it. -/
  | respell (whole fraction : List Char) {whole' fraction' ps qs}
    (proper : (number whole' fraction').Proper) (point : fraction' ≠ []) (tail : Edits ps qs) :
    Edits (number whole fraction :: ps) (number whole' fraction' :: qs)

lemma Edits.refl (ps : List Piece) : Edits ps ps := by
  induction ps with
  | nil => exact .nil
  | cons p ps ih => exact .keep p ih

/-- To a piece in front of it `v` looks like `u`, or it begins with a blank. -/
structure Echoes (u v : List Char) : Prop where
  nil : u = [] → v = []
  newline : '\n' ∈ u.head? → '\n' ∈ v.head?
  head : ∀ c ∈ v.head?, c.isWhitespace ∨ ∃ d ∈ u.head?, d = c ∨ d.isDigit ∧ c.isDigit
  point : ∀ c, ['.', c] <+: v → c.isDigit → ∃ d, ['.', d] <+: u ∧ d.isDigit

lemma Stops.echo {p : Piece} {u v : List Char} (hp : p.Stops u) (h : Echoes u v) :
    p.Stops v := by
  have plain {c d : Char} (hc : c ∈ v.head?) (hd : c = d) (other : ¬ d.isWhitespace)
      (letter : ¬ d.isDigit) : c ∈ u.head? := by
    subst hd
    rcases h.head c hc with blank | ⟨d, hd, rfl | ⟨-, digit⟩⟩
    · exact absurd blank other
    · exact hd
    · exact absurd digit letter
  cases p with
  | comment =>
    intro c hc
    cases u with
    | nil => simp [h.nil rfl] at hc
    | cons d u =>
      have line : d = '\n' := hp d rfl
      have : '\n' ∈ v.head? := h.newline (by simp [line])
      exact Option.mem_unique hc this
  | mark m =>
    rintro c hc (⟨rfl, more⟩ | ⟨rfl, more⟩)
    · exact hp _ (plain hc rfl (by decide) (by decide)) (Or.inl ⟨rfl, more⟩)
    · exact hp _ (plain hc rfl (by decide) (by decide)) (Or.inr ⟨rfl, more⟩)
  | word =>
    intro c hc part
    rcases h.head c hc with blank | ⟨d, hd, rfl | ⟨digit, -⟩⟩
    · exact not_isWordPart_of_isWhitespace blank part
    · exact hp d hd part
    · exact hp d hd (by simp [isWordPart, digit])
  | number whole fraction =>
    refine ⟨fun c hc digit => ?_, fun none d hd digit => ?_⟩
    · rcases h.head c hc with blank | ⟨d, hd, rfl | ⟨digit', -⟩⟩
      · exact not_isWhitespace_of_isDigit digit blank
      · exact hp.1 d hd digit
      · exact hp.1 d hd digit'
    · obtain ⟨e, he, digit'⟩ := h.point d hd digit
      exact hp.2 none e he digit'
  | openString => exact h.nil hp
  | blank => trivial
  | string => trivial
  | stray => trivial

namespace Echoes

variable {u v : List Char}

lemma refl (u : List Char) : Echoes u u :=
  ⟨id, id, fun c hc => Or.inr ⟨c, hc, Or.inl rfl⟩, fun c hc digit => ⟨c, hc, digit⟩⟩

lemma append {w : List Char} (ne : w ≠ []) (h : Echoes u v) : Echoes (w ++ u) (w ++ v) := by
  obtain ⟨c, w, rfl⟩ := List.exists_cons_of_ne_nil ne
  refine ⟨by simp, id, fun d hd => Or.inr ⟨d, hd, Or.inl rfl⟩, fun d hd digit => ?_⟩
  cases w with
  | cons e w =>
    have : ['.', d] <+: c :: e :: w ++ u := by
      simpa [List.cons_prefix_cons] using hd
    exact ⟨d, this, digit⟩
  | nil =>
    -- the point stands alone, so the digit is the first character of `v`
    obtain ⟨rfl, first⟩ : '.' = c ∧ [d] <+: v := by simpa [List.cons_prefix_cons] using hd
    have first : d ∈ v.head? := head?_of_isPrefix first rfl
    rcases h.head d first with blank | ⟨e, he, same⟩
    · exact absurd blank (not_isWhitespace_of_isDigit digit)
    · have digit : e.isDigit := by
        rcases same with rfl | ⟨digit, -⟩
        · exact digit
        · exact digit
      obtain ⟨u, rfl⟩ := List.head?_eq_some_iff.mp (Option.mem_def.mp he)
      exact ⟨e, ⟨u, rfl⟩, digit⟩

/-- Other text in its place can begin with a space. -/
lemma space {c : Char} (hc : c ≠ '\n') : Echoes (c :: u) (' ' :: v) where
  nil h := by cases h
  newline h := absurd (Option.some.inj h) hc
  head d hd := by
    obtain rfl : ' ' = d := Option.some.inj hd
    exact Or.inl (by decide)
  point d hd := by simp [List.cons_prefix_cons] at hd

/-- One digit is like another. -/
lemma digit {c d : Char} (hc : c.isDigit) (hd : d.isDigit) : Echoes (c :: u) (d :: v) where
  nil h := by cases h
  newline h := by
    obtain rfl : c = '\n' := Option.some.inj h
    exact absurd hc (by decide)
  head e he := by
    obtain rfl : d = e := Option.some.inj he
    exact Or.inr ⟨c, rfl, Or.inr ⟨hc, hd⟩⟩
  point e he := by
    obtain ⟨rfl, -⟩ : '.' = d ∧ [e] <+: v := by simpa [List.cons_prefix_cons] using he
    exact absurd hd (by decide)

/-- The end of a line shows when the comment before it is gone. -/
lemma comment {body : List Char} (hv : (comment body).Stops v) :
    Echoes ('/' :: u) v where
  nil h := by cases h
  newline h := absurd (Option.some.inj h) (by decide)
  head c hc := by
    obtain rfl : c = '\n' := hv c hc
    exact Or.inl (by decide)
  point c hc := by
    have : '.' = '\n' := hv '.' (head?_of_isPrefix hc rfl)
    exact absurd this (by decide)

end Echoes

lemma exists_digit_of_number {whole fraction : List Char} (hp : (number whole fraction).Proper)
    (rest : List Char) :
    ∃ d cs, (number whole fraction).chars ++ rest = d :: cs ∧ d.isDigit := by
  obtain ⟨ne, digits, -⟩ := hp
  obtain ⟨d, ds, rfl⟩ := List.exists_cons_of_ne_nil ne
  exact ⟨d, _, rfl, digits d (by simp)⟩

/-- **Editing**: the edited pieces are those that the edited source is cut into. -/
theorem Edits.cuts {ps qs : List Piece} (h : Edits ps qs) {cs : List Char} (hps : Cuts cs ps) :
    Cuts (qs.flatMap chars) qs ∧ Echoes cs (qs.flatMap chars) := by
  induction h generalizing cs with
  | nil =>
    cases hps
    exact ⟨.nil, .refl []⟩
  | keep p _ ih =>
    cases hps with
    | cons proper stops tail =>
      obtain ⟨cuts, echoes⟩ := ih tail
      exact ⟨.cons proper (stops.echo echoes) cuts, echoes.append proper.chars_ne_nil⟩
  | drop body _ ih =>
    cases hps with
    | cons proper stops tail =>
      obtain ⟨cuts, echoes⟩ := ih tail
      exact ⟨cuts, .comment (stops.echo echoes)⟩
  | space c _ ih =>
    cases hps with
    | cons proper stops tail =>
      have line : c ≠ '\n' := by
        rintro rfl
        exact proper.1 (by decide)
      have space : (blank ' ').Proper := by simp [Proper]
      exact ⟨.cons space trivial (ih tail).1, .space line⟩
  | respell whole fraction proper' point _ ih =>
    cases hps with
    | cons proper stops tail =>
      obtain ⟨cuts, echoes⟩ := ih tail
      have stops' := stops.echo echoes
      obtain ⟨c, cs, hcs, hc⟩ := exists_digit_of_number proper _
      obtain ⟨d, ds, hds, hd⟩ := exists_digit_of_number proper' _
      refine ⟨.cons proper' ⟨stops'.1, fun none => absurd none point⟩ cuts, ?_⟩
      rw [List.flatMap_cons, hcs, hds]
      exact .digit hc hd

end Piece

end LoxLexer
