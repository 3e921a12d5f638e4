import LoxLexer.Proofs.Reading
import LoxLexer.Proofs.Spelling

/-!
The scanner takes the longest text of the grammar, wherever it stands.

A piece that stops is the longest one. A longer text would be a piece as well, and the shorter
piece would stop inside it, since it stops at whatever the rest begins with; but `cut` finds one
piece only.
-/

namespace LoxLexer

open Grammar

namespace Piece

theorem longest_of_stops {p : Piece} {rest : List Char} (hp : p.Proper) (hr : p.Stops rest) :
    Longest p.chars p.meaning (p.chars ++ rest) := by
  refine ⟨matches_iff.mpr ⟨p, hp, rfl, rfl⟩, List.prefix_append _ _, fun v n hv begins => ?_⟩
  obtain ⟨q, hq, rfl, -⟩ := matches_iff.mp hv
  rcases List.prefix_or_prefix_of_prefix begins (List.prefix_append p.chars rest) with h | h
  · exact h.length_le
  · -- `p` stops inside `q`, so `cut` would find both of them there
    obtain ⟨more, hmore⟩ := h
    have more_rest : more <+: rest := by
      rwa [← hmore, List.prefix_append_right_inj] at begins
    obtain ⟨c, cs, hc⟩ := List.exists_cons_of_ne_nil hq.chars_ne_nil
    have cut_q : cut c cs = (q, []) := cut_eq hq q.stops_nil (by simpa using hc)
    have cut_p : cut c cs = (p, more) := cut_eq hp (hr.mono more_rest) (by rw [hmore, hc])
    have : more = [] := congrArg Prod.snd (cut_p.symm.trans cut_q)
    simp [← hmore, this]

/-- What a piece adds to a text and what it means there. -/
def view (p : Piece) : List Char × Meaning := (p.chars, p.meaning)

lemma items_map_view (line : Nat) (ps : List Piece) :
    Grammar.items line (ps.map view) = itemsFrom line ps := by
  induction ps generalizing line with
  | nil => rfl
  | cons p ps ih =>
    rw [List.map_cons, view, Grammar.items, ih, itemsFrom, item?_eq]
    rfl

lemma Cuts.munched {cs : List Char} {ps : List Piece} (h : Cuts cs ps) :
    Munched cs (ps.map view) := by
  induction h with
  | nil => exact .nil
  | cons proper stops _ ih =>
    exact .cons proper.chars_ne_nil (longest_of_stops proper stops) ih

lemma Cuts.eq_of_munched {cs : List Char} {ps : List Piece} {texts : List (List Char × Meaning)}
    (hps : Cuts cs ps) (h : Munched cs texts) : texts = ps.map view := by
  induction h generalizing ps with
  | nil =>
    generalize hcs : ([] : List Char) = cs at hps
    cases hps with
    | nil => rfl
    | cons proper =>
      exact absurd (List.append_eq_nil_iff.mp hcs.symm).1 proper.chars_ne_nil
  | @cons w m rest texts ne first _ ih =>
    generalize hcs : w ++ rest = cs at hps
    cases hps with
    | nil => exact absurd (List.append_eq_nil_iff.mp hcs).1 ne
    | @cons p rest' ps proper stops tail =>
      obtain ⟨q, hq, rfl, rfl⟩ := matches_iff.mp first.text
      have longest := longest_of_stops proper stops
      have le := first.longest _ _ longest.text (hcs ▸ longest.begins)
      have ge := longest.longest _ _ first.text (hcs ▸ first.begins)
      obtain ⟨text, rfl⟩ := List.append_inj hcs (by omega)
      obtain rfl := hq.eq_of_chars proper text
      rw [ih tail, List.map_cons, view]

end Piece

/-- **Leftmost-longest**: a source is munched in one way, and the scanner gives the items of
its texts. -/
theorem scanner_gives_munched (source : String) :
    ∃ texts, Munched source.toList texts ∧
      (∀ others, Munched source.toList others → others = texts) ∧
      (Scanner.ofSource source).Gives (Grammar.items 1 texts) := by
  obtain ⟨ps, hps⟩ := Piece.exists_cuts source.toList
  refine ⟨ps.map Piece.view, hps.munched, fun others h => hps.eq_of_munched h, ?_⟩
  have items : itemsOf source = Piece.itemsFrom 1 ps := Scanner.items_eq hps
  rw [Piece.items_map_view, ← items]
  exact gives_itemsOf source

end LoxLexer
