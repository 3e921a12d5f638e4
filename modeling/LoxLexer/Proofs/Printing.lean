import LoxLexer.Proofs.Reading
import LoxLexer.Proofs.Spelling
import Mathlib.Data.List.Chain

/-!
Tokens as a source.

`print` writes tokens with blanks between them, so that each stands on its line. What a scan
finds is `WellFormed`, and well-formed tokens are what a scan of their print finds.
-/

namespace LoxLexer

def Token.newlines (t : Token) : Nat := t.lexeme.toList.count '\n'

/-- Tokens as they can follow each other in a source. -/
structure WellFormed (ts : List Token) : Prop where
  ends : ∃ front line, ts = front ++ [.endOfFile line] ∧
    ∀ t ∈ front, t.kind.Spells t.lexeme.toList t.literal
  first : ∀ t ∈ ts.head?, 1 ≤ t.line
  lines : ts.IsChain fun t u => t.line + t.newlines ≤ u.line

/-- The newlines that lead from one line to another, or a space if there are none. -/
def gap (line next : Nat) : List Char :=
  if line < next then List.replicate (next - line) '\n' else [' ']

/-- Tokens written from the given line on, up to the end of the file. -/
def printFrom (line : Nat) : List Token → List Char
  | [] => []
  | t :: ts =>
    if t.kind = .endOfFile then List.replicate (t.line - line) '\n'
    else gap line t.line ++ t.lexeme.toList ++ printFrom (t.line + t.newlines) ts

def print (ts : List Token) : String := String.ofList (printFrom 1 ts)

/-! ### What a scan finds is well formed -/

namespace Piece

lemma spells_of_item {p : Piece} {line : Nat} {t : Token} (hp : p.Proper)
    (hi : p.item? line = some (.token t)) :
    t.kind.Spells t.lexeme.toList t.literal ∧ t.line = line ∧ t.newlines = p.newlines := by
  rw [item?_eq] at hi
  have known : Grammar.Matches p.chars p.meaning := matches_iff.mpr ⟨p, hp, rfl, rfl⟩
  cases hm : p.meaning with
  | nothing => rw [hm] at hi; cases hi
  | fault f => rw [hm] at hi; cases f <;> cases hi
  | token kind literal =>
    rw [hm] at hi known
    obtain rfl : (⟨kind, String.ofList p.chars, literal, line⟩ : Token) = t := by
      simpa [Meaning.item?] using hi
    have spells := spells_of_matches known
    exact ⟨by simpa using spells, rfl, by simp [Token.newlines, newlines]⟩

lemma chain_of_cuts {cs : List Char} {ps : List Piece} (h : Cuts cs ps) (line : Nat) :
    let ts := (itemsFrom line ps).filterMap Item.token? ++ [.endOfFile (line + cs.count '\n')]
    (∀ t ∈ ts.head?, line ≤ t.line) ∧ ts.IsChain fun t u => t.line + t.newlines ≤ u.line := by
  induction h generalizing line with
  | nil => simp [itemsFrom, Token.endOfFile]
  | @cons p rest ps proper stops _ ih =>
    obtain ⟨first, chain⟩ := ih (line + p.newlines)
    rw [itemsFrom, List.filterMap_append, List.count_append, ← Nat.add_assoc]
    have later : ∀ t ∈ ((itemsFrom (line + p.newlines) ps).filterMap Item.token? ++
        [Token.endOfFile (line + p.newlines + rest.count '\n')]).head?, line ≤ t.line := by
      intro t ht
      have := first t ht
      omega
    -- a piece that is no token only moves the line on
    cases hi : p.item? line with
    | none => exact ⟨later, chain⟩
    | some i =>
      cases i with
      | error d => exact ⟨later, chain⟩
      | token t =>
        obtain ⟨-, rfl, newlines⟩ := spells_of_item proper hi
        refine ⟨by simp [Item.token?], ?_⟩
        exact List.isChain_cons.mpr ⟨fun u hu => newlines ▸ first u hu, chain⟩

end Piece

theorem wellFormed_scan {ρ : Type} [Reporter ρ] (source : String) (r : ρ) :
    WellFormed (scan source r).tokens.toList := by
  obtain ⟨ps, hps⟩ := Piece.exists_cuts source.toList
  have items : itemsOf source = Piece.itemsFrom 1 ps := Scanner.items_eq hps
  obtain ⟨first, chain⟩ := Piece.chain_of_cuts hps 1
  rw [tokens_scan, items]
  refine ⟨⟨_, _, rfl, fun t ht => ?_⟩, first, chain⟩
  obtain ⟨i, hi, token⟩ := List.mem_filterMap.mp ht
  cases i with
  | token u =>
    obtain rfl : u = t := by simpa [Item.token?] using token
    obtain ⟨p, hp, line, item⟩ := Piece.exists_of_mem_itemsFrom hi
    exact (Piece.spells_of_item (hps.proper_of_mem hp) item).1
  | error d => cases token

/-! ### Well-formed tokens are found again -/

namespace Piece

/-- Only comments and open strings go on behind a blank. -/
lemma stops_of_blank {p : Piece} {kind : Kind} {literal : Option Literal} {rest : List Char}
    (hm : p.meaning = .token kind literal) (blank : ∀ c ∈ rest.head?, c.isWhitespace) :
    p.Stops rest := by
  cases p with
  | mark m =>
    rintro c hc (⟨rfl, -⟩ | ⟨rfl, -⟩)
    · exact absurd (blank _ hc) (by decide)
    · exact absurd (blank _ hc) (by decide)
  | word =>
    intro c hc
    exact not_isWordPart_of_isWhitespace (blank c hc)
  | number =>
    constructor
    · intro c hc hd
      exact not_isWhitespace_of_isDigit hd (blank c hc)
    · intro _ d hd
      have point : ('.').isWhitespace := blank '.' (head?_of_isPrefix hd rfl)
      exact absurd point (by decide)
  | string => trivial
  | blank | comment | openString | stray => cases hm

lemma item?_of_text {p : Piece} {t : Token} (text : p.chars = t.lexeme.toList)
    (hm : p.meaning = .token t.kind t.literal) : p.item? t.line = some (.token t) := by
  rw [item?_eq, hm, text]
  simp [Meaning.item?]

lemma Cuts.blanks {bs cs : List Char} {ps : List Piece} (h : Cuts cs ps)
    (hbs : ∀ c ∈ bs, c.isWhitespace) : Cuts (bs ++ cs) (bs.map blank ++ ps) := by
  induction bs with
  | nil => exact h
  | cons b bs ih =>
    have proper : (blank b).Proper := hbs b (by simp)
    exact .cons proper trivial (ih fun c hc => hbs c (by simp [hc]))

lemma itemsFrom_blanks (line : Nat) (bs : List Char) (ps : List Piece) :
    itemsFrom line (bs.map blank ++ ps) = itemsFrom (line + bs.count '\n') ps := by
  induction bs generalizing line with
  | nil => rfl
  | cons b bs ih =>
    have first : (blank b).newlines + bs.count '\n' = (b :: bs).count '\n' := by
      rw [newlines, ← List.count_append]
      rfl
    rw [List.map_cons, List.cons_append, itemsFrom, ih, Nat.add_assoc, first]
    rfl

end Piece

lemma blank_of_mem_newlines {n : Nat} {c : Char} (hc : c ∈ List.replicate n '\n') :
    c.isWhitespace := by
  rw [List.eq_of_mem_replicate hc]
  decide

lemma blank_of_mem_gap {line next : Nat} {c : Char} (hc : c ∈ gap line next) :
    c.isWhitespace := by
  unfold gap at hc
  split at hc
  · exact blank_of_mem_newlines hc
  · rw [List.mem_singleton.mp hc]
    decide

lemma gap_ne_nil (line next : Nat) : gap line next ≠ [] := by
  unfold gap
  split
  · rw [ne_eq, List.replicate_eq_nil_iff]
    omega
  · simp

lemma count_gap {line next : Nat} (h : line ≤ next) :
    line + (gap line next).count '\n' = next := by
  unfold gap
  split
  · rw [List.count_replicate_self]
    omega
  · rw [List.count_eq_zero.mpr (by decide)]
    omega

lemma blank_of_head?_printFrom {line : Nat} {ts : List Token} {c : Char}
    (hc : c ∈ (printFrom line ts).head?) : c.isWhitespace := by
  cases ts with
  | nil => simp [printFrom] at hc
  | cons t ts =>
    rw [printFrom] at hc
    split at hc
    · exact blank_of_mem_newlines (List.mem_of_mem_head? hc)
    · rw [List.append_assoc, List.head?_append_of_ne_nil _ (gap_ne_nil _ _)] at hc
      exact blank_of_mem_gap (List.mem_of_mem_head? hc)

/-- The pieces of printed tokens: those of the tokens, and blanks between them. -/
theorem exists_cuts_printFrom {front : List Token} {line last : Nat}
    (spells : ∀ t ∈ front, t.kind.Spells t.lexeme.toList t.literal)
    (first : ∀ t ∈ (front ++ [Token.endOfFile last]).head?, line ≤ t.line)
    (chain :
      (front ++ [Token.endOfFile last]).IsChain fun t u => t.line + t.newlines ≤ u.line) :
    ∃ ps, Piece.Cuts (printFrom line (front ++ [Token.endOfFile last])) ps ∧
      Piece.itemsFrom line ps = front.map .token ∧
      line + (printFrom line (front ++ [Token.endOfFile last])).count '\n' = last := by
  induction front generalizing line with
  | nil =>
    have le : line ≤ last := first (.endOfFile last) (by simp)
    have text : printFrom line ([] ++ [Token.endOfFile last]) =
        List.replicate (last - line) '\n' ++ [] := by
      simp [printFrom, Token.endOfFile]
    rw [text]
    refine ⟨_, Piece.Cuts.nil.blanks fun c hc => blank_of_mem_newlines hc, ?_, ?_⟩
    · rw [Piece.itemsFrom_blanks]
      rfl
    · rw [List.append_nil, List.count_replicate_self]
      omega
  | cons t front ih =>
    obtain ⟨next, chain⟩ := List.isChain_cons.mp chain
    obtain ⟨ps, hps, items, lines⟩ := ih (fun u hu => spells u (by simp [hu])) next chain
    have le : line ≤ t.line := first t (by simp)
    have spells_t := spells t (by simp)
    have kind : t.kind ≠ .endOfFile := by
      intro h
      rw [h] at spells_t
      cases spells_t
    obtain ⟨p, hp, text, hm⟩ := Piece.exists_proper_of_spells spells_t
    have stops : p.Stops (printFrom (t.line + t.newlines) (front ++ [Token.endOfFile last])) :=
      Piece.stops_of_blank hm fun c hc => blank_of_head?_printFrom hc
    have newlines : p.newlines = t.newlines := by rw [Piece.newlines, text, Token.newlines]
    rw [List.cons_append, printFrom, if_neg kind, List.append_assoc, ← text]
    refine ⟨_, (Piece.Cuts.cons hp stops hps).blanks fun c hc => blank_of_mem_gap hc, ?_, ?_⟩
    · rw [Piece.itemsFrom_blanks, count_gap le, Piece.itemsFrom, Piece.item?_of_text text hm,
        newlines, items]
      rfl
    · rw [List.count_append, List.count_append, ← Nat.add_assoc, ← Nat.add_assoc, count_gap le,
        text]
      exact lines

/-- **Printing and scanning**: every scan finds well-formed tokens, and a scan of well-formed
tokens that are printed finds them again, kinds, lexemes, literals and lines, and no error. -/
theorem scan_print {ρ : Type} [Reporter ρ] (r : ρ) :
    (∀ source, WellFormed (scan source r).tokens.toList) ∧
    (∀ ts, WellFormed ts → (scan (print ts) r).tokens.toList = ts ∧ errorsOf (print ts) = []) ∧
    (∀ source, (scan (print (scan source r).tokens.toList) r).tokens = (scan source r).tokens) := by
  have again (ts : List Token) (h : WellFormed ts) :
      (scan (print ts) r).tokens.toList = ts ∧ errorsOf (print ts) = [] := by
    obtain ⟨⟨front, last, rfl, spells⟩, first, chain⟩ := h
    obtain ⟨ps, hps, items, lines⟩ := exists_cuts_printFrom spells first chain
    have text : (print (front ++ [Token.endOfFile last])).toList =
        printFrom 1 (front ++ [Token.endOfFile last]) := by simp [print]
    have items : itemsOf (print (front ++ [Token.endOfFile last])) = front.map .token := by
      rw [← text] at hps
      rw [← items]
      exact Scanner.items_eq hps
    constructor
    · rw [tokens_scan, items, text, lines]
      simp [List.filterMap_map, Function.comp_def, Item.token?]
    · rw [errorsOf_eq, items]
      simp [List.filterMap_map, Function.comp_def, Item.error?]
  refine ⟨fun source => wellFormed_scan source r, again, fun source => ?_⟩
  exact Array.toList_inj.mp (again _ (wellFormed_scan source r)).1

end LoxLexer
