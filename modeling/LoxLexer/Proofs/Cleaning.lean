import LoxLexer.Proofs.Editing
import LoxLexer.Proofs.Reading

/-!
Comments and stray characters leave no trace in the tokens.

A source is `clean`ed by taking its comments out and putting a space for each stray character.
The scan of what is left finds the same tokens, and of the errors only a string that nothing
closes.
-/

namespace LoxLexer

namespace Piece

/-- The piece that is put in place of this one, if one is. -/
def cleaned : Piece → Option Piece
  | stray _ => some (blank ' ')
  | comment _ => none
  | p => some p

/-- The character, if it is stray. -/
def stray? : Piece → Option Char
  | stray c => some c
  | _ => none

lemma edits_cleaned (ps : List Piece) : Edits ps (ps.filterMap cleaned) := by
  induction ps with
  | nil => exact .nil
  | cons p ps ih =>
    cases p with
    | stray c => exact .space c ih
    | comment body => exact .drop body ih
    | blank c => exact .keep (blank c) ih
    | mark m => exact .keep (mark m) ih
    | word letters => exact .keep (word letters) ih
    | number whole fraction => exact .keep (number whole fraction) ih
    | string body => exact .keep (string body) ih
    | openString body => exact .keep (openString body) ih

end Piece

/-- The character that is reported, if it is one. -/
def Fault.character? : Fault → Option Char
  | unterminatedString => none
  | unexpectedCharacter c => some c

/-- The item has nothing to do with a stray character. -/
def Item.isKept : Item → Bool
  | token _ => true
  | error d => d.fault.character?.isNone

namespace Piece

/-- What becomes of a piece's item and of the line behind it when the piece is cleaned. -/
lemma item?_cleaned {p : Piece} (hp : p.Proper) (line : Nat) :
    itemsFrom line p.cleaned.toList = (p.item? line).toList.filter Item.isKept ∧
      (p.cleaned.toList.flatMap chars).count '\n' = p.newlines := by
  cases p with
  | stray c =>
    have other : c ≠ '\n' := by
      rintro rfl
      exact hp.1 (by decide)
    constructor
    · rfl
    · rw [newlines, chars, List.count_singleton, if_neg (by simpa using other)]
      rfl
  | comment body =>
    have line : '\n' ∉ body := hp
    have : body.count '\n' = 0 := List.count_eq_zero.mpr line
    simp [cleaned, itemsFrom, item?, newlines, chars, this]
  | blank | mark | word | number | string | openString =>
    exact ⟨rfl, by simp [cleaned, newlines]⟩

lemma itemsFrom_cleaned {ps : List Piece} (proper : ∀ p ∈ ps, p.Proper) (line : Nat) :
    itemsFrom line (ps.filterMap cleaned) = (itemsFrom line ps).filter Item.isKept ∧
      ((ps.filterMap cleaned).flatMap chars).count '\n' = (ps.flatMap chars).count '\n' := by
  induction ps generalizing line with
  | nil => exact ⟨rfl, rfl⟩
  | cons p ps ih =>
    obtain ⟨items, lines⟩ := ih (fun q hq => proper q (by simp [hq])) (line + p.newlines)
    obtain ⟨first, newlines⟩ := item?_cleaned (proper p (by simp)) line
    have split : (p :: ps).filterMap cleaned = p.cleaned.toList ++ ps.filterMap cleaned := by
      cases h : p.cleaned <;> simp [h]
    rw [split, itemsFrom_append, first, newlines, items, itemsFrom, List.filter_append,
      List.flatMap_append, List.count_append, newlines, lines, List.flatMap_cons,
      List.count_append]
    exact ⟨rfl, rfl⟩

lemma filterMap_stray? (line : Nat) (ps : List Piece) :
    ps.filterMap stray? =
      ((itemsFrom line ps).filterMap Item.error?).filterMap fun d => d.fault.character? := by
  induction ps generalizing line with
  | nil => rfl
  | cons p ps ih =>
    rw [itemsFrom, List.filterMap_append, List.filterMap_append, ← ih]
    cases p <;> rfl

end Piece

/-- The source without its comments, and with a space for each of its stray characters. -/
def clean (source : String) : String :=
  String.ofList (((piecesOf source).filterMap Piece.cleaned).flatMap Piece.chars)

theorem itemsOf_clean (source : String) :
    itemsOf (clean source) = (itemsOf source).filter Item.isKept ∧
      (clean source).toList.count '\n' = source.toList.count '\n' := by
  have hps := cuts_piecesOf source
  obtain ⟨items, lines⟩ := Piece.itemsFrom_cleaned (fun _ hp => hps.proper_of_mem hp) 1
  have cuts := ((Piece.edits_cleaned _).cuts hps).1
  rw [hps.flatMap_chars] at lines
  constructor
  · rw [itemsOf_eq source, ← items]
    refine Scanner.items_eq ?_
    simpa [Scanner.ofSource, clean] using cuts
  · simpa [clean] using lines

lemma token?_of_not_isKept {i : Item} (h : ¬ i.isKept) : i.token? = none := by
  cases i with
  | token t => exact absurd rfl h
  | error d => rfl

/-- **Cleaning**: a source without its comments and its stray characters, which are those that
are reported, has the same tokens, and of its errors only the string that nothing closes. -/
theorem scan_clean {ρ σ : Type} [Reporter ρ] [Reporter σ] (source : String) (r : ρ) (s : σ) :
    (piecesOf source).flatMap Piece.chars = source.toList ∧
    (piecesOf source).filterMap Piece.stray? =
      (errorsOf source).filterMap (fun d => d.fault.character?) ∧
    (scan (clean source) r).tokens = (scan source s).tokens ∧
    errorsOf (clean source) =
      (errorsOf source).filter (fun d => d.fault = .unterminatedString) := by
  obtain ⟨items, lines⟩ := itemsOf_clean source
  refine ⟨(cuts_piecesOf source).flatMap_chars, ?_, Array.toList_inj.mp ?_, ?_⟩
  · rw [errorsOf_eq, itemsOf_eq, ← Piece.filterMap_stray?]
  · rw [tokens_scan, tokens_scan, items, lines, List.filterMap_filter]
    congr 1
    refine List.filterMap_congr fun i _ => ?_
    split
    · rfl
    · next h => exact (token?_of_not_isKept h).symm
  · rw [errorsOf_eq, errorsOf_eq, items, List.filterMap_filter, List.filter_filterMap]
    refine List.filterMap_congr fun i _ => ?_
    cases i with
    | token t => rfl
    | error d =>
      cases hd : d.fault <;> simp [Item.isKept, Item.error?, Fault.character?, hd, Option.filter]

end LoxLexer
