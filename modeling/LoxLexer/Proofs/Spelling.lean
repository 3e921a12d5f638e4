import LoxLexer.Proofs.Cutting
import LoxLexer.Proofs.Grammar

/-!
Proper pieces are the texts of the grammar.

A piece has a `meaning`, and with it its text is one of the grammar. Conversely each text of the
grammar is that of a proper piece, which is the only one: `matches_iff`.
-/

namespace LoxLexer

open Grammar

namespace Piece

def meaning : Piece → Meaning
  | blank _ | comment _ => .nothing
  | mark m => .token (.mark m) none
  | word letters => .token (.ofWord (String.ofList letters)) none
  | number whole fraction =>
    .token .number (some (.number (Numeral.ofDigits whole fraction).read))
  | string body => .token .string (some (.text (String.ofList body)))
  | openString _ => .fault .unterminatedString
  | stray c => .fault (.unexpectedCharacter c)

lemma item?_eq (line : Nat) (p : Piece) : p.item? line = p.meaning.item? line p.chars := by
  cases p <;> rfl

lemma isWordPart_iff {c : Char} : isWordPart c ↔ Letter c ∨ Digit c := by
  simp only [isWordPart, Bool.or_eq_true, isWordStart_iff, isDigit_iff, Letter, Digit]

lemma proper_word_iff {w : List Char} : (word w).Proper ↔ Word w := by
  constructor
  · rintro ⟨⟨c, hc, start⟩, part⟩
    obtain ⟨cs, rfl⟩ := List.head?_eq_some_iff.mp (Option.mem_def.mp hc)
    exact ⟨c, cs, rfl, isWordStart_iff.mp start,
      fun d hd => isWordPart_iff.mp (part d (by simp [hd]))⟩
  · rintro ⟨c, cs, rfl, start, part⟩
    refine ⟨⟨c, by simp, isWordStart_iff.mpr start⟩, fun d hd => isWordPart_iff.mpr ?_⟩
    rcases List.mem_cons.mp hd with rfl | hd
    · exact Or.inl start
    · exact part d hd

lemma word_keyword (k : Keyword) : Word k.text.toList := by
  rw [← proper_word_iff]
  cases k <;> simp [Proper, Keyword.text] <;> decide

lemma spells_ofWord {w : List Char} (hw : Word w) :
    (Kind.ofWord (String.ofList w)).Spells w none := by
  unfold Kind.ofWord
  cases h : Keyword.ofText? (String.ofList w) with
  | none =>
    refine .identifier hw fun k hk => ?_
    rw [hk, String.ofList_toList, Keyword.ofText?_text] at h
    cases h
  | some k =>
    have text : k.text.toList = w := by simp [Keyword.text_of_ofText? h]
    exact text ▸ .keyword k

lemma digits_iff {w : List Char} : Digits w ↔ w ≠ [] ∧ ∀ c ∈ w, c.isDigit := by
  simp only [Digits, Digit, isDigit_iff]

lemma exists_proper_of_spells {k : Kind} {w : List Char} {literal : Option Literal}
    (h : k.Spells w literal) :
    ∃ p : Piece, p.Proper ∧ p.chars = w ∧ p.meaning = .token k literal := by
  cases h with
  | mark m => exact ⟨mark m, trivial, rfl, rfl⟩
  | keyword k =>
    refine ⟨word k.text.toList, proper_word_iff.mpr (word_keyword k), rfl, ?_⟩
    simp [meaning, Kind.ofWord]
  | identifier hw free =>
    refine ⟨word w, proper_word_iff.mpr hw, rfl, ?_⟩
    have unreserved : Keyword.ofText? (String.ofList w) = none := by
      cases h : Keyword.ofText? (String.ofList w) with
      | none => rfl
      | some k => exact absurd (by simp [Keyword.text_of_ofText? h]) (free k)
    simp [meaning, Kind.ofWord, unreserved]
  | string closed => exact ⟨string _, closed, rfl, rfl⟩
  | whole digits =>
    obtain ⟨ne, all⟩ := digits_iff.mp digits
    exact ⟨number w [], ⟨ne, all, by simp⟩, by simp [chars], rfl⟩
  | decimal digits fraction =>
    obtain ⟨ne, all⟩ := digits_iff.mp digits
    obtain ⟨ne', all'⟩ := digits_iff.mp fraction
    exact ⟨number _ _, ⟨ne, all, all'⟩, by simp [chars, ne'], rfl⟩

lemma exists_proper_of_known {w : List Char} {m : Meaning} (h : Known w m) :
    ∃ p : Piece, p.Proper ∧ p.chars = w ∧ p.meaning = m ∧ ∀ c, p ≠ stray c := by
  cases h with
  | @blank c h =>
    have hc : (blank c).Proper := isWhitespace_iff.mpr (by simpa [or_left_comm] using h)
    exact ⟨blank c, hc, rfl, rfl, by simp⟩
  | comment line => exact ⟨comment _, line, rfl, rfl, by simp⟩
  | token h =>
    obtain ⟨p, hp, hw, hm⟩ := exists_proper_of_spells h
    refine ⟨p, hp, hw, hm, ?_⟩
    rintro c rfl
    cases hm
  | openString unclosed => exact ⟨openString _, unclosed, rfl, rfl, by simp⟩

lemma known_of_proper {p : Piece} (hp : p.Proper) (plain : ∀ c, p ≠ stray c) :
    Known p.chars p.meaning := by
  cases p with
  | blank c => exact .blank (by simpa [or_left_comm] using isWhitespace_iff.mp hp)
  | comment body => exact .comment hp
  | mark m => exact .token (.mark m)
  | word letters => exact .token (spells_ofWord (proper_word_iff.mp hp))
  | number whole fraction =>
    obtain ⟨ne, all, all'⟩ := hp
    have digits : Digits whole := digits_iff.mpr ⟨ne, all⟩
    cases fraction with
    | nil => exact .token (by simpa [chars] using .whole digits)
    | cons d ds => exact .token (.decimal digits (digits_iff.mpr ⟨by simp, all'⟩))
  | string body => exact .token (.string hp)
  | openString body => exact .openString hp
  | stray c => exact absurd rfl (plain c)

/-- A character that is no text of its own is stray: any other piece of it would be known. -/
lemma proper_stray {c : Char} (free : ∀ m, ¬ Known [c] m) : (stray c).Proper := by
  obtain ⟨hp, -⟩ := cut_spec c []
  have text : (cut c []).1.chars = [c] := by
    have whole := cut_append c []
    have ne := chars_cut_ne_nil c []
    rcases List.append_eq_singleton_iff.mp whole with ⟨h, -⟩ | ⟨h, -⟩
    · exact absurd h ne
    · exact h
  cases h : (cut c []).1 with
  | stray d =>
    rw [h] at hp text
    obtain rfl : d = c := by simpa [chars] using text
    exact hp
  | _ =>
    refine absurd (known_of_proper hp fun d hd => ?_) (text ▸ free _)
    rw [h] at hd
    cases hd

theorem matches_iff {w : List Char} {m : Meaning} :
    Matches w m ↔ ∃ p : Piece, p.Proper ∧ p.chars = w ∧ p.meaning = m := by
  constructor
  · rintro (known | free)
    · obtain ⟨p, hp, hw, hm, -⟩ := exists_proper_of_known known
      exact ⟨p, hp, hw, hm⟩
    · exact ⟨stray _, proper_stray free, rfl, rfl⟩
  · rintro ⟨p, hp, rfl, rfl⟩
    by_cases plain : ∀ c, p ≠ stray c
    · exact .known (known_of_proper hp plain)
    · obtain ⟨c, rfl⟩ : ∃ c, p = stray c := by simpa using plain
      refine .other fun m hm => ?_
      obtain ⟨q, hq, text, -, other⟩ := exists_proper_of_known hm
      exact other c (hq.eq_of_chars hp text)

end Piece

lemma spells_of_matches {w : List Char} {kind : Kind} {literal : Option Literal}
    (h : Matches w (.token kind literal)) : kind.Spells w literal := by
  cases h with
  | known h =>
    cases h with
    | token spells => exact spells

/-- A text of a kind is decoded in one way. -/
lemma Kind.Spells.literal_unique {kind kind' : Kind} {w : List Char}
    {literal literal' : Option Literal} (h : kind.Spells w literal)
    (h' : kind'.Spells w literal') : literal = literal' := by
  obtain ⟨p, hp, text, meaning⟩ := Piece.exists_proper_of_spells h
  obtain ⟨q, hq, text', meaning'⟩ := Piece.exists_proper_of_spells h'
  obtain rfl := hp.eq_of_chars hq (text.trans text'.symm)
  rw [meaning] at meaning'
  exact (Meaning.token.inj meaning').2

/-- A number is decoded from a numeral without a sign. -/
lemma Kind.Spells.exists_numeral {w : List Char} {literal : Option Literal}
    (h : Kind.number.Spells w literal) :
    ∃ n : Numeral, n.negative = false ∧ literal = some (.number n.read) := by
  cases h with
  | whole => exact ⟨_, rfl, rfl⟩
  | decimal => exact ⟨_, rfl, rfl⟩

end LoxLexer
