import LoxLexer.Proofs.Printing
import LoxLexer.Proofs.Streams

/-!
The tokens of a source can be told from its plain dump.

A token is printed as its kind, its lexeme and its literal, and nothing in a string is escaped.
The kind is a word, and tells how far the lexeme goes: to the next blank, or to the second quote,
`Spells.eq_of_append`. With kind and lexeme the rest is known, and so is where the next token
begins, `sameText_of_printed`.
-/

namespace LoxLexer

open Grammar

namespace Kind.Spells

lemma blank_not_mem_word {w : List Char} (h : Word w) : ' ' ∉ w := by
  rintro mem
  obtain ⟨-, all⟩ := Piece.proper_word_iff.mpr h
  exact absurd (all _ mem) (by decide)

lemma blank_not_mem_digits {ds : List Char} (h : Digits ds) : ' ' ∉ ds := fun mem =>
  absurd (h.2 _ mem).1 (by decide)

/-- A lexeme with a blank behind it ends where its kind says. -/
theorem eq_of_append {kind : Kind} {w w' rest rest' : List Char} {literal literal' : Option Literal}
    (h : kind.Spells w literal) (h' : kind.Spells w' literal')
    (eq : w ++ ' ' :: rest = w' ++ ' ' :: rest') : w = w' := by
  have to_blank (hw : ' ' ∉ w) (hw' : ' ' ∉ w') : w = w' :=
    (Piece.append_cons_inj_of_not_mem hw hw' eq).1
  have number {v : List Char} {l : Option Literal} (hv : Kind.number.Spells v l) : ' ' ∉ v := by
    cases hv with
    | whole digits => exact blank_not_mem_digits digits
    | decimal digits fraction =>
      simp [blank_not_mem_digits digits, blank_not_mem_digits fraction]
  cases h with
  | mark m =>
    cases h'
    rfl
  | keyword k =>
    cases h'
    rfl
  | identifier word =>
    cases h' with
    | identifier word' => exact to_blank (blank_not_mem_word word) (blank_not_mem_word word')
  | whole digits => exact to_blank (number (.whole digits)) (number h')
  | decimal digits fraction => exact to_blank (number (.decimal digits fraction)) (number h')
  | @string body closed =>
    cases h' with
    | @string body' closed' =>
      -- the blank may be in the body, but a quote cannot
      have bodies : body ++ '"' :: ' ' :: rest = body' ++ '"' :: ' ' :: rest' := by simpa using eq
      rw [(Piece.append_cons_inj_of_not_mem closed closed' bodies).1]

end Kind.Spells

namespace Token

/-- The tokens are the same, but for their lines. -/
structure SameText (t u : Token) : Prop where
  kind : t.kind = u.kind
  lexeme : t.lexeme = u.lexeme
  literal : t.literal = u.literal

/-- A token as it is printed on a line of the plain dump. -/
def printed (t : Token) : List Char := (t.display ++ "\n").toList

lemma printed_eq (t : Token) :
    t.printed = t.kind.name.toList ++ ' ' :: (t.lexeme.toList ++ ' ' ::
      (((t.literal.map Literal.display).getD "nil").toList ++ ['\n'])) := by
  simp [printed, display]

lemma SameText.printed_eq {t u : Token} (h : SameText t u) : t.printed = u.printed := by
  rw [Token.printed_eq, Token.printed_eq, h.kind, h.lexeme, h.literal]

/-- What is printed for a token begins with its kind. -/
lemma kind_eq_of_printed {t u : Token} {rest rest' : List Char}
    (eq : t.printed ++ rest = u.printed ++ rest') :
    t.kind = u.kind ∧ ∃ more more', t.lexeme.toList ++ ' ' :: more =
      u.lexeme.toList ++ ' ' :: more' := by
  rw [printed_eq, printed_eq, List.append_assoc, List.append_assoc] at eq
  simp only [List.cons_append, List.append_assoc] at eq
  obtain ⟨name, behind⟩ := Piece.append_cons_inj_of_not_mem t.kind.blank_not_mem_name
    u.kind.blank_not_mem_name eq
  exact ⟨Kind.name_inj.mp (String.toList_inj.mp name), _, _, behind⟩

/-- The token is printed as its kind is spelled. -/
def Spelled (t : Token) : Prop := t.kind.Spells t.lexeme.toList t.literal

lemma Spelled.kind_ne {t : Token} (h : t.Spelled) : t.kind ≠ .endOfFile := by
  intro same
  unfold Spelled at h
  rw [same] at h
  cases h

/-- One token can be told from what is printed for it and for others behind it. -/
theorem sameText_of_printed {t u : Token} (ht : t.Spelled) (hu : u.Spelled)
    {rest rest' : List Char} (eq : t.printed ++ rest = u.printed ++ rest') :
    SameText t u ∧ rest = rest' := by
  obtain ⟨kind, more, more', lexemes⟩ := kind_eq_of_printed eq
  unfold Spelled at ht hu
  rw [← kind] at hu
  have lexeme := ht.eq_of_append hu lexemes
  rw [← lexeme] at hu
  have same : SameText t u := ⟨kind, String.toList_inj.mp lexeme, ht.literal_unique hu⟩
  rw [same.printed_eq] at eq
  exact ⟨same, List.append_cancel_left eq⟩

lemma sameText_endOfFile (m n : Nat) : SameText (.endOfFile m) (.endOfFile n) := ⟨rfl, rfl, rfl⟩

/-- So can all tokens of a list that the end of the file ends. -/
theorem forall₂_of_printed {ts us : List Token} {m n : Nat} (hts : ∀ t ∈ ts, t.Spelled)
    (hus : ∀ u ∈ us, u.Spelled)
    (eq : (ts ++ [endOfFile m]).flatMap printed = (us ++ [endOfFile n]).flatMap printed) :
    List.Forall₂ SameText (ts ++ [endOfFile m]) (us ++ [endOfFile n]) := by
  induction ts generalizing us with
  | nil =>
    cases us with
    | nil => exact .cons (sameText_endOfFile m n) .nil
    | cons u us => exact absurd (kind_eq_of_printed eq).1.symm (hus u (by simp)).kind_ne
  | cons t ts ih =>
    cases us with
    | nil => exact absurd (kind_eq_of_printed eq).1 (hts t (by simp)).kind_ne
    | cons u us =>
      obtain ⟨same, rest⟩ := sameText_of_printed (hts t (by simp)) (hus u (by simp)) eq
      exact .cons same
        (ih (fun t ht => hts t (by simp [ht])) (fun u hu => hus u (by simp [hu])) rest)

lemma flatMap_printed_of_forall₂ {ts us : List Token} (h : List.Forall₂ SameText ts us) :
    ts.flatMap printed = us.flatMap printed := by
  induction h with
  | nil => rfl
  | cons same _ ih => rw [List.flatMap_cons, List.flatMap_cons, same.printed_eq, ih]

end Token

lemma toList_dump_plain (source : String) :
    (dump .plain source).toList =
      (scan source (#[] : Array Diagnostic)).tokens.toList.flatMap Token.printed := by
  simp only [dump, String.toList_join, List.flatMap_map]
  rfl

/-- **Plain dumps**: two sources have the same plain dump if and only if their tokens are the
same, one by one and but for the lines, whatever their strings hold. -/
theorem plain_dump_eq_iff (a b : String) :
    output .plain a = output .plain b ↔
      List.Forall₂ Token.SameText (scan a (#[] : Array Diagnostic)).tokens.toList
        (scan b (#[] : Array Diagnostic)).tokens.toList := by
  rw [output_eq_iff, ← String.toList_inj, toList_dump_plain, toList_dump_plain]
  refine ⟨fun eq => ?_, Token.flatMap_printed_of_forall₂⟩
  obtain ⟨ts, m, hts, spelled⟩ := (wellFormed_scan a (#[] : Array Diagnostic)).ends
  obtain ⟨us, n, hus, spelled'⟩ := (wellFormed_scan b (#[] : Array Diagnostic)).ends
  rw [hts, hus] at eq ⊢
  exact Token.forall₂_of_printed spelled spelled' eq

end LoxLexer
