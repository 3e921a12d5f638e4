import LoxLexer.Proofs.JsonDump
import LoxLexer.Proofs.TokenEquality

/-!
Tokens of sources in collections by hash.

Where a literal is neither a NaN nor a zero with a sign, `Plain`, equality of tokens and their data
in a hash come to the same. Those of a source are so, `Scanned.plain`: its numbers have no sign, and
the greatest is infinity.
-/

namespace LoxLexer

/-! ### Comparing -/

/-- A double that is equal to itself and to no other. -/
structure Binary64.Plain (x : Binary64) : Prop where
  number : x.isNaN = false
  zero : x.magnitude = 0 → x.negative = false

lemma Binary64.Plain.representative_eq {x : Binary64} (h : x.Plain) : x.representative = x := by
  unfold representative
  split
  · next zero => exact Binary64.ext (h.zero zero).symm zero.symm
  · rfl

/-- Any text, and a number if it can be compared by its bits. -/
def Literal.Plain : Literal → Prop
  | number x => x.Plain
  | text _ => True

lemma Literal.Plain.isNaN_eq {l : Literal} (h : l.Plain) : l.isNaN = false := by
  cases l with
  | number x => exact h.number
  | text s => rfl

lemma Literal.Plain.representative_eq {l : Literal} (h : l.Plain) : l.representative = l := by
  cases l with
  | number x => exact congrArg number (Binary64.Plain.representative_eq h)
  | text s => rfl

namespace Token

def Plain (t : Token) : Prop := ∀ l ∈ t.literal, l.Plain

lemma Plain.hasNaN_eq {t : Token} (h : t.Plain) : t.hasNaN = false := by
  unfold hasNaN
  cases literal : t.literal with
  | none => rfl
  | some l => exact (h l literal).isNaN_eq

lemma Plain.representative_eq {t : Token} (h : t.Plain) : t.representative = t := by
  obtain ⟨kind, lexeme, literal, line⟩ := t
  cases literal with
  | none => rfl
  | some l => simp [representative, (h l rfl).representative_eq]

lemma Plain.beq_iff {t u : Token} (ht : t.Plain) (hu : u.Plain) : (t == u) = true ↔ t = u := by
  rw [Token.beq_iff, ht.hasNaN_eq, ht.representative_eq, hu.representative_eq, eq_self, true_and]

end Token

/-! ### Tokens of a source -/

/-- Numbers are decoded without a sign, and those that are too great to infinity. -/
lemma Kind.Spells.unsigned {kind : Kind} {w : List Char} {x : Binary64}
    (h : kind.Spells w (some (.number x))) :
    x.negative = false ∧ x.magnitude ≤ Binary64.infinity := by
  cases h with
  | whole => exact ⟨rfl, Binary64.nearest_le _ _⟩
  | decimal => exact ⟨rfl, Binary64.nearest_le _ _⟩

namespace Token

lemma Scanned.unsigned {t : Token} (ht : t.Scanned) {x : Binary64}
    (number : t.literal = some (.number x)) :
    x.negative = false ∧ x.magnitude ≤ Binary64.infinity := by
  rcases ht with ht | ⟨line, rfl⟩
  · unfold Spelled at ht
    rw [number] at ht
    exact ht.unsigned
  · cases number

lemma Scanned.plain {t : Token} (ht : t.Scanned) : t.Plain := by
  rintro (x | s) literal
  · obtain ⟨sign, le⟩ := ht.unsigned literal
    exact ⟨by simpa [Binary64.isNaN] using le, fun _ => sign⟩
  · trivial

/-- A token that some source has, whoever is told about its errors. -/
def Found (t : Token) : Prop :=
  ∃ (ρ : Type) (_ : Reporter ρ) (source : String) (r : ρ), t ∈ (scan source r).tokens

lemma Found.scanned {t : Token} (ht : t.Found) : t.Scanned := by
  obtain ⟨ρ, _, source, r, mem⟩ := ht
  exact scanned_of_mem (Array.mem_toList_iff.mpr mem)

lemma Found.beq_iff {t u : Token} (ht : t.Found) (hu : u.Found) : (t == u) = true ↔ t = u :=
  ht.scanned.plain.beq_iff hu.scanned.plain

/-- Whatever is spelled as its kind is found on each line. -/
theorem Spelled.found {t : Token} (spelled : t.Spelled) (line : 1 ≤ t.line) : t.Found := by
  -- the source is the token as it is printed for itself, behind as many newlines as it needs
  have spells : ∀ u ∈ [t], u.kind.Spells u.lexeme.toList u.literal :=
    List.forall_mem_singleton.mpr spelled
  have chain : ([t] ++ [endOfFile (t.line + t.newlines)]).IsChain
      fun t u => t.line + t.newlines ≤ u.line := List.isChain_pair.mpr le_rfl
  obtain ⟨ps, hps, items, -⟩ := exists_cuts_printFrom spells (by simpa using line) chain
  generalize printFrom 1 ([t] ++ [endOfFile (t.line + t.newlines)]) = cs at hps
  have cuts : Piece.Cuts (String.ofList cs).toList ps := by rwa [String.toList_ofList]
  have found : itemsOf (String.ofList cs) = [.token t] := (Scanner.items_eq cuts).trans items
  refine ⟨Array Diagnostic, inferInstance, String.ofList cs, #[], ?_⟩
  rw [← Array.mem_toList_iff, tokens_scan, found]
  simp [Item.token?]

end Token

/-- **Hashed collections**: tokens of any two sources are equal if and only if a hasher is fed
alike with them, and if and only if they have the same kind, lexeme and line; kind and lexeme tell
the literal. So equality is an equivalence of all tokens that are found in sources, and equal ones
have the same hash. Their numbers are not NaN and have no sign, not even the zeros. -/
theorem found_tokens_hashable :
    (∀ t u : {t : Token // t.Found},
      [(t == u) = true, t.1.key = u.1.key, t.1.key.feed = u.1.key.feed,
        t.1.kind = u.1.kind ∧ t.1.lexeme = u.1.lexeme ∧ t.1.line = u.1.line].TFAE ∧
      (t.1.kind = u.1.kind → t.1.lexeme = u.1.lexeme → t.1.literal = u.1.literal) ∧
      ((t == u) = true → hash t.1 = hash u.1)) ∧
    Equivalence (fun t u : {t : Token // t.Found} => (t == u) = true) ∧
    ∀ (t : {t : Token // t.Found}) x, t.1.literal = some (.number x) →
      x.isNaN = false ∧ x.negative = false := by
  have beq_iff (t u : {t : Token // t.Found}) : (t == u) = true ↔ t.1 = u.1 := t.2.beq_iff u.2
  refine ⟨fun t u => ⟨?_, t.2.scanned.literal_eq u.2.scanned, fun equal => ?_⟩, ⟨fun t => ?_,
    fun {t u} equal => ?_, fun {t u v} equal equal' => ?_⟩, fun t x number => ?_⟩
  · tfae_have 1 ↔ 2 := (beq_iff t u).trans Token.key_inj.symm
    tfae_have 2 ↔ 3 := Token.Key.feed_inj.symm
    tfae_have 2 ↔ 4 := Token.key_inj.trans (t.2.scanned.eq_iff u.2.scanned)
    tfae_finish
  · rw [(beq_iff t u).mp equal]
  · exact (beq_iff t t).mpr rfl
  · exact (beq_iff u t).mpr ((beq_iff t u).mp equal).symm
  · exact (beq_iff t v).mpr (((beq_iff t u).mp equal).trans ((beq_iff u v).mp equal'))
  · exact ⟨(t.2.scanned.plain _ number).number, (t.2.scanned.unsigned number).1⟩

/-- A number with and without a zero at its end, which are two tokens on a line of their own. -/
theorem found_fractions :
    let x := (Numeral.ofDigits ['1'] ['5']).read
    let y := (Numeral.ofDigits ['1'] ['5', '0']).read
    let t : Token := ⟨.number, "1.5", some (.number x), 2⟩
    let u : Token := ⟨.number, "1.50", some (.number y), 2⟩
    t.Found ∧ u.Found ∧ (t == t) = true ∧ (t == u) = false ∧ t.key.feed ≠ u.key.feed ∧
      x.isNaN = false ∧ x.negative = false := by
  intro x y t u
  have one : Grammar.Digits ['1'] := by simp [Grammar.Digits, Grammar.Digit]
  have half : Grammar.Digits ['5'] := by simp [Grammar.Digits, Grammar.Digit]
  have half' : Grammar.Digits ['5', '0'] := by simp [Grammar.Digits, Grammar.Digit]
  have text : t.lexeme.toList = ['1'] ++ '.' :: ['5'] := by decide
  have text' : u.lexeme.toList = ['1'] ++ '.' :: ['5', '0'] := by decide
  have spelled : t.Spelled := by
    rw [Token.Spelled, text]
    exact .decimal one half
  have spelled' : u.Spelled := by
    rw [Token.Spelled, text']
    exact .decimal one half'
  have ht : t.Found := spelled.found (by decide)
  have hu : u.Found := spelled'.found (by decide)
  obtain ⟨same, equivalence, numbers⟩ := found_tokens_hashable
  have other : ¬ (t.kind = u.kind ∧ t.lexeme = u.lexeme ∧ t.line = u.line) := by
    rintro ⟨-, lexeme, -⟩
    exact absurd lexeme (by decide)
  have tfae := (same ⟨t, ht⟩ ⟨u, hu⟩).1
  refine ⟨ht, hu, equivalence.refl ⟨t, ht⟩, ?_, ?_, numbers ⟨t, ht⟩ x rfl⟩
  · exact Bool.eq_false_iff.mpr fun equal => other ((tfae.out 0 3).mp equal)
  · exact fun fed => other ((tfae.out 2 3).mp fed)

end LoxLexer
