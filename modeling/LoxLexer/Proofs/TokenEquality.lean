import LoxLexer.Token.Basic
import Mathlib.Data.List.Nodup
import Mathlib.Data.Option.Basic
import Mathlib.Tactic.Lemma

/-!
Equality of tokens, and their data in a hash.

Numbers are compared as numbers: a NaN is not equal to itself, and the two zeros are equal. So two
tokens are equal if they have one `representative` and no NaN, `Token.beq_iff`. For a hash the bits
of a number count, so its data tells any two tokens apart, `Token.key_inj`. The two come to the same
but for the NaNs and the zeros.
-/

namespace LoxLexer

/-! ### Comparing -/

namespace Binary64

/-- Stands for the doubles that are equal to this one: a zero loses its sign. -/
def representative (x : Binary64) : Binary64 := if x.magnitude = 0 then ⟨false, 0, by decide⟩ else x

@[simp] lemma magnitude_representative (x : Binary64) :
    x.representative.magnitude = x.magnitude := by
  unfold representative
  split
  · next zero => exact zero.symm
  · rfl

/-- Two zeros, of which one has a sign. -/
structure OppositeZeros (x y : Binary64) : Prop where
  zero : x.magnitude = 0
  zero' : y.magnitude = 0
  sign : x.negative ≠ y.negative

lemma representative_eq_iff {x y : Binary64} :
    x.representative = y.representative ↔ x = y ∨ x.OppositeZeros y := by
  constructor
  · intro same
    have magnitudes : x.magnitude = y.magnitude := by simpa using congrArg magnitude same
    by_cases sign : x.negative = y.negative
    · exact Or.inl (Binary64.ext sign magnitudes)
    · by_cases zero : x.magnitude = 0
      · exact Or.inr ⟨zero, magnitudes ▸ zero, sign⟩
      · rw [representative, representative, if_neg zero, if_neg (magnitudes ▸ zero)] at same
        exact Or.inl same
  · rintro (rfl | ⟨zero, zero', -⟩)
    · rfl
    · rw [representative, representative, if_pos zero, if_pos zero']

lemma equal_iff {x y : Binary64} :
    x.equal y = true ↔ x.isNaN = false ∧ x.representative = y.representative := by
  simp only [equal, representative_eq_iff, Bool.and_eq_true, Bool.or_eq_true, beq_iff_eq,
    Bool.not_eq_true']
  constructor
  · rintro ⟨⟨number, -⟩, ⟨magnitude, sign⟩ | ⟨zero, zero'⟩⟩
    · exact ⟨number, Or.inl (Binary64.ext sign magnitude)⟩
    · refine ⟨number, ?_⟩
      by_cases sign : x.negative = y.negative
      · exact Or.inl (Binary64.ext sign (zero.trans zero'.symm))
      · exact Or.inr ⟨zero, zero', sign⟩
  · rintro ⟨number, rfl | ⟨zero, zero', -⟩⟩
    · exact ⟨⟨number, number⟩, Or.inl ⟨rfl, rfl⟩⟩
    · exact ⟨⟨number, by simp [isNaN, zero']⟩, Or.inr ⟨zero, zero'⟩⟩

end Binary64

namespace Literal

def isNaN : Literal → Bool
  | number x => x.isNaN
  | text _ => false

def representative : Literal → Literal
  | number x => number x.representative
  | text s => text s

@[simp] lemma isNaN_representative (l : Literal) : l.representative.isNaN = l.isNaN := by
  cases l <;> simp [representative, isNaN, Binary64.isNaN]

lemma beq_iff {l m : Literal} :
    (l == m) = true ↔ l.isNaN = false ∧ l.representative = m.representative := by
  cases l with
  | number x =>
    cases m with
    | number y =>
      rw [representative, representative, number.injEq]
      exact Binary64.equal_iff
    | text t => exact ⟨nofun, nofun⟩
  | text s =>
    cases m with
    | number y => exact ⟨nofun, nofun⟩
    | text t =>
      have texts : (s == t) = true ↔ s = t := beq_iff_eq
      rw [representative, representative, text.injEq, isNaN, eq_self, true_and]
      exact texts

lemma key_inj {l m : Literal} : l.key = m.key ↔ l = m := by
  cases l <;> cases m <;> simp [key, Binary64.bits_inj]

end Literal

namespace Token

def hasNaN (t : Token) : Bool := t.literal.any Literal.isNaN

def representative (t : Token) : Token :=
  { t with literal := t.literal.map Literal.representative }

@[simp] lemma hasNaN_representative (t : Token) : t.representative.hasNaN = t.hasNaN := by
  unfold hasNaN representative
  cases t.literal <;> simp

/-- Tokens are equal if they have no NaN and one representative. -/
theorem beq_iff {t u : Token} :
    (t == u) = true ↔ t.hasNaN = false ∧ t.representative = u.representative := by
  have literal : (t.literal == u.literal) = true ↔ t.literal.any Literal.isNaN = false ∧
      t.literal.map Literal.representative = u.literal.map Literal.representative := by
    cases t.literal <;> cases u.literal <;> simp [Literal.beq_iff]
  have parts : (t == u) = (t.kind == u.kind && t.lexeme == u.lexeme && t.literal == u.literal &&
    t.line == u.line) := rfl
  rw [parts]
  simp only [Bool.and_eq_true, beq_iff_eq, literal, hasNaN, representative, mk.injEq]
  constructor
  · rintro ⟨⟨⟨kind, lexeme⟩, number, same⟩, line⟩
    exact ⟨number, kind, lexeme, same, line⟩
  · rintro ⟨number, kind, lexeme, same, line⟩
    exact ⟨⟨⟨kind, lexeme⟩, number, same⟩, line⟩

lemma beq_symm {t u : Token} (h : (t == u) = true) : (u == t) = true := by
  rw [beq_iff] at h ⊢
  obtain ⟨number, same⟩ := h
  refine ⟨?_, same.symm⟩
  rw [← hasNaN_representative, ← same, hasNaN_representative, number]

/-- The data of a hash tells a token, whatever its literal. -/
theorem key_inj {t u : Token} : t.key = u.key ↔ t = u := by
  have injective : Function.Injective Literal.key := fun _ _ => Literal.key_inj.mp
  cases t
  cases u
  simp [key, (Option.map_injective injective).eq_iff]

end Token

/-! ### Feeding a hasher -/

/-- What a hasher takes at a time. A choice is which of its alternatives a value is. -/
inductive Feed where
  | choice (n : Nat)
  | byte (n : Nat)
  | bits (n : Nat)
  | text (s : String)
  | size (n : Nat)

namespace Kind

/-- The kinds in the order in which a hasher counts them. -/
def counted : List Kind :=
  Mark.all.map mark ++ [identifier, string, number] ++
    [.and, .class, .else, .false, .fun, .for, .if, .nil, .or, .print, .return, .super, .this,
      .true, .var, .while].map keyword ++ [endOfFile]

lemma mem_counted (k : Kind) : k ∈ counted := by
  have complete : ∀ k ∈ all, k ∈ counted := by decide
  exact complete k (mem_all k)

def feed (k : Kind) : Feed := .choice (counted.idxOf k)

lemma feed_inj {k l : Kind} : k.feed = l.feed ↔ k = l := by
  rw [feed, feed, Feed.choice.injEq, List.idxOf_inj k.mem_counted]

end Kind

def Literal.Key.feed : Literal.Key → List Feed
  | number bits => [.byte 0, .bits bits]
  | text s => [.byte 1, .text s]

namespace Token.Key

def literalFeed : Option Literal.Key → List Feed
  | none => [.choice 0]
  | some l => .choice 1 :: l.feed

/-- The data of a hash, as a hasher is fed with it. -/
def feed (k : Key) : List Feed :=
  k.kind.feed :: .text k.lexeme :: (literalFeed k.literal ++ [.size k.line])

lemma literalFeed_inj {l m : Option Literal.Key} : literalFeed l = literalFeed m ↔ l = m := by
  rcases l with - | x | s <;> rcases m with - | y | t <;> simp [literalFeed, Literal.Key.feed]

/-- The feed tells its parts: all but the one for the literal have a fixed length. -/
theorem feed_inj {k l : Key} : k.feed = l.feed ↔ k = l := by
  refine ⟨fun same => ?_, congrArg feed⟩
  simp only [feed, List.cons.injEq, Kind.feed_inj, Feed.text.injEq] at same
  obtain ⟨kind, lexeme, rest⟩ := same
  obtain ⟨literal, line⟩ := List.append_inj' rest rfl
  rw [literalFeed_inj] at literal
  simp only [List.cons.injEq, Feed.size.injEq, and_true] at line
  cases k
  cases l
  congr

end Token.Key

/-! ### Equal tokens with different data -/

def Literal.OppositeZeros : Literal → Literal → Prop
  | number x, number y => x.OppositeZeros y
  | _, _ => False

lemma Literal.representative_eq_iff {l m : Literal} :
    l.representative = m.representative ↔ l = m ∨ l.OppositeZeros m := by
  cases l <;> cases m <;> simp [representative, OppositeZeros, Binary64.representative_eq_iff]

namespace Token

/-- Tokens that differ in the sign of a zero only. -/
structure OppositeZeros (t u : Token) : Prop where
  kind : t.kind = u.kind
  lexeme : t.lexeme = u.lexeme
  line : t.line = u.line
  literal : ∃ l ∈ t.literal, ∃ m ∈ u.literal, l.OppositeZeros m

lemma representative_eq_iff {t u : Token} :
    t.representative = u.representative ↔ t = u ∨ t.OppositeZeros u := by
  obtain ⟨kind, lexeme, literal, line⟩ := t
  obtain ⟨kind', lexeme', literal', line'⟩ := u
  constructor
  · intro same
    simp only [representative, mk.injEq] at same
    obtain ⟨rfl, rfl, literals, rfl⟩ := same
    rcases literal with - | l <;> rcases literal' with - | m
    · exact Or.inl rfl
    · cases literals
    · cases literals
    · rcases Literal.representative_eq_iff.mp (Option.some.inj literals) with rfl | zeros
      · exact Or.inl rfl
      · exact Or.inr ⟨rfl, rfl, rfl, l, rfl, m, rfl, zeros⟩
  · rintro (same | ⟨rfl, rfl, rfl, l, rfl, m, rfl, zeros⟩)
    · rw [same]
    · simp [representative, Literal.representative_eq_iff.mpr (Or.inr zeros)]

lemma OppositeZeros.ne {t u : Token} (h : t.OppositeZeros u) : t ≠ u := by
  rintro rfl
  obtain ⟨l, hl, m, hm, zeros⟩ := h.literal
  obtain rfl := Option.mem_unique hl hm
  cases l with
  | number x => exact zeros.sign rfl
  | text s => exact zeros

lemma OppositeZeros.hasNaN {t u : Token} (h : t.OppositeZeros u) : t.hasNaN = false := by
  obtain ⟨l, hl, m, -, zeros⟩ := h.literal
  rw [Option.mem_def] at hl
  rw [Token.hasNaN, hl, Option.any_some]
  cases l with
  | number x =>
    cases m with
    | number y => simp [Literal.isNaN, Binary64.isNaN, zeros.zero]
    | text s => exact zeros.elim
  | text s => rfl

end Token

/-- **Equality and hash**: a token is equal to itself unless its literal is a NaN. To another token
it is equal only if they differ in the sign of a zero, and with equal tokens that do a hasher is not
fed alike. Equality of any tokens is symmetric and transitive. -/
theorem tokens_equal_as_numbers (t u v : Token) :
    ((t == u) = true ↔ t = u ∧ t.hasNaN = false ∨ t.OppositeZeros u) ∧
    ((t == t) = true ↔ t.hasNaN = false) ∧
    (t == u) = (u == t) ∧
    ((t == u) = true → (u == v) = true → (t == v) = true) ∧
    ((t == u) = true → (t.key.feed ≠ u.key.feed ↔ t.OppositeZeros u)) := by
  have cases : (t == u) = true ↔ t = u ∧ t.hasNaN = false ∨ t.OppositeZeros u := by
    rw [Token.beq_iff, Token.representative_eq_iff]
    constructor
    · rintro ⟨number, same | zeros⟩
      · exact Or.inl ⟨same, number⟩
      · exact Or.inr zeros
    · rintro (⟨same, number⟩ | zeros)
      · exact ⟨number, Or.inl same⟩
      · exact ⟨zeros.hasNaN, Or.inr zeros⟩
  refine ⟨cases, ?_, ?_, fun equal equal' => ?_, fun equal => ?_⟩
  · rw [Token.beq_iff, eq_self, and_true]
  · exact Bool.eq_iff_iff.mpr ⟨Token.beq_symm, Token.beq_symm⟩
  · rw [Token.beq_iff] at equal equal' ⊢
    exact ⟨equal.1, equal.2.trans equal'.2⟩
  · rw [ne_eq, Token.Key.feed_inj, Token.key_inj]
    rcases cases.mp equal with ⟨rfl, -⟩ | zeros
    · exact iff_of_false (not_not_intro rfl) fun zeros => zeros.ne rfl
    · exact iff_of_true zeros.ne zeros

/-- A zero without a sign is equal to the one with it and so to itself, but a hasher is fed with
other data. -/
theorem zeros_equal_as_numbers :
    let zero : Binary64 := .ofBits 0
    let negativeZero : Binary64 := .ofBits 0x8000000000000000
    let t : Token := ⟨.number, "0", some (.number zero), 1⟩
    let u : Token := ⟨.number, "0", some (.number negativeZero), 1⟩
    (t == u) = true ∧ (u == t) = true ∧ (t == t) = true ∧ t.key.feed ≠ u.key.feed := by
  intro zero negativeZero t u
  have zeros : t.OppositeZeros u :=
    ⟨rfl, rfl, rfl, _, rfl, _, rfl, rfl, rfl, by decide⟩
  obtain ⟨cases, -, comm, trans, apart⟩ := tokens_equal_as_numbers t u t
  have equal := cases.mpr (Or.inr zeros)
  have equal' : (u == t) = true := comm ▸ equal
  exact ⟨equal, equal', trans equal equal', (apart equal).mpr zeros⟩

/-- Not every token is equal to itself, and not all equal tokens have the same data in a hash. -/
theorem equality_is_not_of_data :
    (¬ ∀ t : Token, (t == t) = true) ∧
    ¬ ∀ t u : Token, (t == u) = true → t.key.feed = u.key.feed := by
  let token (bits : Nat) : Token := ⟨.number, "0", some (.number (.ofBits bits)), 1⟩
  constructor
  · intro reflexive
    have nan : (token 0x7FF8000000000000 == token 0x7FF8000000000000) = false := by decide
    rw [reflexive] at nan
    cases nan
  · intro fed
    have zeros : (token 0 == token 0x8000000000000000) = true := by decide
    have keys := Token.Key.feed_inj.mp (fed _ _ zeros)
    exact absurd keys (by decide)

end LoxLexer
