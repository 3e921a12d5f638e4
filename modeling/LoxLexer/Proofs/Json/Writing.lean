import LoxLexer.Json
import LoxLexer.Proofs.Json.Unambiguous
import LoxLexer.Proofs.Number.ReadBack

/-!
What is written for a JSON value denotes it.

A `Layout` only chooses blanks, `Layout.Spaced`, and those between two parts belong to neither.
So each part can be read where it is written, whatever stands behind it.
-/

namespace LoxLexer

/-- Digits on either side of the point, and no zeros in front. -/
structure Numeral.Proper (n : Numeral) : Prop where
  ne : n.whole ≠ []
  whole : ∀ c ∈ n.whole, c.isDigit
  zero : n.whole.head? = some '0' → n.whole = ['0']
  fraction : ∀ c ∈ n.fraction, c.isDigit

/-! ### The numerals that are written are proper -/

lemma isDigit_of_mem_toDigits {n : Nat} {c : Char} (hc : c ∈ Nat.toDigits 10 n) : c.isDigit :=
  Nat.isDigit_of_mem_toDigits (by decide) (by decide) hc

lemma eq_zero_of_head?_toDigits {n : Nat} (h : (Nat.toDigits 10 n).head? = some '0') : n = 0 := by
  induction n using Nat.strong_induction_on with
  | _ n ih =>
    rcases Nat.lt_or_ge n 10 with small | large
    · have digits : ∀ d < 10, Nat.digitChar d = '0' → d = 0 := by decide
      rw [Nat.toDigits_of_lt_base small] at h
      exact digits n small (Option.some.inj h)
    · have front : (Nat.toDigits 10 (n / 10)).head? = some '0' := by
        rw [Nat.toDigits_of_base_le (by decide) large,
          List.head?_append_of_ne_nil _ Nat.toDigits_ne_nil] at h
        exact h
      have := ih (n / 10) (by omega) front
      omega

lemma proper_natural (n : Nat) : (⟨false, Nat.toDigits 10 n, [], none⟩ : Numeral).Proper where
  ne := Nat.toDigits_ne_nil
  whole _ hc := isDigit_of_mem_toDigits hc
  zero h := by rw [eq_zero_of_head?_toDigits h]; rfl
  fraction := by simp

namespace Decimal

/-- Zeros are padded in front only up to the digit before the point. -/
lemma length_padded_of_zero {d : Decimal} (h : d.digits = 0 → d.exponent ≤ 0)
    (zero : d.padded.head? = some '0') : d.padded.length ≤ (-d.exponent).toNat + 1 := by
  by_contra long
  have length : d.padded.length = (-d.exponent).toNat + 1 -
      ((Nat.toDigits 10 d.digits).length + d.exponent.toNat) +
      ((Nat.toDigits 10 d.digits).length + d.exponent.toNat) := by
    simp only [padded, List.length_append, List.length_replicate]
  have unpadded : d.padded = Nat.toDigits 10 d.digits ++ List.replicate d.exponent.toNat '0' := by
    rw [padded, List.length_append, List.length_replicate, Nat.sub_eq_zero_of_le (by omega)]
    rfl
  rw [unpadded, List.head?_append_of_ne_nil _ Nat.toDigits_ne_nil] at zero
  have none := eq_zero_of_head?_toDigits zero
  have := h none
  rw [none, show (Nat.toDigits 10 0).length = 1 from rfl] at length
  omega

lemma proper_positional (negative : Bool) {d : Decimal} (h : d.digits = 0 → d.exponent ≤ 0) :
    (d.positional negative).Proper := by
  obtain ⟨-, -, -, -, whole, fraction, -⟩ := d.positional_spec negative
  obtain ⟨us, vs, halves, ne, behind, eq⟩ := d.exists_positional_eq negative
  rw [eq] at whole fraction ⊢
  refine ⟨ne, whole, fun zero => ?_, fraction⟩
  have single : us.length ≤ 1 := by
    have padding := length_padded_of_zero h
    rw [halves, List.head?_append_of_ne_nil _ ne, List.length_append, behind] at padding
    have := padding zero
    omega
  cases us with
  | nil => exact absurd rfl ne
  | cons u us =>
    obtain rfl : u = '0' := Option.some.inj zero
    obtain rfl : us = [] := by simpa using single
    rfl

lemma proper_scientific (negative : Bool) (d : Decimal) : (d.scientific negative).Proper := by
  obtain ⟨c, cs, digits⟩ :=
    List.exists_cons_of_ne_nil (Nat.toDigits_ne_nil (n := d.digits) (b := 10))
  have all := @isDigit_of_mem_toDigits d.digits
  rw [digits] at all
  unfold scientific
  rw [digits]
  refine ⟨by simp, ?_, ?_, fun e he => all (List.mem_cons_of_mem c he)⟩
  · intro e he
    obtain rfl := List.mem_singleton.mp he
    exact all (by simp)
  · intro zero
    obtain rfl : c = '0' := Option.some.inj zero
    rfl

end Decimal

namespace Numeral

lemma shortest_of_digits_eq_zero {ties : Ties} {x : Binary64}
    (hx : x.magnitude ≤ Binary64.infinity) (h : (x.shortest ties).digits = 0) :
    (x.shortest ties).exponent = 0 := by
  have zero : x.magnitude = 0 := by
    have nothing : Binary64.nearest 0 1 = 0 :=
      Binary64.nearest_eq (Nat.zero_le _) (by decide +kernel)
    rw [← nothing]
    refine (nearest_shortest ties hx one_pos ?_).symm
    simp [Decimal.value, h]
  rw [Binary64.shortest, if_pos zero]

/-- The numeral of a finite double has no zeros in front, in whatever style. -/
theorem Style.proper_numeral (s : Style) {x : Binary64} (hx : x.isFinite) :
    (s.numeral x).Proper := by
  have finite := magnitude_le_of_isFinite hx
  have zero : (s.decimal x).digits = 0 → (s.decimal x).exponent ≤ 0 := by
    unfold Style.decimal
    split
    · exact fun _ => le_rfl
    · exact fun h => (shortest_of_digits_eq_zero finite h).le
  unfold Style.numeral
  dsimp only
  split
  · exact Decimal.proper_positional _ zero
  · exact Decimal.proper_scientific _ _

end Numeral

namespace Json

lemma blanks_refl (t : List Char) : Blanks t t := ⟨[], by simp, rfl⟩

/-! ### Numbers -/

lemma exponent_exponentText (e : Int) (t : List Char) :
    Exponent (Numeral.exponentText e ++ t) (some e) t := by
  have digits : Digits (Nat.toDigits 10 e.natAbs ++ t) (Nat.toDigits 10 e.natAbs) t :=
    ⟨Nat.toDigits_ne_nil, fun _ hc => isDigit_of_mem_toDigits hc, rfl⟩
  unfold Numeral.exponentText
  split
  · next negative =>
    have written := Exponent.present (Or.inl rfl) (.minus _) digits
    have value : (-(Nat.ofDigitChars 10 (Nat.toDigits 10 e.natAbs) 0 : Nat) : Int) = e := by
      rw [Nat.ofDigitChars_ten_toDigits]
      omega
    rwa [if_pos rfl, value] at written
  · next positive =>
    have written := Exponent.present (Or.inl rfl) (.plus _) digits
    have value : ((Nat.ofDigitChars 10 (Nat.toDigits 10 e.natAbs) 0 : Nat) : Int) = e := by
      rw [Nat.ofDigitChars_ten_toDigits]
      omega
    rwa [if_neg (by decide), value] at written

lemma number_chars {n : Numeral} (h : n.Proper) (t : List Char) : Number (n.chars ++ t) n t := by
  obtain ⟨negative, whole, fraction, exponent⟩ := n
  have power : Exponent ((exponent.map Numeral.exponentText).getD [] ++ t) exponent t := by
    cases exponent with
    | none => exact .absent t
    | some e => exact exponent_exponentText e t
  have point (u : List Char) :
      Fraction ((if fraction.isEmpty then [] else '.' :: fraction) ++ u) fraction u := by
    cases fraction with
    | nil => exact .absent u
    | cons d ds => exact .present ⟨List.cons_ne_nil d ds, h.fraction, rfl⟩
  have sign (u : List Char) : Sign ((if negative then ['-'] else []) ++ u) negative u := by
    cases negative with
    | false => exact .positive u
    | true => exact .negative u
  simp only [Numeral.chars, List.append_assoc]
  exact .mk (sign _) ⟨h.ne, h.whole, rfl⟩ h.zero (point _) power

/-! ### Strings -/

lemma hexDigit?_digitChar {d : Nat} (hd : d < 16) : hexDigit? (Nat.digitChar d) = some d := by
  revert d
  decide

/-- A control character is written as its code unit. -/
lemma character_of_control {c : Char} (hc : c < ' ') (t : List Char) :
    Character ('\\' :: 'u' :: '0' :: '0' :: Nat.digitChar (c.toNat / 16) ::
      Nat.digitChar (c.toNat % 16) :: t) c t := by
  have small : c.toNat < 32 := hc
  have unit : codeUnit? '0' '0' (Nat.digitChar (c.toNat / 16)) (Nat.digitChar (c.toNat % 16)) =
      some c.toNat := by
    have zero : hexDigit? '0' = some 0 := by decide
    simp only [codeUnit?, zero, hexDigit?_digitChar (show c.toNat / 16 < 16 by omega),
      hexDigit?_digitChar (show c.toNat % 16 < 16 by omega), Option.pure_def, Option.bind_eq_bind,
      Option.bind_some, Option.some.injEq]
    omega
  have high : ¬ HighSurrogate c.toNat := fun h => absurd h.1 (by omega)
  have low : ¬ LowSurrogate c.toNat := fun h => absurd h.1 (by omega)
  have written := Character.code (t := t) unit high low
  rwa [Char.ofNat_toNat] at written

lemma character_escape (c : Char) (t : List Char) : Character (escape c ++ t) c t := by
  unfold escape
  split_ifs with quote backslash h h h h h control
  · rw [quote]
    exact .escaped (by decide)
  · rw [backslash]
    exact .escaped (by decide)
  iterate 5
    · rw [h]
      exact .escaped (by decide)
  · exact character_of_control control t
  · exact .plain (Char.not_lt.mp control) quote backslash

lemma characters_escape (cs t : List Char) :
    Characters (cs.flatMap escape ++ '"' :: t) cs t := by
  induction cs with
  | nil => exact .close t
  | cons c cs ih =>
    rw [List.flatMap_cons, List.append_assoc]
    exact .cons (character_escape c _) ih

lemma toList_quote (s : String) (t : List Char) :
    (quote s).toList ++ t = '"' :: (s.toList.flatMap escape ++ '"' :: t) := by
  simp [quote]

/-! ### Values -/

/-- A layout puts blanks between the parts, and nothing else. -/
structure Layout.Spaced (l : Layout) : Prop where
  gap (depth : Nat) : ∀ c ∈ (l.gap depth).toList, Blank c
  colon : ∃ bs, (∀ c ∈ bs, Blank c) ∧ l.colon.toList = ':' :: bs

/-- What a layout adds of its own. -/
def Filler (c : Char) : Prop := c = ' ' ∨ c = '\n'

instance (c : Char) : Decidable (Filler c) := inferInstanceAs (Decidable (_ ∨ _))

lemma Filler.blank {c : Char} (h : Filler c) : Blank c := by
  rcases h with rfl | rfl <;> decide

/-- A layout adds spaces and newlines, and nothing else. -/
structure Layout.Airy (l : Layout) : Prop where
  gap (depth : Nat) : ∀ c ∈ (l.gap depth).toList, Filler c
  colon : ∃ bs, (∀ c ∈ bs, Filler c) ∧ l.colon.toList = ':' :: bs

namespace Layout

lemma airy_compact : compact.Airy where
  gap _ := by simp [compact]
  colon := ⟨[], by simp, rfl⟩

lemma airy_pretty : pretty.Airy where
  gap depth c hc := by
    have : c = '\n' ∨ c ∈ List.replicate (2 * depth) ' ' := by simpa [pretty] using hc
    rcases this with rfl | hc
    · exact Or.inr rfl
    · exact Or.inl (List.eq_of_mem_replicate hc)
  colon := ⟨[' '], by simp [Filler], rfl⟩

lemma Airy.spaced {l : Layout} (h : l.Airy) : l.Spaced where
  gap depth c hc := (h.gap depth c hc).blank
  colon := by
    obtain ⟨bs, filler, colon⟩ := h.colon
    exact ⟨bs, fun c hc => (filler c hc).blank, colon⟩

theorem spaced_compact : compact.Spaced := airy_compact.spaced

theorem spaced_pretty : pretty.Spaced := airy_pretty.spaced

lemma Spaced.blanks {l : Layout} (h : l.Spaced) (depth : Nat) (t : List Char) :
    Blanks ((l.gap depth).toList ++ t) t := ⟨_, h.gap depth, rfl⟩

end Layout

mutual

/-- What a text of the value denotes. -/
def value : Json → Value
  | null => .null
  | text s => .text s
  | number n => .number n
  | array es => .array (values es)
  | object ms => .object (memberValues ms)

def values : List Json → List Value
  | [] => []
  | e :: es => e.value :: values es

def memberValues : List (String × Json) → List (String × Value)
  | [] => []
  | (key, value) :: ms => (key, value.value) :: memberValues ms

end

/-- All numbers in the value are proper. -/
inductive Proper : Json → Prop where
  | null : Proper null
  | text (s) : Proper (text s)
  | number {n} (h : n.Proper) : Proper (number n)
  | array {es} (h : ∀ e ∈ es, Proper e) : Proper (array es)
  | object {ms} (h : ∀ m ∈ ms, Proper m.2) : Proper (object ms)

/-- What is written for `j` at any depth can be read as its value, whatever stands behind it. -/
def Spells (l : Layout) (j : Json) : Prop :=
  ∀ depth t, Written ((j.write l depth "").toList ++ t) (.value j.value) t

lemma toList_write (l : Layout) (depth : Nat) (out : String) (j : Json) :
    (j.write l depth out).toList = out.toList ++ (j.write l depth "").toList := by
  rw [← String.toList_append, ← append_write, String.append_empty]

lemma toList_writeElements (l : Layout) (depth : Nat) (out : String) (es : List Json) :
    (writeElements l depth out es).toList = out.toList ++ (writeElements l depth "" es).toList := by
  rw [← String.toList_append, ← append_writeElements, String.append_empty]

lemma toList_writeMembers (l : Layout) (depth : Nat) (out : String) (ms : List (String × Json)) :
    (writeMembers l depth out ms).toList = out.toList ++ (writeMembers l depth "" ms).toList := by
  rw [← String.toList_append, ← append_writeMembers, String.append_empty]

lemma toList_write_array (l : Layout) (depth : Nat) (e : Json) (es : List Json) :
    ((array (e :: es)).write l depth "").toList =
      '[' :: ((l.gap (depth + 1)).toList ++ ((e.write l (depth + 1) "").toList ++
        ((writeElements l (depth + 1) "" es).toList ++ ((l.gap depth).toList ++ [']'])))) := by
  rw [write, String.toList_append, String.toList_append, toList_writeElements, toList_write]
  simp

lemma toList_writeElements_cons (l : Layout) (depth : Nat) (e : Json) (es : List Json) :
    (writeElements l depth "" (e :: es)).toList =
      ',' :: ((l.gap depth).toList ++ ((e.write l depth "").toList ++
        (writeElements l depth "" es).toList)) := by
  rw [writeElements, toList_writeElements, toList_write]
  simp

lemma toList_write_object (l : Layout) (depth : Nat) (key : String) (j : Json)
    (ms : List (String × Json)) :
    ((object ((key, j) :: ms)).write l depth "").toList =
      '{' :: ((l.gap (depth + 1)).toList ++ ((quote key).toList ++ (l.colon.toList ++
        ((j.write l (depth + 1) "").toList ++ ((writeMembers l (depth + 1) "" ms).toList ++
          ((l.gap depth).toList ++ ['}'])))))) := by
  rw [write, String.toList_append, String.toList_append, toList_writeMembers, toList_write]
  simp

lemma toList_writeMembers_cons (l : Layout) (depth : Nat) (key : String) (j : Json)
    (ms : List (String × Json)) :
    (writeMembers l depth "" ((key, j) :: ms)).toList =
      ',' :: ((l.gap depth).toList ++ ((quote key).toList ++ (l.colon.toList ++
        ((j.write l depth "").toList ++ (writeMembers l depth "" ms).toList)))) := by
  rw [writeMembers, toList_writeMembers, toList_write]
  simp

section

variable {l : Layout} (spaced : l.Spaced)
include spaced

lemma written_elements {es : List Json} (h : ∀ e ∈ es, Spells l e) (depth : Nat) (t : List Char) :
    Written ((writeElements l (depth + 1) "" es).toList ++ ((l.gap depth).toList ++ ']' :: t))
      (.elements (values es)) t := by
  induction es with
  | nil => exact .endArray (spaced.blanks depth _)
  | cons e es ih =>
    have first := h e (by simp) (depth + 1)
    have others := ih fun d hd => h d (List.mem_cons_of_mem e hd)
    simp only [toList_writeElements_cons, List.cons_append, List.append_assoc]
    exact .element (blanks_refl _) (spaced.blanks (depth + 1) _) (first _) others

lemma spells_array {es : List Json} (h : ∀ e ∈ es, Spells l e) : Spells l (array es) := by
  intro depth t
  cases es with
  | nil => simpa [write, value, values] using Written.emptyArray (blanks_refl (']' :: t))
  | cons e es =>
    have first := h e (by simp) (depth + 1)
    have others := written_elements spaced (fun d hd => h d (List.mem_cons_of_mem e hd)) depth t
    simp only [toList_write_array, List.cons_append, List.append_assoc]
    exact .array (spaced.blanks (depth + 1) _) (first _) others

/-- The quoted key, the colon and the value of a member. -/
lemma written_member (key : String) {j : Json} (h : Spells l j) (depth : Nat) (t : List Char) :
    Written ((quote key).toList ++ (l.colon.toList ++ ((j.write l depth "").toList ++ t)))
      (.member (key, j.value)) t := by
  obtain ⟨bs, blank, colon⟩ := spaced.colon
  have written := Written.member (characters_escape key.toList _) (blanks_refl _)
    ⟨bs, blank, rfl⟩ (h depth t)
  rw [toList_quote, colon]
  rwa [String.ofList_toList] at written

lemma written_members {ms : List (String × Json)} (h : ∀ m ∈ ms, Spells l m.2) (depth : Nat)
    (t : List Char) :
    Written ((writeMembers l (depth + 1) "" ms).toList ++ ((l.gap depth).toList ++ '}' :: t))
      (.members (memberValues ms)) t := by
  induction ms with
  | nil => exact .endObject (spaced.blanks depth _)
  | cons m ms ih =>
    obtain ⟨key, j⟩ := m
    have first := written_member spaced key (h (key, j) (by simp)) (depth + 1)
    have others := ih fun m hm => h m (List.mem_cons_of_mem _ hm)
    simp only [toList_writeMembers_cons, List.cons_append, List.append_assoc]
    exact .another (blanks_refl _) (spaced.blanks (depth + 1) _) (first _) others

lemma spells_object {ms : List (String × Json)} (h : ∀ m ∈ ms, Spells l m.2) :
    Spells l (object ms) := by
  intro depth t
  cases ms with
  | nil => simpa [write, value, memberValues] using Written.emptyObject (blanks_refl ('}' :: t))
  | cons m ms =>
    obtain ⟨key, j⟩ := m
    have first := written_member spaced key (h (key, j) (by simp)) (depth + 1)
    have others := written_members spaced (fun m hm => h m (List.mem_cons_of_mem _ hm)) depth t
    simp only [toList_write_object, List.cons_append, List.append_assoc]
    exact .object (spaced.blanks (depth + 1) _) (first _) others

lemma Proper.spells {j : Json} (h : j.Proper) : Spells l j := by
  induction h with
  | null =>
    intro depth t
    simpa [write, value] using Written.null t
  | text s =>
    intro depth t
    have written := Written.text (characters_escape s.toList t)
    rw [String.ofList_toList, ← toList_quote] at written
    simpa [write, value] using written
  | number h =>
    intro depth t
    have written := Written.number (number_chars h t)
    simpa [write, value, Numeral.text] using written
  | array _ ih => exact spells_array spaced ih
  | object _ ih => exact spells_object spaced ih

/-- **Writing**: the text of a JSON value is a document that denotes it, in every layout. -/
theorem Proper.denotes_render {j : Json} (h : j.Proper) : Denotes (j.render l) j.value := by
  have document : Document (j.render l) j.value := by
    have written := h.spells spaced 0 []
    rw [List.append_nil] at written
    exact ⟨_, [], (blanks_refl _), written, (blanks_refl _)⟩
  exact ⟨document, fun w other => other.unique document⟩

end

end Json

end LoxLexer
