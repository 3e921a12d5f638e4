import LoxLexer.Proofs.Cutting
import LoxLexer.Proofs.Json.Grammar

/-!
A text denotes one JSON value at most.

Wherever something is written, it can be read in one way only, and ends at one place. What is
there shows at its first character. Only a number does not say where it ends, and in a document
nothing that `Ends` it could prolong it.
-/

namespace LoxLexer

namespace Json

/-- What can stand behind a value in a document. -/
def Ends (t : List Char) : Prop := ∀ c ∈ t.head?, Blank c ∨ c ∈ [',', ']', '}']

instance (c : Char) : Decidable (Blank c) := inferInstanceAs (Decidable (c ∈ _))

lemma Ends.not_mem_head? {t : List Char} (h : Ends t) {c : Char}
    (hc : ¬ (Blank c ∨ c ∈ [',', ']', '}'])) : c ∉ t.head? := fun mem => hc (h c mem)

lemma Blank.not_isDigit {c : Char} (h : Blank c) : ¬ c.isDigit := by
  rw [Blank] at h
  fin_cases h <;> decide

lemma Ends.not_isDigit {t : List Char} (h : Ends t) : ∀ c ∈ t.head?, ¬ c.isDigit := by
  intro c hc
  rcases h c hc with blank | hc
  · exact blank.not_isDigit
  · fin_cases hc <;> decide

/-! ### Blanks -/

/-- The text does not begin with a blank. -/
def Solid (t : List Char) : Prop := ∀ c ∈ t.head?, ¬ Blank c

lemma Blanks.unique {u t t' : List Char} (h : Blanks u t) (h' : Blanks u t') (solid : Solid t)
    (solid' : Solid t') : t = t' := by
  obtain ⟨bs, blank, rfl⟩ := h
  obtain ⟨bs', blank', same⟩ := h'
  have blanks {cs : List Char} (h : ∀ c ∈ cs, Blank c) : ∀ c ∈ cs, decide (Blank c) :=
    fun c hc => decide_eq_true (h c hc)
  have stop {cs : List Char} (h : Solid cs) : ∀ c ∈ cs.head?, ¬ decide (Blank c) :=
    fun c hc => by simpa using h c hc
  exact (Piece.append_inj_of_stop (blanks blank) (blanks blank') (stop solid) (stop solid') same).2

lemma solid_cons {c : Char} (h : ¬ Blank c) (t : List Char) : Solid (c :: t) := by
  intro d hd
  obtain rfl := Option.some.inj hd
  exact h

lemma Blanks.unique_cons {u t t' : List Char} {c c' : Char} (h : Blanks u (c :: t))
    (h' : Blanks u (c' :: t')) (hc : ¬ Blank c) (hc' : ¬ Blank c') : c = c' ∧ t = t' :=
  List.cons.inj (h.unique h' (solid_cons hc t) (solid_cons hc' t'))

lemma Blanks.ends {u t : List Char} (h : Blanks u t) (ends : Ends t) : Ends u := by
  obtain ⟨bs, blank, rfl⟩ := h
  cases bs with
  | nil => exact ends
  | cons b bs =>
    intro c hc
    obtain rfl : b = c := by simpa using hc
    exact Or.inl (blank b (by simp))

/-! ### Numbers -/

lemma Digits.unique {u t t' ds ds' : List Char} (h : Digits u ds t) (h' : Digits u ds' t')
    (stop : ∀ c ∈ t.head?, ¬ c.isDigit) (stop' : ∀ c ∈ t'.head?, ¬ c.isDigit) :
    ds = ds' ∧ t = t' :=
  Piece.append_inj_of_stop h.digits h'.digits stop stop' (h.text.symm.trans h'.text)

lemma Digits.head {u ds t : List Char} (h : Digits u ds t) : ∃ c ∈ u.head?, c.isDigit := by
  obtain ⟨c, cs, rfl⟩ := List.exists_cons_of_ne_nil h.ne
  exact ⟨c, by simp [h.text], h.digits c (by simp)⟩

lemma Digits.not_cons {c : Char} {u ds t : List Char} (h : Digits (c :: u) ds t)
    (hc : ¬ c.isDigit) : False := by
  obtain ⟨d, hd, digit⟩ := h.head
  obtain rfl : c = d := by simpa using hd
  exact hc digit

lemma Sign.unique {u v v' : List Char} {b b' : Bool} (h : Sign u b v) (h' : Sign u b' v')
    (head : ∃ c ∈ v.head?, c.isDigit) (head' : ∃ c ∈ v'.head?, c.isDigit) : b = b' ∧ v = v' := by
  have minus : ¬ ('-').isDigit := by decide
  cases h with
  | positive =>
    cases h' with
    | positive => exact ⟨rfl, rfl⟩
    | negative => simp [minus] at head
  | negative =>
    cases h' with
    | positive => simp [minus] at head'
    | negative => exact ⟨rfl, rfl⟩

lemma ExponentSign.unique {u v v' : List Char} {b b' : Bool} (h : ExponentSign u b v)
    (h' : ExponentSign u b' v') (head : ∃ c ∈ v.head?, c.isDigit)
    (head' : ∃ c ∈ v'.head?, c.isDigit) : b = b' ∧ v = v' := by
  have signs : ¬ ('-').isDigit ∧ ¬ ('+').isDigit := by decide
  cases h with
  | absent =>
    cases h' with
    | absent => exact ⟨rfl, rfl⟩
    | plus => simp [signs] at head
    | minus => simp [signs] at head
  | plus =>
    cases h' with
    | absent => simp [signs] at head'
    | plus => exact ⟨rfl, rfl⟩
  | minus =>
    cases h' with
    | absent => simp [signs] at head'
    | minus => exact ⟨rfl, rfl⟩

lemma Exponent.head {u t : List Char} {e : Option Int} (h : Exponent u e t) (ends : Ends t) :
    ∀ c ∈ u.head?, ¬ c.isDigit ∧ c ≠ '.' := by
  cases h with
  | absent =>
    intro c hc
    refine ⟨ends.not_isDigit c hc, ?_⟩
    rintro rfl
    exact ends.not_mem_head? (by decide) hc
  | present letter =>
    intro c hc
    obtain rfl := Option.some.inj hc
    rcases letter with rfl | rfl <;> decide

lemma Exponent.unique {u t t' : List Char} {e e' : Option Int} (h : Exponent u e t)
    (h' : Exponent u e' t') (ends : Ends t) (ends' : Ends t') : e = e' ∧ t = t' := by
  have other {d : Char} (hd : d = 'e' ∨ d = 'E') : ¬ (Blank d ∨ d ∈ [',', ']', '}']) := by
    rcases hd with rfl | rfl <;> decide
  cases h with
  | absent =>
    cases h' with
    | absent => exact ⟨rfl, rfl⟩
    | present letter => exact absurd rfl (ends.not_mem_head? (other letter))
  | present letter sign digits =>
    cases h' with
    | absent => exact absurd rfl (ends'.not_mem_head? (other letter))
    | present letter' sign' digits' =>
      obtain ⟨rfl, rfl⟩ := sign.unique sign' digits.head digits'.head
      obtain ⟨rfl, rfl⟩ := digits.unique digits' ends.not_isDigit ends'.not_isDigit
      exact ⟨rfl, rfl⟩

lemma Fraction.head {u t fs : List Char} (h : Fraction u fs t) (stop : ∀ c ∈ t.head?, ¬ c.isDigit) :
    ∀ c ∈ u.head?, ¬ c.isDigit := by
  cases h with
  | absent => exact stop
  | present =>
    intro c hc
    obtain rfl := Option.some.inj hc
    decide

lemma Fraction.unique {u t t' fs fs' : List Char} (h : Fraction u fs t) (h' : Fraction u fs' t')
    (stop : ∀ c ∈ t.head?, ¬ c.isDigit ∧ c ≠ '.') (stop' : ∀ c ∈ t'.head?, ¬ c.isDigit ∧ c ≠ '.') :
    fs = fs' ∧ t = t' := by
  cases h with
  | absent =>
    cases h' with
    | absent => exact ⟨rfl, rfl⟩
    | present =>
      obtain ⟨-, other⟩ := stop '.' rfl
      exact absurd rfl other
  | present digits =>
    cases h' with
    | absent =>
      obtain ⟨-, other⟩ := stop' '.' rfl
      exact absurd rfl other
    | present digits' =>
      exact digits.unique digits' (fun c hc => (stop c hc).1) fun c hc => (stop' c hc).1

lemma Number.unique {u t t' : List Char} {n n' : Numeral} (h : Number u n t)
    (h' : Number u n' t') (ends : Ends t) (ends' : Ends t') : n = n' ∧ t = t' := by
  obtain ⟨sign, digits, -, point, power⟩ := h
  obtain ⟨sign', digits', -, point', power'⟩ := h'
  have stop := power.head ends
  have stop' := power'.head ends'
  obtain ⟨rfl, rfl⟩ := sign.unique sign' digits.head digits'.head
  obtain ⟨rfl, rfl⟩ := digits.unique digits' (point.head fun c hc => (stop c hc).1)
    (point'.head fun c hc => (stop' c hc).1)
  obtain ⟨rfl, rfl⟩ := point.unique point' stop stop'
  obtain ⟨rfl, rfl⟩ := power.unique power' ends ends'
  exact ⟨rfl, rfl⟩

lemma Number.head {c : Char} {u t : List Char} {n : Numeral} (h : Number (c :: u) n t) :
    c = '-' ∨ c.isDigit := by
  obtain ⟨sign, digits, -, -, -⟩ := h
  cases sign with
  | positive =>
    by_contra other
    exact digits.not_cons fun digit => other (Or.inr digit)
  | negative => exact Or.inl rfl

/-! ### Strings -/

lemma Character.ne_quote {u t : List Char} {c d : Char} (h : Character (d :: u) c t) : d ≠ '"' := by
  cases h with
  | plain _ quote => exact quote
  | escaped => decide
  | code => decide
  | pair => decide

lemma Character.unique {u t t' : List Char} {c c' : Char} (h : Character u c t)
    (h' : Character u c' t') : c = c' ∧ t = t' := by
  have letter {d : Char} : ('u', d) ∉ escapes := by simp [escapes]
  cases h with
  | plain _ _ backslash =>
    cases h' with
    | plain => exact ⟨rfl, rfl⟩
    | escaped => exact absurd rfl backslash
    | code => exact absurd rfl backslash
    | pair => exact absurd rfl backslash
  | @escaped e c t h =>
    cases h' with
    | plain _ _ backslash => exact absurd rfl backslash
    | escaped h' =>
      have table : ∀ p ∈ escapes, ∀ q ∈ escapes, p.1 = q.1 → p.2 = q.2 := by decide
      exact ⟨table _ h _ h' rfl, rfl⟩
    | code => exact absurd h letter
    | pair => exact absurd h letter
  | code unit high low =>
    cases h' with
    | plain _ _ backslash => exact absurd rfl backslash
    | escaped h' => exact absurd h' letter
    | code unit' =>
      obtain rfl := Option.some.inj (unit.symm.trans unit')
      exact ⟨rfl, rfl⟩
    | pair unit' _ high' =>
      obtain rfl := Option.some.inj (unit.symm.trans unit')
      exact absurd high' high
  | pair unit unit₂ high low =>
    cases h' with
    | plain _ _ backslash => exact absurd rfl backslash
    | escaped h' => exact absurd h' letter
    | code unit' high' =>
      obtain rfl := Option.some.inj (unit.symm.trans unit')
      exact absurd high high'
    | pair unit' unit₂' =>
      obtain rfl := Option.some.inj (unit.symm.trans unit')
      obtain rfl := Option.some.inj (unit₂.symm.trans unit₂')
      exact ⟨rfl, rfl⟩

lemma Characters.unique {u t t' cs cs' : List Char} (h : Characters u cs t)
    (h' : Characters u cs' t') : cs = cs' ∧ t = t' := by
  induction h generalizing cs' t' with
  | close t =>
    cases h' with
    | close => exact ⟨rfl, rfl⟩
    | cons first => exact absurd rfl first.ne_quote
  | cons first _ ih =>
    cases h' with
    | close => exact absurd rfl first.ne_quote
    | cons first' tail' =>
      obtain ⟨rfl, rfl⟩ := first.unique first'
      obtain ⟨rfl, rfl⟩ := ih tail'
      exact ⟨rfl, rfl⟩

/-! ### Values -/

/-- What a value can begin with. -/
def Opens (c : Char) : Prop := c ∈ ['n', 't', 'f', '"', '[', '{', '-'] ∨ c.isDigit

lemma Opens.not_blank {c : Char} (h : Opens c) : ¬ Blank c := by
  intro blank
  rcases h with h | digit
  · fin_cases h <;> revert blank <;> decide
  · exact blank.not_isDigit digit

lemma Opens.not_mem {c : Char} (h : Opens c) : c ∉ [',', ']', '}'] := by
  intro mem
  rcases h with h | digit
  · fin_cases h <;> revert mem <;> decide
  · fin_cases mem <;> revert digit <;> decide

lemma Number.opens {u t : List Char} {n : Numeral} (h : Number u n t) :
    ∃ c v, u = c :: v ∧ Opens c := by
  cases u with
  | nil =>
    obtain ⟨sign, digits, -, -, -⟩ := h
    cases sign
    obtain ⟨c, hc, -⟩ := digits.head
    simp at hc
  | cons c v =>
    refine ⟨c, v, rfl, ?_⟩
    rcases h.head with rfl | digit
    · exact Or.inl (by decide)
    · exact Or.inr digit

lemma Written.value_opens {u t : List Char} {v : Value} (h : Written u (.value v) t) :
    ∃ c w, u = c :: w ∧ Opens c := by
  cases h with
  | number h => exact h.opens
  | _ => exact ⟨_, _, rfl, Or.inl (by decide)⟩

lemma Written.value_solid {u t : List Char} {v : Value} (h : Written u (.value v) t) : Solid u := by
  obtain ⟨c, w, rfl, opens⟩ := h.value_opens
  exact solid_cons opens.not_blank w

lemma Written.member_solid {u t : List Char} {m : String × Value} (h : Written u (.member m) t) :
    Solid u := by
  cases h
  exact solid_cons (by decide) _

/-- A bracket that closes an array is no element of it. -/
lemma Written.not_close {u v t w : List Char} {e : Value} (h : Written v (.value e) w)
    (blanks : Blanks u v) : ¬ Blanks u (']' :: t) := by
  intro close
  obtain rfl := blanks.unique close h.value_solid (solid_cons (by decide) t)
  obtain ⟨c, w, same, opens⟩ := h.value_opens
  obtain ⟨rfl, -⟩ := List.cons.inj same
  exact absurd (by decide) opens.not_mem

lemma Written.not_close_object {u v t w : List Char} {m : String × Value}
    (h : Written v (.member m) w) (blanks : Blanks u v) : ¬ Blanks u ('}' :: t) := by
  intro close
  obtain rfl := blanks.unique close h.member_solid (solid_cons (by decide) t)
  cases h

lemma ends_cons {c : Char} (h : c ∈ [',', ']', '}']) (t : List Char) : Ends (c :: t) := by
  intro d hd
  obtain rfl := Option.some.inj hd
  exact Or.inr h

lemma Written.elements_ends {u t : List Char} {es : List Value} (h : Written u (.elements es) t) :
    Ends u := by
  cases h with
  | endArray blanks => exact blanks.ends (ends_cons (by decide) _)
  | element comma => exact comma.ends (ends_cons (by decide) _)

lemma Written.members_ends {u t : List Char} {ms : List (String × Value)}
    (h : Written u (.members ms) t) : Ends u := by
  cases h with
  | endObject blanks => exact blanks.ends (ends_cons (by decide) _)
  | another comma => exact comma.ends (ends_cons (by decide) _)

/-- The text begins with no other phrase of this kind, and this one ends nowhere else. -/
def Phrase.Unique (u t : List Char) : Phrase → Prop
  | value v => Ends t → ∀ v' t', Written u (value v') t' → Ends t' → v = v' ∧ t = t'
  | elements es => ∀ es' t', Written u (elements es') t' → es = es' ∧ t = t'
  | member m => Ends t → ∀ m' t', Written u (member m') t' → Ends t' → m = m' ∧ t = t'
  | members ms => ∀ ms' t', Written u (members ms') t' → ms = ms' ∧ t = t'

theorem Written.unique {u t : List Char} {p : Phrase} (h : Written u p t) : p.Unique u t := by
  induction h with
  | null | true | false =>
    rintro - v' t' h' -
    cases h' with
    | number h' => exact absurd h'.head (by decide)
    | _ => exact ⟨rfl, rfl⟩
  | number h =>
    intro ends v' t' h' ends'
    cases h' with
    | number h' =>
      obtain ⟨rfl, rfl⟩ := h.unique h' ends ends'
      exact ⟨rfl, rfl⟩
    | _ => exact absurd h.head (by decide)
  | text h =>
    rintro - v' t' h' -
    cases h' with
    | text h' =>
      obtain ⟨rfl, rfl⟩ := h.unique h'
      exact ⟨rfl, rfl⟩
    | number h' => exact absurd h'.head (by decide)
  | emptyArray blanks =>
    rintro - v' t' h' -
    cases h' with
    | emptyArray blanks' =>
      exact ⟨rfl, (blanks.unique_cons blanks' (by decide) (by decide)).2⟩
    | array blanks' first' => exact absurd blanks (first'.not_close blanks')
    | number h' => exact absurd h'.head (by decide)
  | array blanks first others ih_first ih_others =>
    rintro - v' t' h' -
    cases h' with
    | emptyArray blanks' => exact absurd blanks' (first.not_close blanks)
    | array blanks' first' others' =>
      obtain rfl := blanks.unique blanks' first.value_solid first'.value_solid
      obtain ⟨rfl, rfl⟩ := ih_first others.elements_ends _ _ first' others'.elements_ends
      obtain ⟨rfl, rfl⟩ := ih_others _ _ others'
      exact ⟨rfl, rfl⟩
    | number h' => exact absurd h'.head (by decide)
  | emptyObject blanks =>
    rintro - v' t' h' -
    cases h' with
    | emptyObject blanks' =>
      exact ⟨rfl, (blanks.unique_cons blanks' (by decide) (by decide)).2⟩
    | object blanks' first' => exact absurd blanks (first'.not_close_object blanks')
    | number h' => exact absurd h'.head (by decide)
  | object blanks first others ih_first ih_others =>
    rintro - v' t' h' -
    cases h' with
    | emptyObject blanks' => exact absurd blanks' (first.not_close_object blanks)
    | object blanks' first' others' =>
      obtain rfl := blanks.unique blanks' first.member_solid first'.member_solid
      obtain ⟨rfl, rfl⟩ := ih_first others.members_ends _ _ first' others'.members_ends
      obtain ⟨rfl, rfl⟩ := ih_others _ _ others'
      exact ⟨rfl, rfl⟩
    | number h' => exact absurd h'.head (by decide)
  | endArray blanks =>
    intro es' t' h'
    cases h' with
    | endArray blanks' =>
      exact ⟨rfl, (blanks.unique_cons blanks' (by decide) (by decide)).2⟩
    | element comma' =>
      exact absurd (blanks.unique_cons comma' (by decide) (by decide)).1 (by decide)
  | element comma blanks first others ih_first ih_others =>
    intro es' t' h'
    cases h' with
    | endArray blanks' =>
      exact absurd (comma.unique_cons blanks' (by decide) (by decide)).1 (by decide)
    | element comma' blanks' first' others' =>
      obtain ⟨-, rfl⟩ := comma.unique_cons comma' (by decide) (by decide)
      obtain rfl := blanks.unique blanks' first.value_solid first'.value_solid
      obtain ⟨rfl, rfl⟩ := ih_first others.elements_ends _ _ first' others'.elements_ends
      obtain ⟨rfl, rfl⟩ := ih_others _ _ others'
      exact ⟨rfl, rfl⟩
  | member name colon blanks named ih =>
    intro ends m' t' h' ends'
    cases h' with
    | member name' colon' blanks' named' =>
      obtain ⟨rfl, rfl⟩ := name.unique name'
      obtain ⟨-, rfl⟩ := colon.unique_cons colon' (by decide) (by decide)
      obtain rfl := blanks.unique blanks' named.value_solid named'.value_solid
      obtain ⟨rfl, rfl⟩ := ih ends _ _ named' ends'
      exact ⟨rfl, rfl⟩
  | endObject blanks =>
    intro ms' t' h'
    cases h' with
    | endObject blanks' =>
      exact ⟨rfl, (blanks.unique_cons blanks' (by decide) (by decide)).2⟩
    | another comma' =>
      exact absurd (blanks.unique_cons comma' (by decide) (by decide)).1 (by decide)
  | another comma blanks first others ih_first ih_others =>
    intro ms' t' h'
    cases h' with
    | endObject blanks' =>
      exact absurd (comma.unique_cons blanks' (by decide) (by decide)).1 (by decide)
    | another comma' blanks' first' others' =>
      obtain ⟨-, rfl⟩ := comma.unique_cons comma' (by decide) (by decide)
      obtain rfl := blanks.unique blanks' first.member_solid first'.member_solid
      obtain ⟨rfl, rfl⟩ := ih_first others.members_ends _ _ first' others'.members_ends
      obtain ⟨rfl, rfl⟩ := ih_others _ _ others'
      exact ⟨rfl, rfl⟩

/-- **One reading**: a document denotes one value. -/
theorem Document.unique {s : String} {v w : Value} (h : Document s v) (h' : Document s w) :
    v = w := by
  have nothing : Ends [] := by simp [Ends]
  obtain ⟨u, t, blanks, value, behind⟩ := h
  obtain ⟨u', t', blanks', value', behind'⟩ := h'
  obtain rfl := blanks.unique blanks' value.value_solid value'.value_solid
  exact (value.unique (behind.ends nothing) _ _ value' (behind'.ends nothing)).1

end Json

end LoxLexer
