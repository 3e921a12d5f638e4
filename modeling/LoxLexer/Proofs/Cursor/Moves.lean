import LoxLexer.Proofs.Cursor.Peeking
import LoxLexer.Proofs.LineBreak

/-!
A cursor in a source, by offsets in UTF-8.

It knows its place twice: by the characters ahead, each with the offset where it stands, and by the
offset that it has come to. Whatever it does, it `Takes` some of these characters. Past a
first character it takes the rest of the piece that `cut` finds there, `passes_pass`.
-/

namespace LoxLexer

structure Cursor (σ : Type) where
  source : String
  /-- The characters ahead, each with its offset. -/
  chars : σ
  /-- Where the lexeme begins. -/
  start : Nat
  /-- Where the characters that have been taken end. -/
  current : Nat
  line : Nat

/-- What a lexeme turns out to be when the cursor is behind it. -/
inductive Shape where
  | trivia
  | mark (m : Mark)
  | word
  | number
  | string
  | fault (f : Fault)

namespace Piece

def shape : Piece → Shape
  | blank _ | comment _ => .trivia
  | mark m => .mark m
  | word _ => .word
  | number _ _ => .number
  | string _ => .string
  | openString _ => .fault .unterminatedString
  | stray c => .fault (.unexpectedCharacter c)

end Piece

namespace Cursor

/-- Characters with their offsets, of which the first is `n`. -/
def indices (n : Nat) : List Char → List (Nat × Char)
  | [] => []
  | x :: xs => (n, x) :: indices (n + x.utf8Size) xs

variable {σ : Type} [Peeking σ (Nat × Char)] {c d e : Cursor σ}

def ofSource (source : String) : Cursor σ :=
  ⟨source, Peeking.ofList (indices 0 source.toList), 0, 0, 1⟩

/-! ### Moves -/

/-- Begins a lexeme. -/
def begin (c : Cursor σ) : Cursor σ := { c with start := c.current }

/-- Counts the line that the character `x` ends. -/
def countNewline (x : Char) (c : Cursor σ) : Cursor σ :=
  if x = '\n' then { c with line := c.line + 1 } else c

def advance (c : Cursor σ) : Option Char × Cursor σ :=
  match Peeking.next c.chars with
  | (none, chars) => (none, { c with chars })
  | (some (offset, x), chars) => (some x, { c with chars, current := offset + x.utf8Size })

/-- The character that so many others are in front of. -/
def peek (n : Nat) (c : Cursor σ) : Option Char × Cursor σ :=
  let (seen, chars) := Peeking.peek n c.chars
  (seen.map Prod.snd, { c with chars })

/-- The characters ahead, each with its offset. -/
def ahead (c : Cursor σ) : List (Nat × Char) := Peeking.left c.chars

def text (c : Cursor σ) : List Char := c.ahead.map Prod.snd

/-- Where the last of some characters ends. -/
def endFrom (n : Nat) : List (Nat × Char) → Nat
  | [] => n
  | (offset, x) :: w => endFrom (offset + x.utf8Size) w

lemma endFrom_append (n : Nat) (u v : List (Nat × Char)) :
    endFrom n (u ++ v) = endFrom (endFrom n u) v := by
  induction u generalizing n with
  | nil => rfl
  | cons p u ih => exact ih _

/-- The cursor gets from `c` to `d`, some lines further down, by taking the characters `cs`. -/
structure Takes (c : Cursor σ) (cs : List Char) (lines : Nat) (d : Cursor σ) : Prop where
  source : d.source = c.source
  start : d.start = c.start
  line : d.line = c.line + lines
  ahead : ∃ w, w.map Prod.snd = cs ∧ c.ahead = w ++ d.ahead ∧ d.current = endFrom c.current w

lemma Takes.refl (c : Cursor σ) : Takes c [] 0 c := ⟨rfl, rfl, rfl, [], rfl, rfl, rfl⟩

lemma Takes.trans {us vs : List Char} {m n : Nat} (h : Takes c us m d) (h' : Takes d vs n e) :
    Takes c (us ++ vs) (m + n) e := by
  obtain ⟨u, rfl, hu, current⟩ := h.ahead
  obtain ⟨v, rfl, hv, current'⟩ := h'.ahead
  refine ⟨h'.source.trans h.source, h'.start.trans h.start, ?_, u ++ v, List.map_append, ?_, ?_⟩
  · rw [h'.line, h.line, Nat.add_assoc]
  · rw [hu, hv, List.append_assoc]
  · rw [current', current, endFrom_append]

lemma Takes.text {cs : List Char} {n : Nat} (h : Takes c cs n d) : c.text = cs ++ d.text := by
  obtain ⟨w, rfl, hw, -⟩ := h.ahead
  rw [Cursor.text, hw, List.map_append]
  rfl

/-- What is left is known with what was there. -/
lemma Takes.text_of_append {us vs : List Char} {n : Nat} (h : Takes c us n d)
    (whole : c.text = us ++ vs) : d.text = vs :=
  List.append_cancel_left (h.text.symm.trans whole)

lemma Takes.length {cs : List Char} {n : Nat} (h : Takes c cs n d) :
    c.ahead.length = cs.length + d.ahead.length := by
  obtain ⟨w, rfl, hw, -⟩ := h.ahead
  rw [hw, List.length_append, List.length_map]

lemma takes_countNewline (x : Char) (c : Cursor σ) :
    Takes c [] ([x].count '\n') (c.countNewline x) := by
  unfold countNewline
  split
  · next h => exact ⟨rfl, rfl, by simp [h], [], rfl, rfl, rfl⟩
  · next h => exact ⟨rfl, rfl, by simp [h], [], rfl, rfl, rfl⟩

lemma advance_spec {o : Option Char} (h : c.advance = (o, d)) :
    o = c.text.head? ∧ Takes c o.toList 0 d := by
  have first := Peeking.next_fst c.chars
  have behind := Peeking.left_next c.chars
  unfold advance at h
  split at h
  · next chars hn =>
    obtain ⟨rfl, rfl⟩ := Prod.mk.inj h
    rw [hn] at first behind
    have ended : Peeking.left c.chars = [] := List.head?_eq_none_iff.mp first.symm
    refine ⟨by simp [text, ahead, ended], rfl, rfl, rfl, [], rfl, ?_, rfl⟩
    simp [ahead, ended, behind]
  · next offset x chars hn =>
    obtain ⟨rfl, rfl⟩ := Prod.mk.inj h
    rw [hn] at first behind
    obtain ⟨rest, hrest⟩ := List.head?_eq_some_iff.mp first.symm
    refine ⟨by simp [text, ahead, hrest], rfl, rfl, rfl, [(offset, x)], rfl, ?_, rfl⟩
    simp [ahead, hrest, behind]

lemma takes_advance {x : Char} {cs : List Char} (h : c.text = x :: cs) :
    Takes c [x] 0 c.advance.2 := by
  rcases ha : c.advance with ⟨o, d⟩
  obtain ⟨rfl, takes⟩ := advance_spec ha
  simpa [h] using takes

lemma peek_spec {n : Nat} {o : Option Char} (h : c.peek n = (o, d)) :
    o = c.text[n]? ∧ Takes c [] 0 d := by
  have seen := Peeking.peek_fst n c.chars
  have same := Peeking.left_peek n c.chars
  rcases hp : Peeking.peek n c.chars with ⟨element, chars⟩
  rw [hp] at seen same
  simp only [peek, hp, Prod.mk.injEq] at h
  obtain ⟨rfl, rfl⟩ := h
  refine ⟨?_, rfl, rfl, rfl, [], rfl, same.symm, rfl⟩
  rw [text, List.getElem?_map]
  exact congrArg _ seen

/-- A character that has been seen ahead can be taken, when its line has been counted as well. -/
lemma takes_seen {x : Char} {n : Nat} (h : c.peek 0 = (some x, d)) (stays : Takes d [] n e) :
    Takes c [x] n e.advance.2 := by
  obtain ⟨head, takes⟩ := peek_spec h
  have behind := takes.trans stays
  have same : c.text = e.text := behind.text
  obtain ⟨cs, hcs⟩ := List.head?_eq_some_iff.mp (List.head?_eq_getElem?.trans head.symm)
  simpa using behind.trans (takes_advance (same.symm.trans hcs))

lemma length_ahead_lt {x : Char} {n : Nat} (h : c.peek 0 = (some x, d)) (stays : Takes d [] n e) :
    e.advance.2.ahead.length < c.ahead.length := by
  rw [(takes_seen h stays).length]
  exact Nat.lt_add_of_pos_left Nat.one_pos

/-! ### Runs -/

def advanceWhile (f : Char → Bool) (c : Cursor σ) : Cursor σ :=
  match _h : c.peek 0 with
  | (none, d) => d
  | (some x, d) => if f x then advanceWhile f d.advance.2 else d
termination_by c.ahead.length
decreasing_by exact length_ahead_lt _h (.refl d)

theorem takes_advanceWhile (f : Char → Bool) (c : Cursor σ) :
    Takes c (c.text.takeWhile f) 0 (c.advanceWhile f) := by
  fun_induction advanceWhile f c with
  | case1 c d h =>
    obtain ⟨head, takes⟩ := peek_spec h
    have ended : c.text = [] := by simpa using head.symm
    simpa [ended] using takes
  | case2 c x d h hx ih =>
    have first := takes_seen h (.refl d)
    rw [first.text, List.singleton_append, List.takeWhile_cons_of_pos hx]
    exact first.trans ih
  | case3 c x d h hx =>
    rw [(takes_seen h (.refl d)).text, List.singleton_append, List.takeWhile_cons_of_neg hx]
    exact (peek_spec h).2

lemma text_advanceWhile (f : Char → Bool) (c : Cursor σ) :
    (c.advanceWhile f).text = c.text.dropWhile f :=
  (takes_advanceWhile f c).text_of_append List.takeWhile_append_dropWhile.symm

def matchNext (x : Char) (c : Cursor σ) : Bool × Cursor σ :=
  match c.peek 0 with
  | (seen, d) => if seen = some x then (true, d.advance.2) else (false, d)

lemma matchNext_spec {x : Char} {found : Bool} (h : c.matchNext x = (found, d)) :
    (found = true ∧ Takes c [x] 0 d) ∨
      (found = false ∧ c.text.head? ≠ some x ∧ Takes c [] 0 d) := by
  rcases hp : c.peek 0 with ⟨seen, e⟩
  simp only [matchNext, hp] at h
  split at h
  · next same =>
    obtain ⟨rfl, rfl⟩ := Prod.mk.inj h
    exact Or.inl ⟨rfl, takes_seen (same ▸ hp) (.refl e)⟩
  · next other =>
    obtain ⟨rfl, rfl⟩ := Prod.mk.inj h
    obtain ⟨head, takes⟩ := peek_spec hp
    refine Or.inr ⟨rfl, ?_, takes⟩
    rwa [List.head?_eq_getElem?, ← head]

/-! ### Pieces -/

/-- Goes on to the closing quote of a string, or to the end. -/
def passBody (c : Cursor σ) : Cursor σ :=
  match _h : c.peek 0 with
  | (none, d) => d
  | (some x, d) => if x = '"' then d else passBody (d.countNewline x).advance.2
termination_by c.ahead.length
decreasing_by exact length_ahead_lt _h (takes_countNewline x d)

theorem takes_passBody (c : Cursor σ) :
    Takes c (c.text.takeWhile (· != '"')) ((c.text.takeWhile (· != '"')).count '\n')
      c.passBody := by
  fun_induction passBody c with
  | case1 c d h =>
    obtain ⟨head, takes⟩ := peek_spec h
    have ended : c.text = [] := by simpa using head.symm
    simpa [ended] using takes
  | case2 c d h =>
    rw [(takes_seen h (.refl d)).text]
    exact (peek_spec h).2
  | case3 c x d h hx ih =>
    have first := takes_seen h (takes_countNewline x d)
    rw [first.text, List.singleton_append, List.takeWhile_cons_of_pos (by simpa using hx),
      ← List.singleton_append, List.count_append]
    exact first.trans ih

def passString (c : Cursor σ) : Shape × Cursor σ :=
  match c.passBody.advance with
  | (none, d) => (.fault .unterminatedString, d)
  | (some _, d) => (.string, d)

/-- Takes a point, and the digits behind it, if there is one. -/
def passFraction (c : Cursor σ) : Cursor σ :=
  match c.peek 0 with
  | (some '.', d) =>
    match d.peek 1 with
    | (some x, e) => if x.isDigit then e.advance.2.advanceWhile Char.isDigit else e
    | (none, e) => e
  | (_, d) => d

def passNumber (c : Cursor σ) : Cursor σ := (c.advanceWhile Char.isDigit).passFraction

def passMark (m : Mark) (c : Cursor σ) : Shape × Cursor σ :=
  if m = .slash then
    match c.matchNext '/' with
    | (true, d) => (.trivia, d.advanceWhile (· != '\n'))
    | (false, d) => (.mark m, d)
  else
    match m.withEqual? with
    | none => (.mark m, c)
    | some n =>
      match c.matchNext '=' with
      | (true, d) => (.mark n, d)
      | (false, d) => (.mark m, d)

/-- Takes what the character `x`, which has been taken, begins. -/
def pass (x : Char) (c : Cursor σ) : Shape × Cursor σ :=
  match Mark.single? x with
  | some m => c.passMark m
  | none =>
    if x.isWhitespace then (.trivia, c.countNewline x)
    else if x = '"' then c.passString
    else if x.isDigit then (.number, c.passNumber)
    else if isWordStart x then (.word, c.advanceWhile isWordPart)
    else (.fault (.unexpectedCharacter x), c)

/-- Behind its first character `x`, the cursor takes the rest of the piece `p`. -/
structure Passes (x : Char) (c : Cursor σ) (p : Piece) (r : Shape × Cursor σ) : Prop where
  shape : r.1 = p.shape
  takes : ∃ cs, p.chars = x :: cs ∧ Takes c cs p.newlines r.2

lemma passes_passString (c : Cursor σ) :
    Passes '"' c (Piece.cutString c.text).1 c.passString := by
  have body := takes_passBody c
  have behind : c.passBody.text = c.text.dropWhile (· != '"') :=
    body.text_of_append List.takeWhile_append_dropWhile.symm
  rcases ha : c.passBody.advance with ⟨o, d⟩
  obtain ⟨head, last⟩ := advance_spec ha
  rw [behind] at head
  unfold passString Piece.cutString
  rw [ha]
  split
  · next h =>
    obtain rfl : o = none := by simpa [h] using head
    have all : c.text.takeWhile (· != '"') = c.text := by
      simpa [h] using List.takeWhile_append_dropWhile (p := (· != '"')) (l := c.text)
    rw [all] at body
    refine ⟨rfl, c.text, rfl, ?_⟩
    simpa [Piece.newlines, Piece.chars] using body.trans last
  · next q rest h =>
    obtain rfl : o = some q := by simpa [h] using head
    have quote : q = '"' := by
      simpa [h] using List.head_dropWhile_not (fun c : Char => c != '"') (l := c.text) (by simp [h])
    subst quote
    refine ⟨rfl, _, rfl, ?_⟩
    simpa [Piece.newlines, Piece.chars] using body.trans last

lemma takes_passFraction {x : Char} {cs : List Char} (h : c.text = '.' :: x :: cs)
    (hx : x.isDigit) : Takes c ('.' :: x :: cs.takeWhile Char.isDigit) 0 c.passFraction := by
  rcases hp : c.peek 0 with ⟨o, d⟩
  obtain ⟨point, takes⟩ := peek_spec hp
  obtain rfl : o = some '.' := by simpa [h] using point
  have same : c.text = d.text := takes.text
  rcases hq : d.peek 1 with ⟨o, e⟩
  obtain ⟨digit, takes'⟩ := peek_spec hq
  obtain rfl : o = some x := by simpa [← same, h] using digit
  have same' : d.text = e.text := takes'.text
  have past := takes_seen hp takes'
  have digits := takes_advanceWhile Char.isDigit e.advance.2
  have left : e.advance.2.text = x :: cs := past.text_of_append h
  rw [left, List.takeWhile_cons_of_pos hx] at digits
  simp only [passFraction, hp, hq, hx, if_true]
  exact past.trans digits

/-- Without a digit behind it, a point is not taken. -/
lemma takes_passFraction_of_not (h : ∀ x cs, c.text = '.' :: x :: cs → ¬ x.isDigit) :
    Takes c [] 0 c.passFraction := by
  rcases hp : c.peek 0 with ⟨o, d⟩
  obtain ⟨point, takes⟩ := peek_spec hp
  have same : c.text = d.text := takes.text
  unfold passFraction
  rw [hp]
  split
  · next e heq =>
    obtain ⟨rfl, rfl⟩ := Prod.mk.inj heq
    rcases hq : d.peek 1 with ⟨o, e⟩
    obtain ⟨digit, takes'⟩ := peek_spec hq
    split
    · next x f heq =>
      obtain ⟨rfl, rfl⟩ := Prod.mk.inj heq
      have other : ¬ x.isDigit := by
        rcases hc : c.text with - | ⟨y, - | ⟨z, cs⟩⟩
        · simp [hc] at point
        · simp [← same, hc] at digit
        · obtain rfl : y = '.' := by simpa [hc] using point.symm
          obtain rfl : x = z := by simpa [← same, hc] using digit
          exact h x cs hc
      rw [if_neg other]
      exact takes.trans takes'
    · next f heq =>
      obtain ⟨rfl, rfl⟩ := Prod.mk.inj heq
      exact takes.trans takes'
  · next heq =>
    obtain ⟨rfl, rfl⟩ := Prod.mk.inj heq
    exact takes

/-- To its point and past the digits behind it, the number that is taken is the one that is cut. -/
lemma passes_passNumber {x : Char} (hx : x.isDigit) (c : Cursor σ) :
    Passes x c (Piece.cutNumber (x :: c.text)).1 (.number, c.passNumber) := by
  have whole := takes_advanceWhile Char.isDigit c
  have behind := text_advanceWhile Char.isDigit c
  have proper := (@Piece.cutNumber_spec (x :: c.text) ⟨x, by simp, hx⟩).1
  by_cases h : ∃ y rest, c.text.dropWhile Char.isDigit = '.' :: y :: rest ∧ y.isDigit
  · obtain ⟨y, rest, point, digit⟩ := h
    have cutting : (Piece.cutNumber (x :: c.text)).1 =
        .number (x :: c.text.takeWhile Char.isDigit) (y :: rest.takeWhile Char.isDigit) := by
      simp [Piece.cutNumber, hx, point, digit]
    rw [cutting] at proper ⊢
    have taken := whole.trans (takes_passFraction (behind.trans point) digit)
    refine ⟨rfl, _, rfl, ?_⟩
    rwa [proper.newlines_eq_zero trivial]
  · have alone : ∀ y rest, c.text.dropWhile Char.isDigit = '.' :: y :: rest → ¬ y.isDigit :=
      fun y rest point digit => h ⟨y, rest, point, digit⟩
    have cutting : (Piece.cutNumber (x :: c.text)).1 =
        .number (x :: c.text.takeWhile Char.isDigit) [] := by
      simp only [Piece.cutNumber, List.takeWhile_cons_of_pos hx, List.dropWhile_cons_of_pos hx]
      split
      · next y rest point => rw [if_neg (alone y rest point)]
      · rfl
    rw [cutting] at proper ⊢
    have taken := whole.trans (takes_passFraction_of_not fun y rest point =>
      alone y rest (behind.symm.trans point))
    refine ⟨rfl, c.text.takeWhile Char.isDigit, by simp [Piece.chars], ?_⟩
    rwa [proper.newlines_eq_zero trivial, ← List.append_nil (c.text.takeWhile _)]

lemma passes_passMark {x : Char} {m : Mark} (hx : Mark.single? x = some m) (c : Cursor σ) :
    Passes x c (Piece.cut x c.text).1 (c.passMark m) := by
  have text := Mark.chars_of_single? hx
  have one_line (n : Mark) : (Piece.mark n).newlines = 0 :=
    Piece.Proper.newlines_eq_zero trivial trivial
  by_cases slash : m = .slash
  · subst slash
    obtain rfl : '/' = x := by simpa [Mark.chars] using text
    rcases hm : c.matchNext '/' with ⟨found, d⟩
    rcases matchNext_spec hm with ⟨rfl, takes⟩ | ⟨rfl, alone, takes⟩
    · have comment := takes.trans (takes_advanceWhile (· != '\n') d)
      have proper := (Piece.cut_spec '/' c.text).1
      rw [takes.text, List.singleton_append, Piece.cut_comment] at proper ⊢
      simp only [passMark, hm, if_true]
      refine ⟨rfl, _, rfl, ?_⟩
      rwa [proper.newlines_eq_zero trivial]
    · rw [Piece.cut_of_single? hx fun _ => alone]
      simp only [passMark, hm, if_true, Piece.cutMark, hx, Mark.withEqual?]
      exact ⟨rfl, [], rfl, by rwa [one_line]⟩
  · have single : x = '/' → c.text.head? ≠ some '/' := by
      rintro rfl
      exact absurd (Option.some.inj hx).symm slash
    rw [Piece.cut_of_single? hx single]
    cases hn : m.withEqual? with
    | none =>
      simp only [passMark, slash, if_false, hn, Piece.cutMark, hx]
      exact ⟨rfl, [], text, by rw [one_line]; exact .refl c⟩
    | some n =>
      rcases hm : c.matchNext '=' with ⟨found, d⟩
      simp only [passMark, slash, if_false, hn, hm, Piece.cutMark, hx]
      rcases matchNext_spec hm with ⟨rfl, takes⟩ | ⟨rfl, alone, takes⟩
      · rw [takes.text]
        have joined : n.chars = [x, '='] := by rw [Mark.chars_of_withEqual? hn, text]; rfl
        refine ⟨rfl, ['='], joined, ?_⟩
        show Takes c ['='] (Piece.mark n).newlines d
        rwa [one_line]
      · split
        · next k rest _ hrest => simp [hrest] at alone
        · exact ⟨rfl, [], text, by rwa [one_line]⟩

theorem passes_pass (x : Char) (c : Cursor σ) :
    Passes x c (Piece.cut x c.text).1 (c.pass x) := by
  have proper := (Piece.cut_spec x c.text).1
  unfold pass
  split
  · next m hm => exact passes_passMark hm c
  · next hm =>
    by_cases blank : x.isWhitespace
    · rw [if_pos blank, Piece.cut, if_pos blank]
      exact ⟨rfl, [], rfl, takes_countNewline x c⟩
    rw [if_neg blank]
    by_cases quote : x = '"'
    · subst quote
      rw [if_pos rfl, Piece.cut_quote]
      exact passes_passString c
    rw [if_neg quote]
    by_cases digit : x.isDigit
    · rw [if_pos digit, Piece.cut, if_neg blank, if_pos digit]
      exact passes_passNumber digit c
    rw [if_neg digit]
    by_cases start : isWordStart x
    · rw [Piece.cut, if_neg blank, if_neg digit, if_pos start] at proper ⊢
      rw [if_pos start]
      refine ⟨rfl, _, rfl, ?_⟩
      rw [proper.newlines_eq_zero trivial]
      exact takes_advanceWhile isWordPart c
    · have slash : ¬ (x = '/' ∧ c.text.head? = some '/') := by
        rintro ⟨rfl, -⟩
        simp [Mark.single?] at hm
      have cutting : (Piece.cut x c.text).1 = .stray x := by
        rw [Piece.cut, if_neg blank, if_neg digit, if_neg start, if_neg quote, if_neg slash,
          Piece.cutMark, hm]
      rw [cutting] at proper ⊢
      rw [if_neg start]
      refine ⟨rfl, [], rfl, ?_⟩
      rw [proper.newlines_eq_zero trivial]
      exact .refl c

end Cursor

end LoxLexer
