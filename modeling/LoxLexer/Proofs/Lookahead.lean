import LoxLexer.Proofs.Reading
import Mathlib.Data.List.Infix

/-!
How far a scanner looks ahead.

Where a piece ends shows in the two characters behind it, `Stops.of_two`. Scanners that share so
much of the text ahead of them take the same steps, `Shares.step`, so they give the same items,
`Shares.behind`. Two sources that begin alike have the same items up to there, `take_itemsOf`.
-/

namespace LoxLexer

/-- Two characters tell that a piece ends in front of them, whatever follows. -/
lemma Piece.Stops.of_two {p : Piece} {ahead u v : List Char} (h : p.Stops (ahead ++ u))
    (two : 2 ≤ ahead.length) : p.Stops (ahead ++ v) := by
  match ahead, two with
  | a :: b :: ahead, _ =>
    cases p with
    | comment | mark | word => exact fun c hc => h c hc
    | number whole fraction =>
      refine ⟨fun c hc => h.1 c hc, fun none d point => h.2 none d ?_⟩
      simpa using point
    | openString => cases h
    | blank | string | stray => trivial

namespace Scanner

variable {s s' t : Scanner} {common : List Char}

/-! ### Scanners with the same text ahead -/

/-- The scanners stand at one place, and both texts go on with `common`. -/
structure Shares (s s' : Scanner) (common : List Char) : Prop where
  rest : common <+: s.rest
  rest' : common <+: s'.rest
  offset : s'.offset = s.offset
  line : s'.line = s.line

/-- When both have read the same, they share what is left of the common text. -/
lemma Shares.ahead {t t' : Scanner} {cs ahead : List Char} (h : Shares s s' (cs ++ ahead))
    (reads : Reads s cs t) (reads' : Reads s' cs t') : Shares t t' ahead where
  rest := (List.prefix_append_right_inj cs).mp (reads.rest ▸ h.rest)
  rest' := (List.prefix_append_right_inj cs).mp (reads'.rest ▸ h.rest')
  offset := by rw [reads.offset, reads'.offset, h.offset]
  line := by rw [reads.line, reads'.line, h.line]

lemma Reads.length {cs : List Char} (h : Reads s cs t) :
    s.rest.length = cs.length + t.rest.length := by
  rw [h.rest, List.length_append]

/-- A step of the one is a step of the other if they share two characters behind the piece. -/
lemma Shares.step {p : Piece} (h : Shares s s' common) (hs : s.step = some (p, t))
    (two : s.rest.length + 2 ≤ common.length + t.rest.length) :
    ∃ t' cs ahead, s'.step = some (p, t') ∧ common = cs ++ ahead ∧ Reads s cs t ∧
      Reads s' cs t' := by
  obtain ⟨reads, proper, stops⟩ := step_spec hs
  have size := reads.length
  obtain ⟨u, hu⟩ := h.rest
  obtain ⟨v, hv⟩ := h.rest'
  obtain ⟨ahead, rfl⟩ : p.chars <+: common :=
    List.prefix_of_prefix_length_le ⟨_, reads.rest.symm⟩ h.rest (by omega)
  rw [List.length_append] at two
  have rest : t.rest = ahead ++ u := by
    rw [reads.rest, List.append_assoc] at hu
    exact (List.append_cancel_left hu).symm
  have stops' : p.Stops (ahead ++ v) := (rest ▸ stops).of_two (by omega)
  have rest' : s'.rest = p.chars ++ (ahead ++ v) := by rw [← hv, List.append_assoc]
  exact ⟨_, p.chars, ahead, step_of_stops proper stops' rest', rfl, reads, rest', rfl, rfl⟩

lemma length_rest_next_lt {i : Item} (h : s.next = (some i, t)) :
    t.rest.length < s.rest.length := by
  obtain ⟨skipped, u, p, reads, step, -⟩ := next_some h
  have shorter := length_rest_step_lt step
  have size := reads.length
  omega

/-- So is the next item, with the pieces without one in front of it. -/
lemma Shares.next {s s' t : Scanner} {common : List Char} {i : Item} (h : Shares s s' common)
    (hn : s.next = (some i, t)) (two : s.rest.length + 2 ≤ common.length + t.rest.length) :
    ∃ t' cs ahead, s'.next = (some i, t') ∧ common = cs ++ ahead ∧ Reads s cs t ∧
      Reads s' cs t' := by
  match hs : s.step with
  | none =>
    rw [next_of_none hs] at hn
    cases hn
  | some (p, u) =>
    match hi : p.item? s.line with
    | some j =>
      obtain ⟨rfl, rfl⟩ : j = i ∧ u = t := by simpa [next_of_item hs hi] using hn
      obtain ⟨u', cs, ahead, hs', parts, reads, reads'⟩ := h.step hs two
      exact ⟨u', cs, ahead, next_of_item hs' (h.line ▸ hi), parts, reads, reads'⟩
    | none =>
      rw [next_of_skip hs hi] at hn
      have shorter := length_rest_next_lt hn
      obtain ⟨u', cs, ahead, hs', rfl, reads, reads'⟩ := h.step hs (by omega)
      have size := reads.length
      rw [List.length_append] at two
      obtain ⟨t', cs', ahead', hn', rfl, reads₂, reads₂'⟩ :=
        (h.ahead reads reads').next hn (by omega)
      refine ⟨t', cs ++ cs', ahead', ?_, (List.append_assoc ..).symm, reads.trans reads₂,
        reads'.trans reads₂'⟩
      rw [next_of_skip hs' (h.line ▸ hi), hn']
termination_by s.rest.length
decreasing_by exact length_rest_step_lt hs

/-! ### Behind some items -/

/-- The scanner behind the next `n` items, or at the end if there are fewer. -/
def behind (s : Scanner) : Nat → Scanner
  | 0 => s
  | n + 1 => s.next.2.behind n

lemma behind_of_next {o : Option Item} (h : s.next = (o, t)) (n : Nat) :
    s.behind (n + 1) = t.behind n := by
  rw [behind, h]

lemma behind_succ (s : Scanner) (n : Nat) : s.behind (n + 1) = (s.behind n).next.2 := by
  induction n generalizing s with
  | zero => rfl
  | succ n ih => exact ih s.next.2

/-- Where there is no item any more, all of the text has been read. -/
lemma next_spec (s : Scanner) :
    (∃ cs, Reads s cs s.next.2) ∧ (s.next.1 = none → s.next.2.rest = []) := by
  match hs : s.step with
  | none =>
    rw [next_of_none hs]
    exact ⟨⟨[], .refl s⟩, fun _ => step_eq_none.mp hs⟩
  | some (p, u) =>
    have first := (step_spec hs).1
    match hi : p.item? s.line with
    | some i =>
      rw [next_of_item hs hi]
      exact ⟨⟨p.chars, first⟩, nofun⟩
    | none =>
      obtain ⟨⟨cs, reads⟩, ended⟩ := next_spec u
      rw [next_of_skip hs hi]
      exact ⟨⟨p.chars ++ cs, first.trans reads⟩, ended⟩
termination_by s.rest.length
decreasing_by exact length_rest_step_lt hs

lemma rest_of_next_none (h : s.next = (none, t)) : t.rest = [] := by
  have ended := s.next_spec.2
  rw [h] at ended
  exact ended rfl

lemma items_of_next_some {i : Item} (h : s.next = (some i, t)) : s.items = i :: t.items := by
  rw [items_of_next, h]

lemma reads_behind (s : Scanner) (n : Nat) : ∃ cs, Reads s cs (s.behind n) := by
  induction n with
  | zero => exact ⟨[], .refl s⟩
  | succ n ih =>
    obtain ⟨cs, reads⟩ := ih
    obtain ⟨cs', reads'⟩ := (s.behind n).next_spec.1
    exact ⟨cs ++ cs', s.behind_succ n ▸ reads.trans reads'⟩

lemma length_rest_behind_le (s : Scanner) (n : Nat) :
    (s.behind n).rest.length ≤ s.rest.length := by
  obtain ⟨cs, reads⟩ := s.reads_behind n
  rw [reads.rest, List.length_append]
  omega

lemma items_behind (s : Scanner) (n : Nat) : (s.behind n).items = s.items.drop n := by
  induction n generalizing s with
  | zero => rfl
  | succ n ih =>
    match hn : s.next with
    | (some i, t) => rw [behind_of_next hn, ih, items_of_next_some hn, List.drop_succ_cons]
    | (none, t) =>
      have none_left : t.items = [] := items_of_none (step_eq_none.mpr (rest_of_next_none hn))
      have items : s.items = [] := by rw [items_of_next, hn]
      rw [behind_of_next hn, ih, none_left, items, List.drop_nil, List.drop_nil]

/-- Each item has a character. -/
lemma length_items_le (s : Scanner) : s.items.length ≤ s.rest.length := by
  match hn : s.next with
  | (some i, t) =>
    have shorter := length_rest_next_lt hn
    have tail := t.length_items_le
    rw [items_of_next_some hn, List.length_cons]
    omega
  | (none, t) =>
    have items : s.items = [] := by rw [items_of_next, hn]
    simp [items]
termination_by s.rest.length

/-- Scanners that share two characters behind some items give the same ones. -/
theorem Shares.behind (h : Shares s s' common) (n : Nat)
    (two : s.rest.length + 2 ≤ common.length + (s.behind n).rest.length) :
    s.items.take n = s'.items.take n ∧
    ∃ cs, Reads s cs (s.behind n) ∧ Reads s' cs (s'.behind n) := by
  induction n generalizing s s' common with
  | zero => exact ⟨rfl, [], .refl s, .refl s'⟩
  | succ n ih =>
    match hn : s.next with
    | (some i, t) =>
      rw [behind_of_next hn] at two ⊢
      have shorter := t.length_rest_behind_le n
      obtain ⟨t', cs, ahead, hn', rfl, reads, reads'⟩ := h.next hn (by omega)
      have size := reads.length
      rw [List.length_append] at two
      obtain ⟨items, cs', reads₂, reads₂'⟩ := ih (h.ahead reads reads') (by omega)
      rw [items_of_next_some hn, items_of_next_some hn', behind_of_next hn', List.take_succ_cons,
        List.take_succ_cons, items]
      exact ⟨rfl, cs ++ cs', reads.trans reads₂, reads'.trans reads₂'⟩
    | (none, t) =>
      -- then nothing is left behind the items
      have none_left := t.length_rest_behind_le n
      rw [rest_of_next_none hn, ← behind_of_next hn, List.length_nil] at none_left
      have fits := h.rest.length_le
      omega

end Scanner

/-! ### Sources -/

/-- Where the first `n` items of a source end, in characters. -/
def endOf (source : String) (n : Nat) : Nat :=
  source.toList.length - ((Scanner.ofSource source).behind n).rest.length

lemma endOf_of_reads {source : String} {n : Nat} {cs : List Char}
    (reads : Scanner.Reads (.ofSource source) cs ((Scanner.ofSource source).behind n)) :
    endOf source n = cs.length := by
  have size : source.toList.length = _ := reads.length
  rw [endOf, size, Nat.add_sub_cancel]

lemma take_endOf {source : String} {n : Nat} {cs : List Char}
    (reads : Scanner.Reads (.ofSource source) cs ((Scanner.ofSource source).behind n)) :
    source.toList.take (endOf source n) = cs := by
  have rest : source.toList = _ := reads.rest
  rw [endOf_of_reads reads, rest, List.take_left]

/-- There the last one of them ends: up to there reaches the piece that stands for it. -/
lemma exists_piece_endOf {source : String} {n : Nat} {i : Item}
    (h : (itemsOf source)[n]? = some i) :
    ∃ (before : List Char) (p : Piece) (line : Nat),
      source.toList.take (endOf source (n + 1)) = before ++ p.chars ∧ p.item? line = some i := by
  obtain ⟨cs, reads⟩ := (Scanner.ofSource source).reads_behind n
  have items := (Scanner.ofSource source).items_behind n
  have behind := (Scanner.ofSource source).behind_succ n
  rw [← List.head?_drop, itemsOf, ← items, Scanner.items_of_next] at h
  rcases hn : ((Scanner.ofSource source).behind n).next with ⟨- | j, t⟩
  · rw [hn] at h
    cases h
  · rw [hn] at h behind
    obtain rfl : j = i := Option.some.inj h
    obtain ⟨skipped, u, p, skips, step, item⟩ := Scanner.next_some hn
    refine ⟨cs ++ skipped, p, u.line, take_endOf ?_, item⟩
    rw [behind]
    exact (reads.trans skips).trans (Scanner.step_spec step).1

/-- If two characters are left, the items behind which they are left are given, whatever follows. -/
lemma take_itemsOf {s s' : String} {common : List Char} (h : common <+: s.toList)
    (h' : common <+: s'.toList) {n : Nat} (two : endOf s n + 2 ≤ common.length) :
    (itemsOf s).take n = (itemsOf s').take n ∧ endOf s' n = endOf s n := by
  have shares : Scanner.Shares (.ofSource s) (.ofSource s') common := ⟨h, h', rfl, rfl⟩
  have left := (Scanner.ofSource s).length_rest_behind_le n
  have start : (Scanner.ofSource s).rest.length = s.toList.length := rfl
  unfold endOf at two
  obtain ⟨items, cs, reads, reads'⟩ := shares.behind n (by omega)
  exact ⟨items, by rw [endOf_of_reads reads', endOf_of_reads reads]⟩

/-- The last two items have two characters at least, so these are left behind the others. -/
lemma endOf_add_two_le {s : String} (h : 2 ≤ (itemsOf s).length) :
    endOf s ((itemsOf s).length - 2) + 2 ≤ s.toList.length := by
  have left : 2 ≤ ((Scanner.ofSource s).behind ((itemsOf s).length - 2)).rest.length := calc
    2 = ((itemsOf s).drop ((itemsOf s).length - 2)).length := by rw [List.length_drop]; omega
    _ = ((Scanner.ofSource s).behind ((itemsOf s).length - 2)).items.length := by
      rw [Scanner.items_behind, itemsOf]
    _ ≤ _ := Scanner.length_items_le _
  have whole := (Scanner.ofSource s).length_rest_behind_le ((itemsOf s).length - 2)
  have start : (Scanner.ofSource s).rest.length = s.toList.length := rfl
  unfold endOf
  omega

lemma dropLast_itemsOf_prefix (s t : String) :
    (itemsOf s).dropLast.dropLast <+: itemsOf (s ++ t) := by
  have first : (itemsOf s).dropLast.dropLast = (itemsOf s).take ((itemsOf s).length - 2) := by
    rw [List.dropLast_eq_take, List.dropLast_eq_take, List.take_take, List.length_take]
    congr 1
    omega
  rw [first]
  by_cases two : 2 ≤ (itemsOf s).length
  · have longer : s.toList <+: (s ++ t).toList := String.toList_append ▸ List.prefix_append _ _
    rw [(take_itemsOf List.prefix_rfl longer (endOf_add_two_le two)).1]
    exact List.take_prefix _ _
  · have few : (itemsOf s).length - 2 = 0 := by omega
    rw [few]
    exact List.nil_prefix

/-- **Lookahead**: if two sources have the text up to the end of an item in common and two further
characters, they have the same items so far, and these end at the same place. So what is appended to
a source changes its last two items at most. -/
theorem lookahead_two (s : String) :
    (∀ n i, (itemsOf s)[n]? = some i →
      ∃ (before : List Char) (p : Piece) (line : Nat),
        s.toList.take (endOf s (n + 1)) = before ++ p.chars ∧ p.item? line = some i) ∧
    (∀ s' common n, common <+: s.toList → common <+: s'.toList → endOf s n + 2 ≤ common.length →
      (itemsOf s).take n = (itemsOf s').take n ∧ endOf s' n = endOf s n) ∧
    ∀ t, (itemsOf s).dropLast.dropLast <+: itemsOf (s ++ t) :=
  ⟨fun _ _ h => exists_piece_endOf h, fun _ _ _ h h' two => take_itemsOf h h' two,
    dropLast_itemsOf_prefix s⟩

/-- A point and a letter behind a number settle where it ends. The point alone does not. -/
theorem lookahead_behind_number :
    let s := "1.x"
    endOf s 1 = 1 ∧
    (∃ i, (itemsOf s)[0]? = some i ∧ ∃ (before : List Char) (p : Piece) (line : Nat),
      s.toList.take (endOf s 1) = before ++ p.chars ∧ p.item? line = some i) ∧
    (itemsOf s).take 1 = (itemsOf "1.x2").take 1 ∧ endOf "1.x2" 1 = 1 ∧
    (itemsOf s).take 1 ≠ (itemsOf "1.5").take 1 := by
  intro s
  obtain ⟨pieces, settled, -⟩ := lookahead_two s
  have ends : endOf s 1 = 1 := by decide +kernel
  have common : ['1', '.', 'x'] <+: s.toList := by decide +kernel
  have common' : ['1', '.', 'x'] <+: "1.x2".toList := by decide +kernel
  have first : ((itemsOf s)[0]?).isSome := by decide +kernel
  obtain ⟨i, hi⟩ := Option.isSome_iff_exists.mp first
  obtain ⟨items, place⟩ := settled _ _ 1 common common' (by rw [ends]; decide)
  refine ⟨ends, ⟨i, hi, pieces 0 i hi⟩, items, place.trans ends, fun same => ?_⟩
  have lexemes := congrArg (List.map fun i => i.token?.map Token.lexeme) same
  exact absurd lexemes (by decide +kernel)

end LoxLexer
