import LoxLexer.Scanner
import Mathlib.Data.List.TakeWhile
import Mathlib.Tactic.FinCases

/-!
Where a text is cut.

A piece is `Proper` if it is well formed in itself, and it `Stops` at a text if that text does
not prolong it, which hangs on two characters at most. `cut` finds the only proper piece that
stops, so a text is a list of such pieces in one way: `Cuts`.
-/

namespace LoxLexer

/-! ### Characters and marks -/

lemma isDigit_iff {c : Char} : c.isDigit ↔ '0' ≤ c ∧ c ≤ '9' := by
  simp [Char.isDigit, Char.le_def]

lemma isWordStart_iff {c : Char} :
    isWordStart c ↔ 'A' ≤ c ∧ c ≤ 'Z' ∨ 'a' ≤ c ∧ c ≤ 'z' ∨ c = '_' := by
  unfold isWordStart Char.isAlpha Char.isUpper Char.isLower
  simp [Char.le_def, or_assoc]

lemma isWhitespace_iff {c : Char} : c.isWhitespace ↔ c ∈ [' ', '\t', '\r', '\n'] := by
  simp [Char.isWhitespace, or_assoc]

lemma not_isWhitespace_of_isDigit {c : Char} (h : c.isDigit) : ¬ c.isWhitespace := by
  intro hs
  rw [isWhitespace_iff] at hs
  fin_cases hs <;> simp [Char.isDigit] at h

lemma not_isWhitespace_of_isWordStart {c : Char} (h : isWordStart c) : ¬ c.isWhitespace := by
  intro hs
  rw [isWhitespace_iff] at hs
  fin_cases hs <;> revert h <;> decide

lemma not_isWordPart_of_isWhitespace {c : Char} (h : c.isWhitespace) : ¬ isWordPart c := by
  intro hw
  rcases Bool.or_eq_true_iff.mp hw with start | digit
  · exact not_isWhitespace_of_isWordStart start h
  · exact not_isWhitespace_of_isDigit digit h

lemma not_isDigit_of_isWordStart {c : Char} (h : isWordStart c) : ¬ c.isDigit := by
  intro hd
  have hd := (isDigit_iff.mp hd).2
  rcases isWordStart_iff.mp h with ⟨hA, -⟩ | ⟨ha, -⟩ | rfl
  · exact absurd (Char.le_trans hA hd) (by decide)
  · exact absurd (Char.le_trans ha hd) (by decide)
  · exact absurd hd (by decide)

/-- The characters that, behind a mark, make it another mark or a comment. -/
def Mark.Joins (m : Mark) (c : Char) : Prop :=
  c = '=' ∧ m.withEqual?.isSome ∨ c = '/' ∧ m = .slash

/-- A mark is one character, or another mark and an equals sign. -/
lemma Mark.single_or_withEqual (n : Mark) :
    (∃ c, single? c = some n ∧ n.chars = [c]) ∨
      ∃ c m, single? c = some m ∧ m.withEqual? = some n ∧ n.chars = [c, '='] := by
  cases n <;> simp [chars, single?, withEqual?]

lemma Mark.not_joins_of_withEqual {m n : Mark} (h : m.withEqual? = some n) (c : Char) :
    ¬ n.Joins c := by
  rintro (⟨-, more⟩ | ⟨-, rfl⟩)
  · cases m <;> cases h <;> simp [withEqual?] at more
  · cases m <;> cases h

namespace Piece

def Proper : Piece → Prop
  | blank c => c.isWhitespace
  | comment body => '\n' ∉ body
  | mark _ => True
  | word letters =>
    (∃ c ∈ letters.head?, isWordStart c) ∧ ∀ c ∈ letters, isWordPart c
  | number whole fraction =>
    whole ≠ [] ∧ (∀ c ∈ whole, c.isDigit) ∧ ∀ c ∈ fraction, c.isDigit
  | string body => '"' ∉ body
  | openString body => '"' ∉ body
  | stray c =>
    ¬ c.isWhitespace ∧ ¬ c.isDigit ∧ ¬ isWordStart c ∧ c ≠ '"' ∧ Mark.single? c = none

/-- The piece ends where the text `rest` begins. -/
def Stops : Piece → List Char → Prop
  | comment _, rest => ∀ c ∈ rest.head?, c = '\n'
  | mark m, rest => ∀ c ∈ rest.head?, ¬ m.Joins c
  | word _, rest => ∀ c ∈ rest.head?, ¬ isWordPart c
  | number _ fraction, rest =>
    (∀ c ∈ rest.head?, ¬ c.isDigit) ∧
      (fraction = [] → ∀ d, ['.', d] <+: rest → ¬ d.isDigit)
  | openString _, rest => rest = []
  | blank _, _ | string _, _ | stray _, _ => True

lemma stops_nil (p : Piece) : p.Stops [] := by
  cases p <;> simp [Stops]

lemma head?_of_isPrefix {u v : List Char} (h : u <+: v) {c : Char} (hc : c ∈ u.head?) :
    c ∈ v.head? := by
  obtain ⟨w, rfl⟩ := h
  cases u with
  | nil => simp at hc
  | cons d u => simpa using hc

/-- What ends a piece shows at the beginning of the rest. -/
lemma Stops.mono {p : Piece} {u v : List Char} (hp : p.Stops v) (h : u <+: v) :
    p.Stops u := by
  cases p with
  | comment => exact fun c hc => hp c (head?_of_isPrefix h hc)
  | mark => exact fun c hc => hp c (head?_of_isPrefix h hc)
  | word => exact fun c hc => hp c (head?_of_isPrefix h hc)
  | number =>
    exact ⟨fun c hc => hp.1 c (head?_of_isPrefix h hc), fun hf d hd => hp.2 hf d (hd.trans h)⟩
  | openString =>
    have hv : v = [] := hp
    exact List.prefix_nil.mp (hv ▸ h)
  | blank => trivial
  | string => trivial
  | stray => trivial

/-! ### Runs of characters -/

variable {f : Char → Bool}

lemma takeWhile_append_stop {w rest : List Char} (hw : ∀ c ∈ w, f c)
    (hr : ∀ c ∈ rest.head?, ¬ f c) : (w ++ rest).takeWhile f = w := by
  rw [List.takeWhile_append_of_pos hw]
  cases rest with
  | nil => simp
  | cons c rest => simp [hr c (by simp)]

lemma dropWhile_append_stop {w rest : List Char} (hw : ∀ c ∈ w, f c)
    (hr : ∀ c ∈ rest.head?, ¬ f c) : (w ++ rest).dropWhile f = rest := by
  rw [List.dropWhile_append_of_pos hw]
  cases rest with
  | nil => simp
  | cons c rest => simp [hr c (by simp)]

/-- Two runs of such characters, each as long as it can be, are the same in one text. -/
lemma append_inj_of_stop {us vs rest rest' : List Char} (hu : ∀ c ∈ us, f c)
    (hv : ∀ c ∈ vs, f c) (hr : ∀ c ∈ rest.head?, ¬ f c) (hr' : ∀ c ∈ rest'.head?, ¬ f c)
    (h : us ++ rest = vs ++ rest') : us = vs ∧ rest = rest' := by
  have same : us = vs := by
    rw [← takeWhile_append_stop hu hr, h, takeWhile_append_stop hv hr']
  rw [same] at h
  exact ⟨same, List.append_cancel_left h⟩

lemma not_of_head?_dropWhile {cs : List Char} {c : Char} (h : c ∈ (cs.dropWhile f).head?) :
    ¬ f c := by
  have := List.head?_dropWhile_not f cs
  rw [Option.mem_def.mp h] at this
  simpa using this

/-! ### What `cut` finds -/

lemma cutString_spec (cs : List Char) :
    (cutString cs).1.Proper ∧ (cutString cs).1.Stops (cutString cs).2 := by
  have inside : '"' ∉ cs.takeWhile (· != '"') := fun h => by
    simpa using List.mem_takeWhile_imp h
  unfold cutString
  split
  · next h =>
    refine ⟨?_, rfl⟩
    rwa [← List.takeWhile_append_dropWhile (p := (· != '"')) (l := cs), h, List.append_nil]
  · exact ⟨inside, trivial⟩

lemma cutNumber_spec {cs : List Char} (hcs : ∃ c ∈ cs.head?, c.isDigit) :
    (cutNumber cs).1.Proper ∧ (cutNumber cs).1.Stops (cutNumber cs).2 := by
  have digits (ds : List Char) : ∀ c ∈ ds.takeWhile Char.isDigit, c.isDigit :=
    fun c hc => List.mem_takeWhile_imp hc
  have ne : cs.takeWhile Char.isDigit ≠ [] := by
    obtain ⟨c, hc, hd⟩ := hcs
    cases cs with
    | nil => simp at hc
    | cons d cs =>
      have : d = c := by simpa using hc
      simp [this, hd]
  unfold cutNumber
  dsimp only
  split
  · next d rest h =>
    by_cases hd : d.isDigit
    · rw [if_pos hd]
      refine ⟨⟨ne, digits cs, ?_⟩, fun c hc => not_of_head?_dropWhile hc, by simp⟩
      simpa [hd] using digits rest
    · rw [if_neg hd]
      refine ⟨⟨ne, digits cs, by simp⟩, ?_, fun _ e he => ?_⟩
      · simp [show ¬ ('.').isDigit by decide]
      · have : e = d := by simpa using he
        rwa [this]
  · next h =>
    refine ⟨⟨ne, digits cs, by simp⟩, fun c hc => not_of_head?_dropWhile hc, ?_⟩
    rintro - d ⟨rest, hr⟩ -
    exact h d rest (by simpa using hr.symm)

lemma cutMark_stops (c : Char) (cs : List Char) (hc : c = '/' → cs.head? ≠ some '/') :
    (cutMark c cs).1.Stops (cutMark c cs).2 := by
  unfold cutMark
  split
  · trivial
  · next m hm =>
    split
    · next n rest hn => exact fun d _ => Mark.not_joins_of_withEqual hn d
    · next alone =>
      rintro d hd (⟨rfl, more⟩ | ⟨rfl, rfl⟩)
      · obtain ⟨n, hn⟩ := Option.isSome_iff_exists.mp more
        obtain ⟨rest, hrest⟩ := List.head?_eq_some_iff.mp (Option.mem_def.mp hd)
        exact alone n rest hn hrest
      · have slash : c = '/' := by simpa [Mark.chars] using (Mark.chars_of_single? hm).symm
        exact hc slash hd

lemma cutMark_proper {c : Char} (cs : List Char) (hc : ¬ c.isWhitespace) (hd : ¬ c.isDigit)
    (hw : ¬ isWordStart c) (hq : c ≠ '"') : (cutMark c cs).1.Proper := by
  unfold cutMark
  split
  · next h => exact ⟨hc, hd, hw, hq, h⟩
  · split <;> trivial

theorem cut_spec (c : Char) (cs : List Char) :
    (cut c cs).1.Proper ∧ (cut c cs).1.Stops (cut c cs).2 := by
  unfold cut
  by_cases hc : c.isWhitespace
  · rw [if_pos hc]
    exact ⟨hc, trivial⟩
  rw [if_neg hc]
  by_cases hd : c.isDigit
  · rw [if_pos hd]
    exact cutNumber_spec ⟨c, by simp, hd⟩
  rw [if_neg hd]
  by_cases hw : isWordStart c
  · rw [if_pos hw]
    refine ⟨⟨⟨c, by simp, hw⟩, ?_⟩, ?_⟩
    · intro d hd
      rcases List.mem_cons.mp hd with rfl | hd
      · simp [isWordPart, hw]
      · exact List.mem_takeWhile_imp hd
    · intro d hd
      exact not_of_head?_dropWhile hd
  rw [if_neg hw]
  by_cases hq : c = '"'
  · rw [if_pos hq]
    exact cutString_spec cs
  rw [if_neg hq]
  by_cases hs : c = '/' ∧ cs.head? = some '/'
  · rw [if_pos hs]
    constructor
    · intro h
      simpa using List.mem_takeWhile_imp h
    · intro d hd
      simpa using not_of_head?_dropWhile hd
  · rw [if_neg hs]
    exact ⟨cutMark_proper cs hc hd hw hq, cutMark_stops c cs fun h h' => hs ⟨h, h'⟩⟩

/-! ### No other piece stops -/

lemma cut_of_single? {c : Char} {m : Mark} {cs : List Char} (hm : Mark.single? c = some m)
    (hs : c = '/' → cs.head? ≠ some '/') : cut c cs = cutMark c cs := by
  have plain : c.isWhitespace = false ∧ c.isDigit = false ∧ isWordStart c = false ∧ c ≠ '"' := by
    unfold Mark.single? at hm
    split at hm <;> first | decide | cases hm
  obtain ⟨hc, hd, hw, hq⟩ := plain
  have comment : ¬ (c = '/' ∧ cs.head? = some '/') := fun h => hs h.1 h.2
  simp [cut, hc, hd, hw, hq, comment]

lemma cut_mark {n : Mark} {c : Char} {cs rest : List Char} (hr : (mark n).Stops rest)
    (h : n.chars ++ rest = c :: cs) : cut c cs = (mark n, rest) := by
  rcases n.single_or_withEqual with ⟨d, hd, hn⟩ | ⟨d, m, hd, hm, hn⟩
  · rw [hn] at h
    obtain ⟨rfl, rfl⟩ := List.cons.inj h
    rw [cut_of_single? hd]
    · simp only [cutMark, hd]
      split
      · next k rest' hk hrest =>
        have head : '=' ∈ rest.head? := by simp [show rest = '=' :: rest' from hrest]
        exact absurd (Or.inl ⟨rfl, by simp [hk]⟩) (hr '=' head)
      · rfl
    · rintro rfl hslash
      refine hr '/' hslash (Or.inr ⟨rfl, ?_⟩)
      simpa [Mark.single?] using hd.symm
  · rw [hn] at h
    obtain ⟨rfl, rfl⟩ := List.cons.inj h
    rw [cut_of_single? hd (by simp)]
    simp [cutMark, hd, hm]

lemma cut_number {whole fraction : List Char} {c : Char} {cs rest : List Char}
    (hp : (number whole fraction).Proper) (hr : (number whole fraction).Stops rest)
    (h : (number whole fraction).chars ++ rest = c :: cs) :
    cut c cs = (number whole fraction, rest) := by
  obtain ⟨ne, hw, hf⟩ := hp
  have hc : c.isDigit := by
    cases whole with
    | nil => exact absurd rfl ne
    | cons d ds =>
      have : d = c := (List.cons.inj h).1
      exact this ▸ hw d (by simp)
  have point : ¬ ('.').isDigit := by decide
  have cutting : cut c cs = cutNumber (c :: cs) := by
    simp [cut, not_isWhitespace_of_isDigit hc, hc]
  rw [cutting, ← h]
  cases fraction with
  | nil =>
    have whole_stop : ∀ d ∈ rest.head?, ¬ d.isDigit := hr.1
    simp only [chars, List.isEmpty_nil, if_true, List.append_nil, cutNumber,
      takeWhile_append_stop hw whole_stop, dropWhile_append_stop hw whole_stop]
    split
    · next d rest' =>
      have : ¬ d.isDigit := hr.2 rfl d ⟨rest', rfl⟩
      rw [if_neg this]
    · rfl
  | cons e es =>
    have he : e.isDigit := hf e (by simp)
    have hes : ∀ d ∈ es, d.isDigit := fun d hd => hf d (by simp [hd])
    have whole_stop : ∀ d ∈ ('.' :: e :: (es ++ rest)).head?, ¬ d.isDigit := by simp [point]
    simp only [chars, List.isEmpty_cons, Bool.false_eq_true, if_false, List.append_assoc,
      List.cons_append, cutNumber, takeWhile_append_stop hw whole_stop,
      dropWhile_append_stop hw whole_stop, he, if_true, takeWhile_append_stop hes hr.1,
      dropWhile_append_stop hes hr.1]

lemma ne_of_not_mem {b : Char} {body : List Char} (h : b ∉ body) : ∀ c ∈ body, c != b := by
  rintro c hc
  simpa using ne_of_mem_of_not_mem hc h

/-- A character that two runs do not hold tells where they end. -/
lemma append_cons_inj_of_not_mem {b : Char} {us vs rest rest' : List Char} (hu : b ∉ us)
    (hv : b ∉ vs) (h : us ++ b :: rest = vs ++ b :: rest') : us = vs ∧ rest = rest' := by
  obtain ⟨same, rest⟩ := append_inj_of_stop (f := (· != b)) (ne_of_not_mem hu) (ne_of_not_mem hv)
    (by simp) (by simp) h
  exact ⟨same, (List.cons.inj rest).2⟩

lemma cut_quote (cs : List Char) : cut '"' cs = cutString cs := by
  have other : ¬ ('"').isWhitespace ∧ ¬ ('"').isDigit ∧ ¬ isWordStart '"' := by decide
  simp [cut, other]

lemma cut_comment (cs : List Char) :
    cut '/' ('/' :: cs) = (comment (cs.takeWhile (· != '\n')), cs.dropWhile (· != '\n')) := by
  have other : ¬ ('/').isWhitespace ∧ ¬ ('/').isDigit ∧ ¬ isWordStart '/' := by decide
  simp [cut, other]

/-- A proper piece is cut off wherever it stops. -/
theorem cut_eq {p : Piece} {c : Char} {cs rest : List Char} (hp : p.Proper) (hr : p.Stops rest)
    (h : p.chars ++ rest = c :: cs) : cut c cs = (p, rest) := by
  cases p with
  | blank b =>
    obtain ⟨rfl, rfl⟩ := List.cons.inj h
    have hb : b.isWhitespace := hp
    simp [cut, hb]
  | comment body =>
    obtain ⟨rfl, rfl⟩ := List.cons.inj h
    have line : ∀ c ∈ body, c != '\n' := ne_of_not_mem hp
    have line_stop : ∀ c ∈ rest.head?, ¬ (c != '\n') := by simpa [Stops] using hr
    rw [List.append_eq, List.cons_append, cut_comment, takeWhile_append_stop line line_stop,
      dropWhile_append_stop line line_stop]
  | mark m => exact cut_mark hr h
  | word letters =>
    obtain ⟨⟨d, hd, start⟩, part⟩ := hp
    obtain ⟨ds, rfl⟩ := List.head?_eq_some_iff.mp (Option.mem_def.mp hd)
    obtain ⟨rfl, rfl⟩ := List.cons.inj h
    have part : ∀ e ∈ ds, isWordPart e := fun e he => part e (by simp [he])
    simp [cut, not_isWhitespace_of_isWordStart start, not_isDigit_of_isWordStart start, start,
      takeWhile_append_stop part hr, dropWhile_append_stop part hr]
  | number whole fraction => exact cut_number hp hr h
  | string body =>
    obtain ⟨rfl, rfl⟩ := List.cons.inj h
    have inside : ∀ c ∈ body, c != '"' := ne_of_not_mem hp
    have quote_stop : ∀ c ∈ ('"' :: rest).head?, ¬ (c != '"') := by simp
    simp [cut_quote, cutString, takeWhile_append_stop inside quote_stop,
      dropWhile_append_stop inside quote_stop]
  | openString body =>
    have hr : rest = [] := hr
    subst hr
    obtain ⟨rfl, rfl⟩ := List.cons.inj h
    have inside : ∀ c ∈ body, c != '"' := ne_of_not_mem hp
    have all : body.dropWhile (· != '"') = [] := List.dropWhile_eq_nil_iff.mpr inside
    simp [cut_quote, cutString, all]
  | stray b =>
    obtain ⟨rfl, rfl⟩ := List.cons.inj h
    obtain ⟨hc, hd, hw, hq, hm⟩ := hp
    have slash : b ≠ '/' := by rintro rfl; simp [Mark.single?] at hm
    simp [cut, hc, hd, hw, hq, slash, cutMark, hm]

lemma Proper.chars_ne_nil {p : Piece} (hp : p.Proper) : p.chars ≠ [] := by
  cases p with
  | mark m => exact m.chars_ne_nil
  | word letters =>
    rintro rfl
    obtain ⟨⟨c, hc, -⟩, -⟩ := hp
    simp [Option.mem_def] at hc
  | number whole => simp [chars, hp.1]
  | _ => simp [chars]

/-- Two proper pieces of one text are the same. -/
theorem Proper.eq_of_chars {p q : Piece} (hp : p.Proper) (hq : q.Proper)
    (h : p.chars = q.chars) : p = q := by
  obtain ⟨c, cs, hc⟩ := List.exists_cons_of_ne_nil hp.chars_ne_nil
  have cut_p : cut c cs = (p, []) := cut_eq hp p.stops_nil (by simpa using hc)
  have cut_q : cut c cs = (q, []) := cut_eq hq q.stops_nil (by simpa [← h] using hc)
  exact congrArg Prod.fst (cut_p.symm.trans cut_q)

/-! ### A text in pieces -/

/-- The pieces that a text is cut into. -/
inductive Cuts : List Char → List Piece → Prop where
  | nil : Cuts [] []
  | cons {p rest ps} (proper : p.Proper) (stops : p.Stops rest) (tail : Cuts rest ps) :
    Cuts (p.chars ++ rest) (p :: ps)

theorem exists_cuts (cs : List Char) : ∃ ps, Cuts cs ps := by
  match cs with
  | [] => exact ⟨[], .nil⟩
  | c :: cs =>
    obtain ⟨ps, hps⟩ := exists_cuts (cut c cs).2
    obtain ⟨proper, stops⟩ := cut_spec c cs
    refine ⟨(cut c cs).1 :: ps, ?_⟩
    rw [← cut_append c cs]
    exact .cons proper stops hps
termination_by cs.length
decreasing_by exact length_cut_lt c cs

lemma Cuts.proper_of_mem {cs : List Char} {ps : List Piece} (h : Cuts cs ps) {p : Piece}
    (hp : p ∈ ps) : p.Proper := by
  induction h with
  | nil => simp at hp
  | cons proper _ _ ih =>
    rcases List.mem_cons.mp hp with rfl | hp
    · exact proper
    · exact ih hp

lemma Cuts.flatMap_chars {cs : List Char} {ps : List Piece} (h : Cuts cs ps) :
    ps.flatMap chars = cs := by
  induction h with
  | nil => rfl
  | cons _ _ _ ih => rw [List.flatMap_cons, ih]

end Piece

end LoxLexer
