import LoxLexer.Proofs.JsonDump
import LoxLexer.Proofs.LineByLine

/-!
The pretty and the compact text of the same tokens.

Read from the left, each character of a text stands in a string or outside, `Mode`. A layout only
adds blanks and newlines outside, `Layout.Airy`, and without them the compact text is left,
`Proper.compacts`. As the compact text has no newlines, those of the pretty text all stand outside.
-/

namespace LoxLexer

namespace Json

/-! ### Inside and outside of strings -/

/-- Where a character stands. -/
inductive Mode where
  | outside
  | inside
  /-- In a string, behind a backslash. -/
  | escaped
deriving DecidableEq

namespace Mode

def step : Mode → Char → Mode
  | outside, c => if c = '"' then inside else outside
  | inside, c => if c = '"' then outside else if c = '\\' then escaped else inside
  | escaped, _ => inside

/-- The mode behind a text. -/
def after (m : Mode) (u : List Char) : Mode := u.foldl step m

@[simp] lemma after_nil (m : Mode) : m.after [] = m := rfl

@[simp] lemma after_cons (m : Mode) (c : Char) (u : List Char) :
    m.after (c :: u) = (m.step c).after u := rfl

lemma after_append (m : Mode) (u v : List Char) : m.after (u ++ v) = (m.after u).after v := by
  simp only [after, List.foldl_append]

lemma step_outside {c : Char} (hc : c ≠ '"') : outside.step c = outside := if_neg hc

lemma step_inside {c : Char} (hc : c ≠ '"') (hc' : c ≠ '\\') : inside.step c = inside := by
  rw [step, if_neg hc, if_neg hc']

end Mode

/-- Deletes the blanks and newlines that stand outside of strings. -/
def squeeze : Mode → List Char → List Char
  | _, [] => []
  | m, c :: u =>
    if m = .outside ∧ Filler c then squeeze (m.step c) u else c :: squeeze (m.step c) u

lemma squeeze_append (m : Mode) (u v : List Char) :
    squeeze m (u ++ v) = squeeze m u ++ squeeze (m.after u) v := by
  induction u generalizing m with
  | nil => rfl
  | cons c u ih =>
    simp only [List.cons_append, squeeze, Mode.after_cons, ih]
    split <;> rfl

lemma squeeze_cons_of_ne {m : Mode} (hm : m ≠ .outside) (c : Char) (u : List Char) :
    squeeze m (c :: u) = c :: squeeze (m.step c) u :=
  if_neg fun h => hm h.1

/-- The text without the blanks and newlines outside of its strings. -/
def squeezed (s : String) : String := String.ofList (squeeze .outside s.toList)

/-- A character of which none is left stands outside. -/
lemma after_eq_outside_of_not_mem {m : Mode} {u v : List Char} {c : Char}
    (h : c ∉ squeeze m (u ++ c :: v)) : m.after u = .outside := by
  by_contra inside
  rw [squeeze_append, squeeze_cons_of_ne inside] at h
  exact h (by simp)

/-- In mode `m` the text `u` is left as `v`, and the mode behind it is the same. -/
structure Squeezes (m : Mode) (u v : List Char) : Prop where
  mode : m.after u = m
  text : squeeze m u = v

namespace Squeezes

variable {m : Mode} {u u' v v' : List Char} {c : Char}

lemma nil (m : Mode) : Squeezes m [] [] := ⟨rfl, rfl⟩

lemma append (h : Squeezes m u v) (h' : Squeezes m u' v') : Squeezes m (u ++ u') (v ++ v') where
  mode := by rw [Mode.after_append, h.mode, h'.mode]
  text := by rw [squeeze_append, h.mode, h.text, h'.text]

/-- A character outside that is left where it is. -/
lemma cons (quote : c ≠ '"') (filler : ¬ Filler c) (h : Squeezes .outside u v) :
    Squeezes .outside (c :: u) (c :: v) where
  mode := by rw [Mode.after_cons, Mode.step_outside quote, h.mode]
  text := by rw [squeeze, if_neg fun both => filler both.2, Mode.step_outside quote, h.text]

lemma of_plain (h : ∀ c ∈ u, c ≠ '"' ∧ ¬ Filler c) : Squeezes .outside u u := by
  induction u with
  | nil => exact nil _
  | cons c u ih =>
    obtain ⟨quote, filler⟩ := h c (by simp)
    exact cons quote filler (ih fun d hd => h d (by simp [hd]))

lemma of_fillers (h : ∀ c ∈ u, Filler c) : Squeezes .outside u [] := by
  induction u with
  | nil => exact nil _
  | cons c u ih =>
    have filler := h c (by simp)
    have quote : c ≠ '"' := by rcases filler with rfl | rfl <;> decide
    have others := ih fun d hd => h d (by simp [hd])
    refine ⟨?_, ?_⟩
    · rw [Mode.after_cons, Mode.step_outside quote, others.mode]
    · rw [squeeze, if_pos ⟨rfl, filler⟩, Mode.step_outside quote, others.text]

lemma unique (h : Squeezes m u v) (h' : Squeezes m u v') : v = v' := h.text.symm.trans h'.text

end Squeezes

/-! ### Strings -/

lemma plain_digitChar {d : Nat} (hd : d < 16) :
    Nat.digitChar d ≠ '"' ∧ Nat.digitChar d ≠ '\\' ∧ Nat.digitChar d ≠ '\n' := by
  revert d
  decide

/-- Every escape ends in the string in which it began. -/
lemma squeezes_escape (c : Char) : Squeezes .inside (escape c) (escape c) := by
  unfold escape
  split_ifs with quote backslash h h h h h control
  iterate 7 exact ⟨rfl, rfl⟩
  · have small : c.toNat < 32 := control
    obtain ⟨high, high', -⟩ := plain_digitChar (show c.toNat / 16 < 16 by omega)
    obtain ⟨low, low', -⟩ := plain_digitChar (show c.toNat % 16 < 16 by omega)
    have zero : Mode.inside.step '0' = .inside := rfl
    have mark : (Mode.inside.step '\\').step 'u' = .inside := rfl
    refine ⟨?_, ?_⟩
    · simp only [Mode.after_cons, Mode.after_nil, mark, zero, Mode.step_inside high high',
        Mode.step_inside low low']
    · rw [squeeze_cons_of_ne (by decide), squeeze_cons_of_ne (by decide), mark]
      iterate 2 rw [squeeze_cons_of_ne (by decide), zero]
      rw [squeeze_cons_of_ne (by decide), Mode.step_inside high high',
        squeeze_cons_of_ne (by decide), Mode.step_inside low low']
      rfl
  · refine ⟨Mode.step_inside quote backslash, ?_⟩
    rw [squeeze_cons_of_ne (by decide)]
    rfl

lemma squeezes_body (cs : List Char) :
    Squeezes .inside (cs.flatMap escape) (cs.flatMap escape) := by
  induction cs with
  | nil => exact .nil _
  | cons c cs ih =>
    rw [List.flatMap_cons]
    exact (squeezes_escape c).append ih

lemma squeezes_quote (s : String) : Squeezes .outside (quote s).toList (quote s).toList := by
  have body := squeezes_body s.toList
  have opened : Mode.outside.step '"' = .inside := rfl
  have kept : ¬ Filler '"' := by decide
  simp only [quote, String.toList_ofList]
  refine ⟨?_, ?_⟩
  · rw [Mode.after_cons, opened, Mode.after_append, body.mode]
    rfl
  · rw [squeeze, if_neg fun both => kept both.2, opened, squeeze_append, body.mode, body.text]
    rfl

lemma newline_not_mem_escape (c : Char) : '\n' ∉ escape c := by
  unfold escape
  split_ifs with quote backslash h h newline h h control
  iterate 7 decide
  · have small : c.toNat < 32 := control
    obtain ⟨-, -, high⟩ := plain_digitChar (show c.toNat / 16 < 16 by omega)
    obtain ⟨-, -, low⟩ := plain_digitChar (show c.toNat % 16 < 16 by omega)
    simp [high.symm, low.symm]
  · simpa using Ne.symm newline

lemma count_newline_quote (s : String) : (quote s).toList.count '\n' = 0 := by
  have body : '\n' ∉ s.toList.flatMap escape := by
    simpa using fun c _ => newline_not_mem_escape c
  refine List.count_eq_zero.mpr ?_
  simpa [quote] using body

/-! ### Numbers -/

lemma plain_of_mem_chars {n : Numeral} (h : n.Proper) {c : Char} (hc : c ∈ n.chars) :
    c ≠ '"' ∧ ¬ Filler c := by
  have digit {d : Char} (hd : d.isDigit) : d ≠ '"' ∧ ¬ Filler d := by
    refine ⟨?_, ?_⟩
    · rintro rfl
      exact absurd hd (by decide)
    · rintro (rfl | rfl) <;> exact absurd hd (by decide)
  have power (e : Int) (he : c ∈ Numeral.exponentText e) : c ≠ '"' ∧ ¬ Filler c := by
    simp only [Numeral.exponentText, List.mem_cons] at he
    rcases he with rfl | sign | he
    · decide
    · split at sign <;> subst sign <;> decide
    · exact digit (isDigit_of_mem_toDigits he)
  simp only [Numeral.chars, List.mem_append] at hc
  rcases hc with ((sign | whole) | point) | exponent
  · split at sign
    · obtain rfl := List.mem_singleton.mp sign
      decide
    · cases sign
  · exact digit (h.whole c whole)
  · split at point
    · cases point
    · rcases List.mem_cons.mp point with rfl | fraction
      · decide
      · exact digit (h.fraction c fraction)
  · cases he : n.exponent with
    | none => simp [he] at exponent
    | some e => exact power e (by simpa [he] using exponent)

/-! ### Values -/

namespace Layout

variable {l : Layout}

lemma Airy.squeezes_gap (h : l.Airy) (depth depth' : Nat) :
    Squeezes .outside (l.gap depth).toList (compact.gap depth').toList := by
  simpa [compact] using Squeezes.of_fillers (h.gap depth)

lemma Airy.squeezes_colon (h : l.Airy) :
    Squeezes .outside l.colon.toList compact.colon.toList := by
  obtain ⟨bs, filler, colon⟩ := h.colon
  rw [colon]
  exact .cons (by decide) (by decide) (.of_fillers filler)

end Layout

/-- Without the blanks and newlines outside of its strings, what is written for `j` is its compact
text. -/
def Compacts (l : Layout) (j : Json) : Prop :=
  ∀ depth depth',
    Squeezes .outside (j.write l depth "").toList (j.write .compact depth' "").toList

section

variable {l : Layout} (airy : l.Airy)
include airy

lemma squeezes_elements {es : List Json} (h : ∀ e ∈ es, Compacts l e) (depth depth' : Nat) :
    Squeezes .outside (writeElements l depth "" es).toList
      (writeElements .compact depth' "" es).toList := by
  induction es with
  | nil => exact .nil _
  | cons e es ih =>
    have first := h e (by simp) depth depth'
    have others := ih fun d hd => h d (List.mem_cons_of_mem e hd)
    rw [toList_writeElements_cons, toList_writeElements_cons]
    exact .cons (by decide) (by decide) ((airy.squeezes_gap _ _).append (first.append others))

lemma compacts_array {es : List Json} (h : ∀ e ∈ es, Compacts l e) : Compacts l (array es) := by
  intro depth depth'
  cases es with
  | nil =>
    refine .of_plain ?_
    simp [write, Filler]
  | cons e es =>
    have first := h e (by simp) (depth + 1) (depth' + 1)
    have others := squeezes_elements airy (fun d hd => h d (List.mem_cons_of_mem e hd))
      (depth + 1) (depth' + 1)
    have bracket : Squeezes .outside [']'] [']'] := .cons (by decide) (by decide) (.nil _)
    rw [toList_write_array, toList_write_array]
    exact .cons (by decide) (by decide) ((airy.squeezes_gap _ _).append
      (first.append (others.append ((airy.squeezes_gap _ _).append bracket))))

lemma squeezes_members {ms : List (String × Json)} (h : ∀ m ∈ ms, Compacts l m.2)
    (depth depth' : Nat) :
    Squeezes .outside (writeMembers l depth "" ms).toList
      (writeMembers .compact depth' "" ms).toList := by
  induction ms with
  | nil => exact .nil _
  | cons m ms ih =>
    obtain ⟨key, j⟩ := m
    have first := h (key, j) (by simp) depth depth'
    have others := ih fun m hm => h m (List.mem_cons_of_mem _ hm)
    rw [toList_writeMembers_cons, toList_writeMembers_cons]
    exact .cons (by decide) (by decide) ((airy.squeezes_gap _ _).append
      ((squeezes_quote key).append (airy.squeezes_colon.append (first.append others))))

lemma compacts_object {ms : List (String × Json)} (h : ∀ m ∈ ms, Compacts l m.2) :
    Compacts l (object ms) := by
  intro depth depth'
  cases ms with
  | nil =>
    refine .of_plain ?_
    simp [write, Filler]
  | cons m ms =>
    obtain ⟨key, j⟩ := m
    have first := h (key, j) (by simp) (depth + 1) (depth' + 1)
    have others := squeezes_members airy (fun m hm => h m (List.mem_cons_of_mem _ hm))
      (depth + 1) (depth' + 1)
    have brace : Squeezes .outside ['}'] ['}'] := .cons (by decide) (by decide) (.nil _)
    rw [toList_write_object, toList_write_object]
    exact .cons (by decide) (by decide) ((airy.squeezes_gap _ _).append
      ((squeezes_quote key).append (airy.squeezes_colon.append
        (first.append (others.append ((airy.squeezes_gap _ _).append brace))))))

theorem Proper.compacts {j : Json} (h : j.Proper) : Compacts l j := by
  induction h with
  | null =>
    intro depth depth'
    refine .of_plain ?_
    simp [write, Filler]
  | text s =>
    intro depth depth'
    simpa [write] using squeezes_quote s
  | @number n h =>
    intro depth depth'
    simpa [write, Numeral.text] using Squeezes.of_plain fun c => plain_of_mem_chars h (c := c)
  | array _ ih => exact compacts_array airy ih
  | object _ ih => exact compacts_object airy ih

end

/-- The depth does not show in a compact text. -/
lemma Proper.write_compact {j : Json} (h : j.Proper) (depth : Nat) :
    (j.write .compact depth "").toList = (j.render .compact).toList :=
  (h.compacts Layout.airy_compact 0 depth).unique (h.compacts Layout.airy_compact 0 0)

lemma toList_intercalate_cons (sep first : String) (others : List String) :
    (sep.intercalate (first :: others)).toList =
      first.toList ++ others.flatMap fun s => sep.toList ++ s.toList := by
  induction others generalizing first with
  | nil => simp
  | cons second others ih =>
    rw [String.intercalate_cons_cons, String.toList_append, String.toList_append, ih]
    simp

lemma toList_writeElements_compact {es : List Json} (h : ∀ e ∈ es, e.Proper) (depth : Nat) :
    (writeElements .compact depth "" es).toList =
      (es.map (render .compact)).flatMap fun s => ",".toList ++ s.toList := by
  induction es with
  | nil => rfl
  | cons e es ih =>
    have first := (h e (by simp)).write_compact depth
    have others := ih fun d hd => h d (List.mem_cons_of_mem e hd)
    rw [toList_writeElements_cons, first, others]
    simp [Layout.compact]

/-- A compact array has the compact texts of its elements, with commas between them. -/
theorem render_compact_array {es : List Json} (h : ∀ e ∈ es, e.Proper) :
    (array es).render .compact = "[" ++ ",".intercalate (es.map (render .compact)) ++ "]" := by
  cases es with
  | nil => rfl
  | cons e es =>
    have first := (h e (by simp)).write_compact 1
    have others := toList_writeElements_compact (fun d hd => h d (List.mem_cons_of_mem e hd)) 1
    rw [← String.toList_inj, render, toList_write_array, first, others, List.map_cons,
      String.toList_append, String.toList_append, toList_intercalate_cons]
    simp [Layout.compact]

/-! ### Newlines -/

mutual

/-- The gaps that a layout leaves in the text of a value. -/
def gaps : Json → Nat
  | array (e :: es) => e.gaps + elementGaps es + 2
  | object ((_, j) :: ms) => j.gaps + memberGaps ms + 2
  | _ => 0

/-- Those at the elements behind the first. -/
def elementGaps : List Json → Nat
  | [] => 0
  | e :: es => e.gaps + elementGaps es + 1

/-- Those at the members behind the first. -/
def memberGaps : List (String × Json) → Nat
  | [] => 0
  | (_, j) :: ms => j.gaps + memberGaps ms + 1

end

/-- The newlines of a layout: so many in each gap, and none at a colon. -/
structure Layout.Breaks (l : Layout) (k : Nat) : Prop where
  gap (depth : Nat) : (l.gap depth).toList.count '\n' = k
  colon : l.colon.toList.count '\n' = 0

lemma Layout.breaks_compact : compact.Breaks 0 := ⟨fun _ => by simp [compact], rfl⟩

lemma Layout.breaks_pretty : pretty.Breaks 1 :=
  ⟨fun _ => by simp [pretty, List.count_replicate], rfl⟩

section

variable {l : Layout} {k : Nat} (breaks : l.Breaks k)
include breaks

lemma count_newline_elements {es : List Json} (depth : Nat)
    (h : ∀ e ∈ es, ∀ depth, (e.write l depth "").toList.count '\n' = k * e.gaps) :
    (writeElements l depth "" es).toList.count '\n' = k * elementGaps es := by
  induction es with
  | nil => simp [writeElements, elementGaps]
  | cons e es ih =>
    have first := h e (by simp) depth
    have others := ih fun d hd => h d (List.mem_cons_of_mem e hd)
    rw [toList_writeElements_cons, List.count_cons_of_ne (by decide), List.count_append,
      List.count_append, breaks.gap, first, others, elementGaps]
    ring

lemma count_newline_members {ms : List (String × Json)} (depth : Nat)
    (h : ∀ m ∈ ms, ∀ depth, (m.2.write l depth "").toList.count '\n' = k * m.2.gaps) :
    (writeMembers l depth "" ms).toList.count '\n' = k * memberGaps ms := by
  induction ms with
  | nil => simp [writeMembers, memberGaps]
  | cons m ms ih =>
    obtain ⟨key, j⟩ := m
    have first := h (key, j) (by simp) depth
    have others := ih fun m hm => h m (List.mem_cons_of_mem _ hm)
    rw [toList_writeMembers_cons, List.count_cons_of_ne (by decide)]
    simp only [List.count_append, breaks.gap, breaks.colon, count_newline_quote, first, others,
      memberGaps]
    ring

theorem Proper.count_newline {j : Json} (h : j.Proper) (depth : Nat) :
    (j.write l depth "").toList.count '\n' = k * j.gaps := by
  induction h generalizing depth with
  | null => simp [write, gaps]
  | text s => simpa [write, gaps] using count_newline_quote s
  | @number n h =>
    have plain : '\n' ∉ n.chars := fun hc => (plain_of_mem_chars h hc).2 (Or.inr rfl)
    simpa [write, gaps, Numeral.text, List.count_eq_zero] using plain
  | @array es _ ih =>
    cases es with
    | nil => simp [write, gaps]
    | cons e es =>
      have others := count_newline_elements breaks (depth + 1)
        fun d hd depth => ih d (List.mem_cons_of_mem e hd) depth
      rw [toList_write_array, List.count_cons_of_ne (by decide)]
      simp only [List.count_append, breaks.gap, ih e (by simp), others, gaps]
      rw [show [']'].count '\n' = 0 from rfl]
      ring
  | @object ms _ ih =>
    cases ms with
    | nil => simp [write, gaps]
    | cons m ms =>
      obtain ⟨key, j⟩ := m
      have first := ih (key, j) (by simp) (depth + 1)
      have others := count_newline_members breaks (depth + 1)
        fun m hm depth => ih m (List.mem_cons_of_mem _ hm) depth
      rw [toList_write_object, List.count_cons_of_ne (by decide)]
      simp only [List.count_append, breaks.gap, breaks.colon, count_newline_quote, first, others,
        gaps]
      rw [show ['}'].count '\n' = 0 from rfl]
      ring

end

lemma Proper.newline_not_mem_compact {j : Json} (h : j.Proper) :
    '\n' ∉ (j.render .compact).toList :=
  List.count_eq_zero.mp ((h.count_newline Layout.breaks_compact 0).trans (Nat.zero_mul _))

end Json

/-! ### Tokens -/

lemma Prompt.length_linesBy_concat {α : Type} [DecidableEq α] (newline : α) (us : List α) (a : α) :
    (Prompt.linesBy newline (us ++ [a])).length = us.count newline + 1 := by
  induction us with
  | nil =>
    by_cases ha : a = newline <;> simp [Prompt.linesBy, Prompt.cons, ha]
  | cons b us ih =>
    have step : Prompt.linesBy newline (b :: us ++ [a]) =
        Prompt.cons newline b (Prompt.linesBy newline (us ++ [a])) := rfl
    rw [step]
    by_cases hb : b = newline
    · subst hb
      simp [Prompt.cons, ih]
    · rw [Prompt.cons_of_ne hb, List.count_cons_of_ne hb, List.length_cons, List.length_tail, ih]
      rfl

namespace Token

lemma gaps_toJson (t : Token) : t.toJson.gaps = 5 := by
  have literal (x : Option Literal) : ((x.map Literal.toJson).getD .null).gaps = 0 := by
    rcases x with - | x | s
    · rfl
    · simp only [Option.map_some, Option.getD_some, Literal.toJson]
      split <;> rfl
    · rfl
  simp [toJson, Json.gaps, Json.memberGaps, literal, Json.natural]

lemma elementGaps_map_toJson (ts : List Token) :
    Json.elementGaps (ts.map toJson) = 6 * ts.length := by
  induction ts with
  | nil => rfl
  | cons t ts ih =>
    rw [List.map_cons, Json.elementGaps, ih, gaps_toJson, List.length_cons]
    omega

lemma proper_array (ts : List Token) : (Json.array (ts.map toJson)).Proper := by
  refine .array fun e he => ?_
  obtain ⟨t, -, rfl⟩ := List.mem_map.mp he
  exact t.proper_toJson

lemma squeezed_array (ts : List Token) :
    Json.squeezed ((Json.array (ts.map toJson)).render .pretty) =
      (Json.array (ts.map toJson)).render .compact := by
  have squeezes := (proper_array ts).compacts Json.Layout.airy_pretty 0 0
  unfold Json.squeezed
  rw [Json.render, squeezes.text, String.ofList_toList, Json.render]

lemma count_newline_array {ts : List Token} (ne : ts ≠ []) :
    ((Json.array (ts.map toJson)).render .pretty).toList.count '\n' = 6 * ts.length + 1 := by
  have count := (proper_array ts).count_newline Json.Layout.breaks_pretty 0
  obtain ⟨t, ts, rfl⟩ := List.exists_cons_of_ne_nil ne
  rw [Json.render, count, List.map_cons, Json.gaps, gaps_toJson, elementGaps_map_toJson,
    List.length_cons]
  omega

/-- The bracket that closes the array is the last character, so the last line is not empty. -/
lemma exists_array_eq {ts : List Token} (ne : ts ≠ []) :
    ∃ us, ((Json.array (ts.map toJson)).render .pretty).toList = us ++ [']'] := by
  obtain ⟨t, ts, rfl⟩ := List.exists_cons_of_ne_nil ne
  rw [Json.render, List.map_cons, Json.toList_write_array]
  simp only [← List.append_assoc, ← List.cons_append]
  exact ⟨_, rfl⟩

lemma length_linesOf_array {ts : List Token} (ne : ts ≠ []) :
    (linesOf ((Json.array (ts.map toJson)).render .pretty)).length = 6 * ts.length + 2 := by
  have count := count_newline_array ne
  obtain ⟨us, eq⟩ := exists_array_eq ne
  have bracket : [']'].count '\n' = 0 := rfl
  rw [eq, List.count_append, bracket] at count
  rw [linesOf, List.length_map, eq, Prompt.length_linesBy_concat]
  omega

end Token

/-- **Layouts**: the pretty text of tokens is their compact texts between brackets and with commas,
but for blanks and newlines outside of strings. All newlines stand there, and there are six lines
for each token. -/
theorem pretty_agrees_with_compact (ts : List Token) (ne : ts ≠ []) :
    let text := (Json.array (ts.map Token.toJson)).render .pretty
    Json.squeezed text =
        "[" ++ ",".intercalate (ts.map fun t => t.toJson.render .compact) ++ "]" ∧
      (∀ us vs, text.toList = us ++ '\n' :: vs → Json.Mode.outside.after us = .outside) ∧
      (linesOf text).length = 6 * ts.length + 2 ∧
      (linesOf (String.join (Form.json.texts ts.toArray))).length = 6 * ts.length + 2 := by
  intro text
  have count : text.toList.count '\n' = 6 * ts.length + 1 := Token.count_newline_array ne
  have squeezed : Json.squeezed text = (Json.array (ts.map Token.toJson)).render .compact :=
    Token.squeezed_array ts
  refine ⟨?_, fun us vs cut => ?_, ?_, ?_⟩
  · have proper : ∀ e ∈ ts.map Token.toJson, e.Proper := by
      intro e he
      obtain ⟨t, -, rfl⟩ := List.mem_map.mp he
      exact t.proper_toJson
    rw [squeezed, Json.render_compact_array proper, List.map_map]
    rfl
  · have left := (Token.proper_array ts).newline_not_mem_compact
    rw [← squeezed, Json.squeezed, String.toList_ofList, cut] at left
    exact Json.after_eq_outside_of_not_mem left
  · exact Token.length_linesOf_array ne
  · have printed : (String.join (Form.json.texts ts.toArray)).toList = text.toList ++ ['\n'] := by
      simp [Form.texts, text]
    rw [linesOf, List.length_map, printed, Prompt.length_linesBy_concat, count]

/-- Tokens with a quote, newlines and blanks in strings, and with an infinity. -/
theorem pretty_agrees_with_compact_string :
    let ts : List Token := [⟨.string, "\"a \n b", some (.text "a \n b"), 2⟩,
      ⟨.number, "1", some (.number ⟨true, Binary64.infinity, by decide⟩), 2⟩]
    let text := (Json.array (ts.map Token.toJson)).render .pretty
    ts ≠ [] ∧
      Json.squeezed text =
        "[\x7b\"kind\":\"String\",\"lexeme\":\"\\\"a \\n b\"," ++
          "\"literal\":\"a \\n b\",\"line\":2\x7d," ++
          "\x7b\"kind\":\"Number\",\"lexeme\":\"1\",\"literal\":null,\"line\":2\x7d]" ∧
      (linesOf text).length = 14 := by
  intro ts text
  have ne : ts ≠ [] := by simp [ts]
  obtain ⟨squeezed, -, lines, -⟩ := pretty_agrees_with_compact ts ne
  exact ⟨ne, squeezed.trans (by decide +kernel), lines⟩

end LoxLexer
