import LoxLexer.Proofs.Reading

/-!
A source can be scanned in two parts if the first one ends with its line.

No piece but a string runs past a newline, so the pieces of both parts are those of the whole,
`Cuts.append`. What the second part gives is raised by the lines of the first.
-/

namespace LoxLexer

def Token.raise (n : Nat) (t : Token) : Token := { t with line := t.line + n }

def Diagnostic.raise (n : Nat) (d : Diagnostic) : Diagnostic := { d with line := d.line + n }

def Item.raise (n : Nat) : Item → Item
  | token t => token (t.raise n)
  | error d => error (d.raise n)

/-- The line of a text is over where the text ends. -/
def EndsLine (cs : List Char) : Prop := ∀ c ∈ cs.getLast?, c = '\n'

lemma EndsLine.of_append {us vs : List Char} (h : EndsLine (us ++ vs)) : EndsLine vs := by
  intro c hc
  refine h c ?_
  rw [List.getLast?_append, Option.mem_def.mp hc]
  simp

namespace Piece

/-- Besides the newline itself only strings hold newlines. -/
lemma Proper.of_newline_mem {p : Piece} (hp : p.Proper) (h : '\n' ∈ p.chars) :
    p = blank '\n' ∨ (∃ body, p = string body) ∨ ∃ body, p = openString body := by
  cases p with
  | blank c =>
    obtain rfl : '\n' = c := by simpa [chars] using h
    exact Or.inl rfl
  | comment body =>
    have : '\n' ∈ body := by simpa [chars] using h
    exact absurd this hp
  | mark m =>
    have : '\n' ∉ m.chars := by cases m <;> decide
    exact absurd h this
  | word letters => exact absurd (hp.2 _ h) (by decide)
  | number whole fraction =>
    have digit : ¬ ('\n').isDigit := by decide
    rcases List.mem_append.mp h with h | h
    · exact absurd (hp.2.1 _ h) digit
    · cases fraction with
      | nil => simp at h
      | cons d ds =>
        have : '\n' ∈ d :: ds := by simpa using h
        exact absurd (hp.2.2 _ this) digit
  | string body => exact Or.inr (Or.inl ⟨body, rfl⟩)
  | openString body => exact Or.inr (Or.inr ⟨body, rfl⟩)
  | stray c =>
    obtain rfl : '\n' = c := by simpa [chars] using h
    exact absurd (by decide) hp.1

/-- The pieces that stay on one line, whatever their text. -/
def OneLine : Piece → Prop
  | comment _ | mark _ | word _ | number _ _ | stray _ => True
  | blank _ | string _ | openString _ => False

lemma Proper.newlines_eq_zero {p : Piece} (hp : p.Proper) (h : p.OneLine) : p.newlines = 0 := by
  rw [newlines, List.count_eq_zero]
  intro mem
  rcases hp.of_newline_mem mem with rfl | ⟨body, rfl⟩ | ⟨body, rfl⟩
  all_goals exact h

/-- A piece that stops before a text stops before any longer one, if the text ends its line. -/
lemma Stops.append {p : Piece} {us : List Char} (hp : p.Stops us) (ne : us ≠ [])
    (ends : EndsLine us) (vs : List Char) : p.Stops (us ++ vs) := by
  have head : (us ++ vs).head? = us.head? := List.head?_append_of_ne_nil us ne
  cases p with
  | comment => exact fun c hc => hp c (head ▸ hc)
  | mark => exact fun c hc => hp c (head ▸ hc)
  | word => exact fun c hc => hp c (head ▸ hc)
  | number =>
    refine ⟨fun c hc => hp.1 c (head ▸ hc), fun hf d hd => hp.2 hf d ?_⟩
    match us, ne with
    -- the only character is the newline, so no point begins the longer text
    | [c], _ =>
      obtain rfl : c = '\n' := ends c (by simp)
      simp at hd
    | c :: e :: us, _ =>
      obtain ⟨rest, same⟩ := hd
      simp only [List.cons_append, List.cons.injEq] at same
      obtain ⟨rfl, rfl, -⟩ := same
      exact ⟨us, rfl⟩
  | openString => exact absurd hp ne
  | blank => trivial
  | string => trivial
  | stray => trivial

/-- A piece at the end of a line stops before every text. -/
lemma Proper.stops_of_endsLine {p : Piece} (hp : p.Proper) (closed : ∀ body, p ≠ openString body)
    (ends : EndsLine p.chars) (vs : List Char) : p.Stops vs := by
  have last := List.getLast_mem hp.chars_ne_nil
  rw [ends _ (List.getLast_mem_getLast? hp.chars_ne_nil)] at last
  rcases hp.of_newline_mem last with rfl | ⟨body, rfl⟩ | ⟨body, rfl⟩
  · trivial
  · trivial
  · exact absurd rfl (closed body)

theorem Cuts.append {us vs : List Char} {ps qs : List Piece} (h : Cuts us ps) (h' : Cuts vs qs)
    (ends : EndsLine us) (closed : ∀ body, openString body ∉ ps) :
    Cuts (us ++ vs) (ps ++ qs) := by
  induction h with
  | nil => exact h'
  | @cons p rest ps proper stops _ ih =>
    rw [List.append_assoc]
    refine .cons proper ?_ (ih ends.of_append fun body hb => closed body (by simp [hb]))
    by_cases ne : rest = []
    · -- the last piece of the line has all of `vs` behind it
      subst ne
      rw [List.append_nil] at ends
      exact proper.stops_of_endsLine (fun body hb => closed body (by simp [hb])) ends _
    · exact stops.append ne ends.of_append vs

/-! ### Items -/

lemma item?_raise (line n : Nat) (p : Piece) :
    p.item? (line + n) = (p.item? line).map (Item.raise n) := by
  cases p <;> simp [item?, Item.raise, Token.raise, Diagnostic.raise, Nat.add_right_comm]

lemma itemsFrom_raise (line n : Nat) (ps : List Piece) :
    itemsFrom (line + n) ps = (itemsFrom line ps).map (Item.raise n) := by
  induction ps generalizing line with
  | nil => rfl
  | cons p ps ih =>
    rw [itemsFrom, itemsFrom, item?_raise, Nat.add_right_comm, ih, List.map_append,
      Option.toList_map]

lemma exists_error_of_mem (line : Nat) {ps : List Piece} {body : List Char}
    (h : openString body ∈ ps) :
    ∃ d, .error d ∈ itemsFrom line ps ∧ d.fault = .unterminatedString := by
  induction ps generalizing line with
  | nil => simp at h
  | cons p ps ih =>
    rw [itemsFrom]
    rcases List.mem_cons.mp h with rfl | h
    · refine ⟨⟨.unterminatedString, line + (openString body).newlines⟩, ?_, rfl⟩
      simp [item?]
    · obtain ⟨d, hd, fault⟩ := ih (line + p.newlines) h
      exact ⟨d, List.mem_append_right _ hd, fault⟩

end Piece

lemma Item.token?_raise (n : Nat) (i : Item) :
    (i.raise n).token? = i.token?.map (Token.raise n) := by
  cases i <;> rfl

lemma Item.error?_raise (n : Nat) (i : Item) :
    (i.raise n).error? = i.error?.map (Diagnostic.raise n) := by
  cases i <;> rfl

theorem itemsOf_append {a b : String} (ends : EndsLine a.toList)
    (closed : ∀ d ∈ errorsOf a, d.fault ≠ .unterminatedString) :
    itemsOf (a ++ b) = itemsOf a ++ (itemsOf b).map (Item.raise (a.toList.count '\n')) := by
  obtain ⟨ps, hps⟩ := Piece.exists_cuts a.toList
  obtain ⟨qs, hqs⟩ := Piece.exists_cuts b.toList
  have items_a : itemsOf a = Piece.itemsFrom 1 ps := Scanner.items_eq hps
  have items_b : itemsOf b = Piece.itemsFrom 1 qs := Scanner.items_eq hqs
  have no_open (body : List Char) : .openString body ∉ ps := fun h => by
    obtain ⟨d, hd, fault⟩ := Piece.exists_error_of_mem 1 h
    rw [← items_a] at hd
    refine closed d ?_ fault
    rw [errorsOf_eq]
    exact List.mem_filterMap.mpr ⟨_, hd, rfl⟩
  have whole : Piece.Cuts (a ++ b).toList (ps ++ qs) := by
    rw [String.toList_append]
    exact hps.append hqs ends no_open
  calc itemsOf (a ++ b)
      = Piece.itemsFrom 1 (ps ++ qs) := Scanner.items_eq whole
    _ = Piece.itemsFrom 1 ps ++ Piece.itemsFrom (1 + a.toList.count '\n') qs := by
        rw [Piece.itemsFrom_append, hps.flatMap_chars]
    _ = itemsOf a ++ (itemsOf b).map (Item.raise (a.toList.count '\n')) := by
        rw [Piece.itemsFrom_raise, items_a, items_b]

/-- **Line breaks**: the tokens and errors of two parts are those of the whole, the ones of the
second part on later lines, if the first part is empty or ends with a newline and leaves no
string open. -/
theorem scan_append {ρ : Type} [Reporter ρ] (r : ρ) (a b : String)
    (ends : a = "" ∨ ∃ c, a = c ++ "\n")
    (closed : ∀ d ∈ errorsOf a, d.fault ≠ .unterminatedString) :
    (scan (a ++ b) r).tokens.toList =
      (scan a r).tokens.toList.dropLast ++
        (scan b r).tokens.toList.map (Token.raise (a.toList.count '\n')) ∧
    errorsOf (a ++ b) =
      errorsOf a ++ (errorsOf b).map (Diagnostic.raise (a.toList.count '\n')) := by
  have ends : EndsLine a.toList := by
    rcases ends with rfl | ⟨c, rfl⟩ <;> simp [EndsLine]
  have items := itemsOf_append (b := b) ends closed
  constructor
  · have last : 1 + (a ++ b).toList.count '\n' =
        1 + b.toList.count '\n' + a.toList.count '\n' := by
      rw [String.toList_append, List.count_append]
      omega
    rw [tokens_scan, tokens_scan, tokens_scan, items, last]
    simp [List.filterMap_append, List.filterMap_map, List.map_filterMap,
      Item.token?_raise, Token.raise, Token.endOfFile]
  · rw [errorsOf_eq, errorsOf_eq, errorsOf_eq, items]
    simp [List.filterMap_append, List.filterMap_map, List.map_filterMap,
      Item.error?_raise]

/-- A number before its point, a string over two lines, a stray character and a comment with a
quote end the first part; the second begins with the digits of a fraction. -/
theorem scan_append_at_seam :
    let a := "x = 1.\n\"//\n\" @ // \"\n"
    let b := "5 \"\n"
    (∃ c, a = c ++ "\n") ∧ (∀ d ∈ errorsOf a, d.fault ≠ .unterminatedString) ∧
    (scan (a ++ b) (#[] : Array Diagnostic)).tokens.toList =
      (scan a (#[] : Array Diagnostic)).tokens.toList.dropLast ++
        (scan b (#[] : Array Diagnostic)).tokens.toList.map (Token.raise 3) ∧
    errorsOf (a ++ b) = errorsOf a ++ (errorsOf b).map (Diagnostic.raise 3) := by
  have ends : ∃ c, "x = 1.\n\"//\n\" @ // \"\n" = c ++ "\n" := ⟨"x = 1.\n\"//\n\" @ // \"", rfl⟩
  have closed : ∀ d ∈ errorsOf "x = 1.\n\"//\n\" @ // \"\n", d.fault ≠ .unterminatedString := by
    decide +kernel
  exact ⟨ends, closed, scan_append _ _ _ (Or.inr ends) closed⟩

end LoxLexer
