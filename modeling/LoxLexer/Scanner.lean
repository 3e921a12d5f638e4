import LoxLexer.Piece

/-!
A scanner stands somewhere in a source and hands out one item after the other.

Its state is the text it has not read and where that text begins: the bytes and the lines
before it. So it can stop behind any item and go on later.
-/

namespace LoxLexer

structure Scanner where
  rest : List Char
  /-- The bytes read so far, in UTF-8. -/
  offset : Nat
  /-- The line of the next character; the first line is 1. -/
  line : Nat

namespace Scanner

def ofSource (source : String) : Scanner := ⟨source.toList, 0, 1⟩

/-- Reads one piece. -/
def step (s : Scanner) : Option (Piece × Scanner) :=
  match s.rest with
  | [] => none
  | c :: cs =>
    let (p, rest) := Piece.cut c cs
    some (p, ⟨rest, s.offset + p.bytes, s.line + p.newlines⟩)

theorem length_rest_step_lt {s t : Scanner} {p : Piece} (h : s.step = some (p, t)) :
    t.rest.length < s.rest.length := by
  unfold step at h
  split at h
  · cases h
  · next c cs hs =>
    cases h
    rw [hs]
    exact Piece.length_cut_lt c cs

/-- The next item, if one is left, and the scanner behind it. -/
def next (s : Scanner) : Option Item × Scanner :=
  match _h : s.step with
  | none => (none, s)
  | some (p, t) =>
    match p.item? s.line with
    | some i => (some i, t)
    | none => next t
termination_by s.rest.length
decreasing_by exact length_rest_step_lt _h

/-- Hands every item that is left to `f`, in order. The scanner is then at the end. -/
def fold {σ : Type} (f : σ → Item → σ) (acc : σ) (s : Scanner) : σ × Scanner :=
  match _h : s.step with
  | none => (acc, s)
  | some (p, t) => fold f ((p.item? s.line).elim acc (f acc)) t
termination_by s.rest.length
decreasing_by exact length_rest_step_lt _h

/-- The items that are left. -/
def items (s : Scanner) : List Item := (s.fold Array.push #[]).1.toList

/-- How many items are left. They are gone then. -/
def count (s : Scanner) : Nat × Scanner := s.fold (fun n _ => n + 1) 0

/-- The scanner at the end of the source. -/
def stop (s : Scanner) : Scanner := (s.fold (fun _ _ => ()) ()).2

theorem fold_of_none {σ : Type} (f : σ → Item → σ) (acc : σ) {s : Scanner} (h : s.step = none) :
    s.fold f acc = (acc, s) := by
  rw [fold]
  split <;> simp_all

theorem fold_of_some {σ : Type} (f : σ → Item → σ) (acc : σ) {s t : Scanner} {p : Piece}
    (h : s.step = some (p, t)) :
    s.fold f acc = t.fold f ((p.item? s.line).elim acc (f acc)) := by
  rw [fold]
  split <;> simp_all

theorem stop_of_none {s : Scanner} (h : s.step = none) : s.stop = s := by
  simp [stop, fold_of_none _ _ h]

theorem stop_of_some {s t : Scanner} {p : Piece} (h : s.step = some (p, t)) :
    s.stop = t.stop := by
  simp [stop, fold_of_some _ _ h]

/-- A fold goes through a list of its own making, and where it ends does not hang on `f`. -/
theorem exists_fold_eq (s : Scanner) :
    ∃ l : List Item, ∀ {σ : Type} (f : σ → Item → σ) (acc : σ),
      s.fold f acc = (l.foldl f acc, s.stop) := by
  match h : s.step with
  | none => exact ⟨[], fun f acc => by rw [fold_of_none f acc h, stop_of_none h]; rfl⟩
  | some (p, t) =>
    obtain ⟨l, hl⟩ := exists_fold_eq t
    refine ⟨(p.item? s.line).toList ++ l, fun f acc => ?_⟩
    rw [fold_of_some f acc h, hl, stop_of_some h, List.foldl_append]
    cases p.item? s.line <;> rfl
termination_by s.rest.length
decreasing_by exact length_rest_step_lt h

theorem fold_eq {σ : Type} (f : σ → Item → σ) (acc : σ) (s : Scanner) :
    s.fold f acc = (s.items.foldl f acc, s.stop) := by
  obtain ⟨l, hl⟩ := exists_fold_eq s
  have : s.items = l := by simp [items, hl]
  rw [this, hl]

theorem items_of_none {s : Scanner} (h : s.step = none) : s.items = [] := by
  simp [items, fold_of_none _ _ h]

theorem items_of_some {s t : Scanner} {p : Piece} (h : s.step = some (p, t)) :
    s.items = (p.item? s.line).toList ++ t.items := by
  have run := fold_of_some Array.push #[] h
  rw [fold_eq, fold_eq] at run
  have := congrArg (fun r => r.1.toList) run
  cases hp : p.item? s.line <;> simpa [hp] using this

end Scanner

end LoxLexer
