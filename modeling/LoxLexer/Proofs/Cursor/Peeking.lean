import Mathlib.Data.List.Basic

/-!
Sequences that can be looked at before they are taken.

To look ahead may change how such a sequence is held, and never what is `left` of it: `Peeking`.
One that keeps what it has looked at in a queue, the end among it, is `Buffered`.
-/

namespace LoxLexer

/-- A sequence that is taken from the front, and can be looked at ahead of that. -/
class Peeking (σ : Type) (α : outParam Type) where
  ofList : List α → σ
  /-- Takes the first element. At the end there is none, and there is none again. -/
  next : σ → Option α × σ
  /-- Looks at the element that so many others are in front of. -/
  peek : Nat → σ → Option α × σ
  /-- What has not been taken. -/
  left : σ → List α
  left_ofList (l : List α) : left (ofList l) = l
  next_fst (s : σ) : (next s).1 = (left s).head?
  left_next (s : σ) : left (next s).2 = (left s).tail
  peek_fst (n : Nat) (s : σ) : (peek n s).1 = (left s)[n]?
  left_peek (n : Nat) (s : σ) : left (peek n s).2 = left s

/-- A sequence that has been looked at from the front. -/
structure Buffered (α : Type) where
  seen : List α
  /-- How often the end has been seen behind these. -/
  ends : Nat
  unseen : List α
  unseen_of_ends : ends ≠ 0 → unseen = []

namespace Buffered

variable {α : Type}

def ofList (l : List α) : Buffered α := ⟨[], 0, l, fun h => absurd rfl h⟩

def left (b : Buffered α) : List α := b.seen ++ b.unseen

/-- How long the queue is. -/
def queued (b : Buffered α) : Nat := b.seen.length + b.ends

/-- Puts one element more into the queue, or the end once more. -/
def see (b : Buffered α) : Buffered α :=
  match h : b.unseen with
  | [] => ⟨b.seen, b.ends + 1, [], fun _ => rfl⟩
  | x :: xs => ⟨b.seen ++ [x], b.ends, xs, fun ends => by simp [b.unseen_of_ends ends] at h⟩

lemma left_see (b : Buffered α) : b.see.left = b.left := by
  unfold see
  split <;> simp_all [left]

lemma queued_see (b : Buffered α) : b.see.queued = b.queued + 1 := by
  unfold see
  split
  · rfl
  · simp only [queued, List.length_append, List.length_singleton]
    omega

def fill (b : Buffered α) : Nat → Buffered α
  | 0 => b
  | n + 1 => b.see.fill n

lemma left_fill (b : Buffered α) (n : Nat) : (b.fill n).left = b.left := by
  induction n generalizing b with
  | zero => rfl
  | succ n ih => rw [fill, ih, left_see]

lemma queued_fill (b : Buffered α) (n : Nat) : (b.fill n).queued = b.queued + n := by
  induction n generalizing b with
  | zero => rfl
  | succ n ih =>
    rw [fill, ih, queued_see]
    omega

/-- In the queue stands what is left, and behind it nothing. -/
lemma getElem?_seen {b : Buffered α} {n : Nat} (h : n < b.queued) : b.seen[n]? = b.left[n]? := by
  unfold queued at h
  by_cases hn : n < b.seen.length
  · rw [left, List.getElem?_append_left hn]
  · rw [left, b.unseen_of_ends (by omega), List.append_nil]

def peek (n : Nat) (b : Buffered α) : Option α × Buffered α :=
  let filled := b.fill (n + 1 - b.queued)
  (filled.seen[n]?, filled)

def next (b : Buffered α) : Option α × Buffered α :=
  match b.seen with
  | x :: xs => (some x, { b with seen := xs })
  | [] =>
    if h : b.ends = 0 then
      match b.unseen with
      | [] => (none, b)
      | x :: xs => (some x, ⟨[], b.ends, xs, fun ends => absurd h ends⟩)
    else (none, ⟨[], b.ends - 1, b.unseen, fun _ => b.unseen_of_ends h⟩)

lemma next_spec (b : Buffered α) : b.next.1 = b.left.head? ∧ b.next.2.left = b.left.tail := by
  unfold next left
  split
  · next seen => simp [seen]
  · next seen =>
    split
    · split <;> simp_all
    · next ends => simp [seen, b.unseen_of_ends ends]

lemma peek_fst (n : Nat) (b : Buffered α) : (b.peek n).1 = b.left[n]? := by
  have filled : n < (b.fill (n + 1 - b.queued)).queued := by
    rw [queued_fill]
    omega
  rw [peek, getElem?_seen filled, left_fill]

instance : Peeking (Buffered α) α where
  ofList := ofList
  next := next
  peek := peek
  left := left
  left_ofList _ := rfl
  next_fst b := b.next_spec.1
  left_next b := b.next_spec.2
  peek_fst := peek_fst
  left_peek _ b := b.left_fill _

end Buffered

end LoxLexer
