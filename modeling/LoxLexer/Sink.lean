/-!
Output streams that may run out of room, and how reading and writing can fail.

A sink takes bytes up to its limit. A text that crosses the limit is cut there, even inside a
character.
-/

namespace LoxLexer

inductive Failure where
  | diskFull
  | shortWrite
  | invalidText
  /-- A failure that the operating system tells of, by its number and in its words. -/
  | system (code : Nat) (text : String)
deriving DecidableEq

def Failure.message : Failure → String
  | diskFull => "disk full"
  | shortWrite => "failed to write whole buffer"
  | invalidText => "stream did not contain valid UTF-8"
  | system code text => text ++ " (os error " ++ toString code ++ ")"

structure Sink where
  /-- How many bytes the sink takes altogether; without a limit it takes all. -/
  limit : Option Nat
  /-- The failure of a write for which there is no room. -/
  onFull : Failure
  written : ByteArray

namespace Sink

def unlimited : Sink := ⟨none, .diskFull, .empty⟩

/-- How many further bytes there is room for. -/
def room (s : Sink) : Option Nat := s.limit.map (· - s.written.size)

def append (s : Sink) (bytes : ByteArray) : Sink := { s with written := s.written ++ bytes }

/-- Writes some bytes. If there is no room for all of them, the first ones are written and the
write fails. -/
def writeBytes (s : Sink) (bytes : ByteArray) : Sink × Option Failure :=
  match s.room with
  | none => (s.append bytes, none)
  | some room =>
    if bytes.size ≤ room then (s.append bytes, none)
    else (s.append (bytes.extract 0 room), some s.onFull)

def write (s : Sink) (text : String) : Sink × Option Failure := s.writeBytes text.toUTF8

/-- Writes one text after the other, up to the first failure. -/
def writeAll (s : Sink) : List String → Sink × Option Failure
  | [] => (s, none)
  | text :: texts =>
    match s.write text with
    | (s, none) => s.writeAll texts
    | (s, some failure) => (s, some failure)

@[simp] theorem append_append (s : Sink) (a b : ByteArray) :
    (s.append a).append b = s.append (a ++ b) := by
  simp [append, ByteArray.append_assoc]

@[simp] theorem onFull_append (s : Sink) (a : ByteArray) : (s.append a).onFull = s.onFull := rfl

theorem room_append (s : Sink) (bytes : ByteArray) :
    (s.append bytes).room = s.room.map (· - bytes.size) := by
  cases h : s.limit <;> simp [room, append, h, Nat.sub_sub]

/-- Writing two parts one after the other is writing the whole. -/
theorem writeBytes_append (s : Sink) (a b : ByteArray) :
    s.writeBytes (a ++ b) = match s.writeBytes a with
      | (t, none) => t.writeBytes b
      | (t, some failure) => (t, some failure) := by
  unfold writeBytes
  cases h : s.room with
  | none => simp [room_append, h]
  | some room =>
    by_cases ha : a.size ≤ room
    · have fits : a.size + b.size ≤ room ↔ b.size ≤ room - a.size := by omega
      have whole : a.extract 0 room = a := by
        conv => rhs; rw [← ByteArray.extract_zero_max_size (a := a) (i := room)]
        rw [Nat.max_eq_left ha]
      have cut : (a ++ b).extract 0 room = a ++ b.extract 0 (room - a.size) := by
        rw [ByteArray.extract_append, whole, Nat.zero_sub]
      simp only [ByteArray.size_append, ha, fits, cut, if_true, room_append, h, Option.map_some,
        append_append, onFull_append]
    · have long : ¬ a.size + b.size ≤ room := by omega
      have cut : (a ++ b).extract 0 room = a.extract 0 room := by
        rw [ByteArray.extract_append, Nat.zero_sub, show room - a.size = 0 by omega]
        simp
      simp only [ByteArray.size_append, ha, long, cut, if_false]

/-- Writing texts one after the other is writing them joined. -/
theorem writeAll_eq (s : Sink) (texts : List String) :
    s.writeAll texts = s.write (String.join texts) := by
  induction texts generalizing s with
  | nil => cases h : s.room <;> simp [writeAll, write, writeBytes, append, h]
  | cons text texts ih =>
    simp only [write, String.toUTF8_eq_toByteArray] at ih
    simp only [writeAll, write, String.join_cons, String.toUTF8_eq_toByteArray,
      String.toByteArray_append, writeBytes_append, ih]

end Sink

end LoxLexer
