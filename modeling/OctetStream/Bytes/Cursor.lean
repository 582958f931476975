import OctetStream.Bytes

/-! Octets with a place in them. What lies behind the place is kept with the latest octet first, so
that going on by a few octets costs only these few. -/

namespace OctetStream

structure Cursor where
  behind : Bytes
  ahead : Bytes
  deriving DecidableEq, Repr, Inhabited

namespace Cursor

def start (data : Bytes) : Cursor :=
  ⟨[], data⟩

def passed (c : Cursor) : Bytes :=
  c.behind.reverse

def data (c : Cursor) : Bytes :=
  c.passed ++ c.ahead

def position (c : Cursor) : Nat :=
  c.behind.length

def remaining (c : Cursor) : Nat :=
  c.ahead.length

def size (c : Cursor) : Nat :=
  c.position + c.remaining

def holds (c : Cursor) (n : Nat) : Bool :=
  c.ahead.holds n

def advance (n : Nat) (c : Cursor) : Cursor :=
  ⟨(c.ahead.take n).reverseAux c.behind, c.ahead.drop n⟩

def seek (p : Nat) (c : Cursor) : Cursor :=
  (start c.data).advance p

def append (b : Bytes) (c : Cursor) : Cursor :=
  { c with ahead := c.ahead ++ b }

theorem holds_iff (c : Cursor) (n : Nat) : c.holds n = true ↔ n ≤ c.remaining :=
  Bytes.holds_iff

theorem data_start (b : Bytes) : (start b).data = b := rfl

theorem data_advance (n : Nat) (c : Cursor) : (c.advance n).data = c.data := by
  simp [advance, data, passed, List.reverseAux_eq]

theorem passed_advance (n : Nat) (c : Cursor) :
    (c.advance n).passed = c.passed ++ c.ahead.take n := by
  simp [advance, passed, List.reverseAux_eq]

theorem data_append (b : Bytes) (c : Cursor) : (c.append b).data = c.data ++ b := by
  simp [append, data, passed]

theorem length_data (c : Cursor) : c.data.length = c.size := by
  simp [data, passed, size, position, remaining]

theorem position_advance {n : Nat} {c : Cursor} (h : n ≤ c.remaining) :
    (c.advance n).position = c.position + n := by
  simp only [remaining] at h
  simp only [advance, position, List.reverseAux_eq, List.length_append, List.length_reverse,
    List.length_take, Nat.min_eq_left h]
  omega

theorem remaining_advance (n : Nat) (c : Cursor) :
    (c.advance n).remaining = c.remaining - n := by
  simp [advance, remaining]

theorem ahead_advance (n : Nat) (c : Cursor) : (c.advance n).ahead = c.ahead.drop n := rfl

theorem advance_advance (m n : Nat) (c : Cursor) :
    (c.advance m).advance n = c.advance (m + n) := by
  simp [advance, List.reverseAux_eq, List.take_add, List.drop_drop]

theorem advance_append {n : Nat} {c : Cursor} (h : n ≤ c.remaining) (b : Bytes) :
    (c.append b).advance n = (c.advance n).append b := by
  simp only [remaining] at h
  simp only [advance, append, List.take_append_of_le_length h, List.drop_append_of_le_length h]

theorem data_seek (p : Nat) (c : Cursor) : (c.seek p).data = c.data := by
  rw [seek, data_advance, data_start]

theorem seek_position (c : Cursor) : c.seek c.position = c := by
  obtain ⟨behind, ahead⟩ := c
  have hlength : behind.length = behind.reverse.length := List.length_reverse.symm
  simp only [seek, start, data, passed, position, advance, List.reverseAux_eq, List.append_nil]
  rw [hlength, List.take_left, List.drop_left, List.reverse_reverse]

theorem seek_position_of_data {c d : Cursor} (h : d.data = c.data) : d.seek c.position = c := by
  rw [seek, h]
  exact seek_position c

end Cursor
end OctetStream
