import OctetStream.Bytes.Cursor
import OctetStream.Fault

/-! Sources and sinks of octets. One call may transfer less than it was offered, or fail; a script
says what the next calls do, and after it every call transfers as much as fits. -/

namespace OctetStream

inductive Event
  | transfer (count : Nat)
  | fail (fault : Fault)
  deriving DecidableEq, Repr

structure Source where
  cursor : Cursor
  script : List Event := []
  /-- Where the source cannot be read at all: what calls after the script fail with. -/
  broken : Option String := none
  calls : Nat := 0
  deriving DecidableEq, Repr

namespace Source

def ofBytes (data : Bytes) (script : List Event := []) : Source where
  cursor := .start data
  script := script

def taken (s : Source) : Bytes :=
  s.cursor.passed

def nextEvent (want : Nat) (s : Source) : Event :=
  match s.script with
  | event :: _ => event
  | [] =>
    match s.broken with
    | some text => .fail ⟨.other, text⟩
    | none => .transfer want

def read (want : Nat) (s : Source) : Except Fault Bytes × Source :=
  let called := { s with script := s.script.tail, calls := s.calls + 1 }
  match s.nextEvent want with
  | .fail fault => (.error fault, called)
  | .transfer count =>
    let n := min count want
    (.ok (s.cursor.ahead.take n), { called with cursor := s.cursor.advance n })

theorem script_read (want : Nat) (s : Source) : (s.read want).2.script = s.script.tail := by
  unfold read
  split <;> rfl

theorem calls_read (want : Nat) (s : Source) : (s.read want).2.calls = s.calls + 1 := by
  unfold read
  split <;> rfl

theorem length_script_read {want : Nat} {s after : Source} {r : Except Fault Bytes}
    (h : s.read want = (r, after)) : after.script.length = s.script.length - 1 := by
  rw [← List.length_tail, ← script_read want s, h]

theorem read_eq_ok {want : Nat} {s after : Source} {got : Bytes}
    (h : s.read want = (.ok got, after)) :
    got.length ≤ want ∧ got = s.cursor.ahead.take got.length ∧
      after.cursor = s.cursor.advance got.length := by
  unfold read at h
  split at h
  · simp at h
  · rename_i count _
    obtain ⟨h₁, rfl⟩ := Prod.mk.inj h
    have hgot : s.cursor.ahead.take (min count want) = got := Except.ok.inj h₁
    have hlen : got.length = min (min count want) s.cursor.ahead.length := by
      rw [← hgot, List.length_take]
    refine ⟨by omega, ?_, ?_⟩
    · rw [hlen, ← List.take_eq_take_min, hgot]
    · simp only [Cursor.advance, hlen, ← List.take_eq_take_min, ← List.drop_eq_drop_min]

theorem read_eq_error {want : Nat} {s after : Source} {fault : Fault}
    (h : s.read want = (.error fault, after)) : after.cursor = s.cursor := by
  unfold read at h
  split at h
  · obtain ⟨_, rfl⟩ := Prod.mk.inj h
    rfl
  · simp at h

theorem read_of_script_eq_nil (want : Nat) {s : Source} (hs : s.script = [])
    (hb : s.broken = none) :
    s.read want = (.ok (s.cursor.ahead.take want),
      { s with calls := s.calls + 1, cursor := s.cursor.advance want }) := by
  simp [read, nextEvent, hs, hb]

theorem length_script_of_interrupt {want : Nat} {s after : Source} {fault : Fault}
    (h : s.read want = (.error fault, after)) (hi : fault.isInterrupt = true) :
    after.script.length + 1 = s.script.length := by
  have hl := length_script_read h
  cases hs : s.script with
  | cons event script =>
    simp only [hs, List.length_cons] at hl ⊢
    omega
  | nil =>
    cases hb : s.broken with
    | none => simp [read_of_script_eq_nil want hs hb] at h
    | some text =>
      simp only [read, nextEvent, hs, hb, Prod.mk.injEq, Except.error.injEq] at h
      rw [← h.1] at hi
      exact absurd hi (Bool.false_ne_true)

end Source

structure Sink where
  accepted : Bytes := []
  script : List Event := []
  flushFault : Option Fault := none
  calls : Nat := 0
  flushes : Nat := 0
  deriving DecidableEq, Repr, Inhabited

namespace Sink

def contents (s : Sink) : Bytes :=
  s.accepted.reverse

def write (data : Bytes) (s : Sink) : Except Fault Nat × Sink :=
  let called := { s with script := s.script.tail, calls := s.calls + 1 }
  let accept (part : Bytes) : Except Fault Nat × Sink :=
    (.ok part.length, { called with accepted := part.reverseAux s.accepted })
  match s.script with
  | .fail fault :: _ => (.error fault, called)
  | .transfer count :: _ => accept (data.take count)
  | [] => accept data

def flush (s : Sink) : Except Fault Unit × Sink :=
  let flushed := { s with flushes := s.flushes + 1 }
  match s.flushFault with
  | some fault => (.error fault, flushed)
  | none => (.ok (), flushed)

theorem script_write (data : Bytes) (s : Sink) : (s.write data).2.script = s.script.tail := by
  unfold write
  split <;> rfl

theorem calls_write (data : Bytes) (s : Sink) : (s.write data).2.calls = s.calls + 1 := by
  unfold write
  split <;> rfl

theorem length_script_write {data : Bytes} {s after : Sink} {r : Except Fault Nat}
    (h : s.write data = (r, after)) : after.script.length = s.script.length - 1 := by
  rw [← List.length_tail, ← script_write data s, h]

theorem length_script_of_error {data : Bytes} {s after : Sink} {fault : Fault}
    (h : s.write data = (.error fault, after)) : after.script.length + 1 = s.script.length := by
  have hl := length_script_write h
  cases hs : s.script with
  | nil => simp [write, hs] at h
  | cons event script =>
    simp only [hs, List.length_cons] at hl ⊢
    omega

theorem write_eq_ok {data : Bytes} {s after : Sink} {n : Nat}
    (h : s.write data = (.ok n, after)) :
    n ≤ data.length ∧ after.contents = s.contents ++ data.take n := by
  unfold write at h
  split at h
  · simp at h
  · rename_i count _ _
    obtain ⟨hn, rfl⟩ := Prod.mk.inj h
    have hn := Except.ok.inj hn
    rw [List.length_take] at hn
    refine ⟨by omega, ?_⟩
    simp [contents, List.reverseAux_eq, ← hn, ← List.take_eq_take_min]
  · obtain ⟨hn, rfl⟩ := Prod.mk.inj h
    have hn := Except.ok.inj hn
    exact ⟨by omega, by simp [contents, List.reverseAux_eq, ← hn]⟩

theorem write_eq_error {data : Bytes} {s after : Sink} {fault : Fault}
    (h : s.write data = (.error fault, after)) : after.contents = s.contents := by
  unfold write at h
  split at h
  · obtain ⟨_, rfl⟩ := Prod.mk.inj h
    rfl
  · simp at h
  · simp at h

end Sink
end OctetStream
