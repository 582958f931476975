import OctetStream.Buffer
import OctetStream.Medium.Read
import OctetStream.Proofs.Channel.Framing
import OctetStream.Proofs.Channel.Outcome

/-! Reads into slots of the caller. A read that succeeds fills all of them with the next octets of
the stream. One that fails leaves them alone on a buffer; on a channel the octets that its source
gave before it stopped are in their front, and gone from the source. -/

namespace OctetStream

open Medium

theorem Medium.readInto_of_receive {σ : Type} [Medium σ] {dest : Bytes} {s after : σ}
    {receipt : Receipt} (h : receive dest.length s = (receipt, after)) :
    readInto dest s = (⟨receipt.failure, overwrite receipt.got dest⟩, after) := by
  unfold readInto
  rw [h]

variable {dest : Bytes}

namespace Buffer

variable {b : Buffer}

theorem readInto_of_le (h : dest.length ≤ b.remaining) :
    readInto dest b = (⟨none, b.unread.take dest.length⟩, b.advance dest.length) := by
  have hgot : (b.unread.take dest.length).length = dest.length := List.length_take_of_le h
  rw [readInto_of_receive (receive_of_le h), overwrite_of_length_eq hgot.symm]

theorem readInto_of_lt (h : b.remaining < dest.length) :
    (readInto dest b).1 = ⟨some (.outOfBounds dest.length b.remaining b.position), dest⟩ := by
  rw [readInto_of_receive (receive_of_lt h), overwrite_nil]

theorem slots_of_failed_readInto (h : (readInto dest b).1.failure ≠ none) :
    (readInto dest b).1.slots = dest := by
  rcases Nat.lt_or_ge b.remaining dest.length with hlt | hle
  · rw [readInto_of_lt hlt]
  · rw [readInto_of_le hle] at h
    exact absurd rfl h

end Buffer

namespace Channel

variable {c : Channel}

inductive Filling (c : Channel) (dest : Bytes) : Filled UInt8 × Channel → Prop
  | whole {after} (enough : dest.length ≤ c.ahead.length)
    (ahead_eq : after.ahead = c.ahead.drop dest.length) :
    Filling c dest (⟨none, c.ahead.take dest.length⟩, after)
  | part {after} (got : Nat) (e : StreamError) (enough : got ≤ c.ahead.length)
    (fewer : got ≤ dest.length) (ahead_eq : after.ahead = c.ahead.drop got) :
    Filling c dest (⟨some e, c.ahead.take got ++ dest.drop got⟩, after)

theorem filling (c : Channel) (dest : Bytes) : Filling c dest (readInto dest c) := by
  have hreceived := received c dest.length
  rcases hreceive : c.receive dest.length with ⟨receipt, after⟩
  rw [readInto_of_receive hreceive]
  rw [hreceive] at hreceived
  cases hreceived with
  | noSource absent =>
    exact .part 0 _ (Nat.zero_le _) (Nat.zero_le _) rfl
  | whole short present enough cursor_eq =>
    have hahead := ahead_of_source present
    have hgot := List.length_take_of_le enough
    rw [overwrite_of_length_eq hgot.symm, ← hahead]
    exact .whole (hahead ▸ enough) (ahead_of_cursor _ present rfl cursor_eq)
  | part short got stop present fewer enough cursor_eq =>
    have hahead := ahead_of_source present
    have hgot := List.length_take_of_le enough
    rw [overwrite, hgot, ← hahead]
    exact .part got _ (hahead ▸ enough) (Nat.le_of_lt fewer)
      (ahead_of_cursor _ present rfl cursor_eq)

end Channel

theorem append_drop_eq_self_iff {α : Type} (front xs : List α) (n : Nat) :
    front ++ xs.drop n = xs ↔ front = xs.take n := by
  calc front ++ xs.drop n = xs
      ↔ front ++ xs.drop n = xs.take n ++ xs.drop n := by rw [List.take_append_drop]
    _ ↔ front = xs.take n := List.append_left_inj _

/-- Slots are filled by a read that succeeds, on every medium. After a read that failed those of a
buffer are as before; those of a channel are so only where what the source gave is what they held.
-/
theorem slots_after_readInto (dest : Bytes) (b : Buffer) (c : Channel) :
    let onBuffer := readInto dest b
    let onChannel := readInto dest c
    (onBuffer.1.failure = none →
      onBuffer.1.slots = b.unread.take dest.length ∧ onBuffer.1.slots.length = dest.length ∧
      onBuffer.2.unread = b.unread.drop dest.length) ∧
    (onBuffer.1.failure ≠ none → onBuffer.1.slots = dest) ∧
    (onChannel.1.failure = none →
      onChannel.1.slots = c.ahead.take dest.length ∧ onChannel.1.slots.length = dest.length ∧
      onChannel.2.ahead = c.ahead.drop dest.length) ∧
    (onChannel.1.failure ≠ none →
      ∃ got, got ≤ c.ahead.length ∧ got ≤ dest.length ∧ onChannel.2.ahead = c.ahead.drop got ∧
        onChannel.1.slots = c.ahead.take got ++ dest.drop got ∧
        (onChannel.1.slots = dest ↔ c.ahead.take got = dest.take got)) := by
  intro onBuffer onChannel
  have hfilling : Channel.Filling c dest onChannel := Channel.filling c dest
  refine ⟨fun hnone => ?_, fun hfailed => ?_, fun hnone => ?_, fun hfailed => ?_⟩
  · rcases Nat.lt_or_ge b.remaining dest.length with hlt | hle
    · rw [show onBuffer.1 = _ from Buffer.readInto_of_lt hlt] at hnone
      cases hnone
    · rw [show onBuffer = _ from Buffer.readInto_of_le hle]
      exact ⟨rfl, List.length_take_of_le hle, Buffer.unread_advance dest.length b⟩
  · rcases Nat.lt_or_ge b.remaining dest.length with hlt | hle
    · rw [show onBuffer.1 = _ from Buffer.readInto_of_lt hlt]
    · rw [show onBuffer = _ from Buffer.readInto_of_le hle] at hfailed
      exact absurd rfl hfailed
  · rcases honChannel : onChannel with ⟨filled, after⟩
    rw [honChannel] at hfilling hnone
    cases hfilling with
    | whole enough ahead_eq => exact ⟨rfl, List.length_take_of_le enough, ahead_eq⟩
    | part got e enough fewer ahead_eq => cases hnone
  · rcases honChannel : onChannel with ⟨filled, after⟩
    rw [honChannel] at hfilling hfailed
    cases hfilling with
    | whole enough ahead_eq => exact absurd rfl hfailed
    | part got e enough fewer ahead_eq =>
      exact ⟨got, enough, fewer, ahead_eq, rfl, append_drop_eq_self_iff _ dest got⟩

theorem failed_read_overwrites_slots :
    let c := Channel.reader (.ofBytes [1, 2])
    (readInto [9, 9, 9, 9] c).1 = ⟨some (.sourceExhausted 2 4), [1, 2, 9, 9]⟩ ∧
      ¬∀ (dest : Bytes) (c : Channel),
        (readInto dest c).1.failure ≠ none → (readInto dest c).1.slots = dest := by
  intro c
  have hcut : (readInto [9, 9, 9, 9] c).1 = ⟨some (.sourceExhausted 2 4), [1, 2, 9, 9]⟩ := by
    decide +kernel
  refine ⟨hcut, fun hkept => ?_⟩
  have hsame := hkept [9, 9, 9, 9] c (by rw [hcut]; exact Option.some_ne_none _)
  rw [hcut] at hsame
  exact absurd hsame (by decide)

end OctetStream
