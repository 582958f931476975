import OctetStream.Bytes.Cursor
import OctetStream.Log
import OctetStream.Medium
import OctetStream.Options

/-! A stream in memory. Writes append; reads walk a cursor and take all that they ask for or
nothing. A read of several parts that fails puts the place and the counters back and counts one
failure. -/

namespace OctetStream

structure Buffer where
  cursor : Cursor
  order : ByteOrder
  counters : Counters := {}
  journal : Journal := []
  deriving DecidableEq, Repr

namespace Buffer

def ofBytes (data : Bytes) (order : ByteOrder := .default) : Buffer where
  cursor := .start data
  order := order
  journal := [.bufferLoaded data order]

def empty (order : ByteOrder := .default) (capacity : Nat := 0) : Buffer where
  cursor := .start []
  order := order
  journal := [.bufferNew order capacity]

def withOptions (o : Options) : Except StreamError Buffer :=
  let capacity := o.capacityHint.getD 0
  if Limits.maxAllocation < capacity then .error .capacityOverflow
  else .ok (empty o.order capacity)

def position (b : Buffer) : Nat :=
  b.cursor.position

def size (b : Buffer) : Nat :=
  b.cursor.size

def remaining (b : Buffer) : Nat :=
  b.cursor.remaining

def isExhausted (b : Buffer) : Bool :=
  b.cursor.ahead.isEmpty

def data (b : Buffer) : Bytes :=
  b.cursor.data

def unread (b : Buffer) : Bytes :=
  b.cursor.ahead

def reset (b : Buffer) : Buffer where
  cursor := .start []
  order := b.order
  journal := .bufferReset b.size :: b.journal

def log (entry : LogEntry) (b : Buffer) : Buffer :=
  { b with journal := entry :: b.journal }

def check (n : Nat) (b : Buffer) : Except StreamError Unit :=
  if b.cursor.holds n then .ok () else .error (.outOfBounds n b.remaining b.position)

def peek (n : Nat) (b : Buffer) : Except StreamError Bytes :=
  (b.check n).map fun _ => b.cursor.ahead.take n

def advance (n : Nat) (b : Buffer) : Buffer :=
  { b with cursor := b.cursor.advance n, counters := b.counters.addRead n }

def failed (e : StreamError) (b : Buffer) : Buffer :=
  { b.log (.bufferReadFailed e) with counters := b.counters.addReadFailure }

/-- The next `n` octets. A failure is neither counted nor logged. -/
def consume (n : Nat) : Action Buffer Bytes := fun b =>
  match b.check n with
  | .ok _ => .ok (b.cursor.ahead.take n) (b.advance n)
  | .error e => .error e b

def receive (n : Nat) (b : Buffer) : Receipt × Buffer :=
  match b.check n with
  | .ok _ => (⟨b.cursor.ahead.take n, none⟩, b.advance n)
  | .error e => (⟨[], some e⟩, b.failed e)

def readBytes (n : Nat) : Action Buffer Bytes := fun b =>
  match b.check n with
  -- Looked at before anything is taken: a length that nothing backs sets no storage aside.
  | .error e => .error e (b.failed e)
  | .ok _ => consume n b

def send (data : Bytes) : Action Buffer Unit := fun b =>
  .ok () { b with
    cursor := b.cursor.append data
    counters := b.counters.addWrite data.length }

/-- A read of several parts began at `b` and failed at `after`: the place and the counters are put
back, and the failure counts once. -/
def rewound (b : Buffer) (e : StreamError) (after : Buffer) : Buffer :=
  { after.log (.compositeReadFailed b.position e) with
    cursor := after.cursor.seek b.position
    counters := b.counters.addReadFailure }

def atomically {α : Type} (read : Action Buffer α) : Action Buffer α := fun b =>
  match read b with
  | .ok a after => .ok a after
  | .error e after => .error e (b.rewound e after)

instance : Medium Buffer where
  order := order
  offset := position
  counters := counters
  payloadLimit _ := none
  supply := remaining
  receive := receive
  send := send
  readBytes := readBytes
  atomically := atomically

theorem length_data (b : Buffer) : b.data.length = b.size :=
  Cursor.length_data _

theorem size_eq (b : Buffer) : b.size = b.position + b.remaining := rfl

theorem isExhausted_iff (b : Buffer) : b.isExhausted = true ↔ b.remaining = 0 := by
  simp [isExhausted, remaining, Cursor.remaining]

theorem check_of_le {n : Nat} {b : Buffer} (h : n ≤ b.remaining) : b.check n = .ok () :=
  if_pos ((Cursor.holds_iff _ _).mpr h)

theorem check_of_lt {n : Nat} {b : Buffer} (h : b.remaining < n) :
    b.check n = .error (.outOfBounds n b.remaining b.position) :=
  if_neg fun hc => Nat.not_le.mpr h ((Cursor.holds_iff _ _).mp hc)

theorem peek_of_le {n : Nat} {b : Buffer} (h : n ≤ b.remaining) :
    b.peek n = .ok (b.unread.take n) := by
  rw [peek, check_of_le h]
  rfl

theorem peek_of_lt {n : Nat} {b : Buffer} (h : b.remaining < n) :
    b.peek n = .error (.outOfBounds n b.remaining b.position) := by
  rw [peek, check_of_lt h]
  rfl

theorem consume_of_le {n : Nat} {b : Buffer} (h : n ≤ b.remaining) :
    consume n b = .ok (b.unread.take n) (b.advance n) := by
  rw [consume, check_of_le h]
  rfl

theorem consume_of_lt {n : Nat} {b : Buffer} (h : b.remaining < n) :
    consume n b = .error (.outOfBounds n b.remaining b.position) b := by
  rw [consume, check_of_lt h]

theorem receive_of_le {n : Nat} {b : Buffer} (h : n ≤ b.remaining) :
    b.receive n = (⟨b.unread.take n, none⟩, b.advance n) := by
  rw [receive, check_of_le h]
  rfl

theorem receive_of_lt {n : Nat} {b : Buffer} (h : b.remaining < n) :
    b.receive n = (⟨[], some (.outOfBounds n b.remaining b.position)⟩,
      b.failed (.outOfBounds n b.remaining b.position)) := by
  rw [receive, check_of_lt h]

theorem demand_of_le {n : Nat} {b : Buffer} (h : n ≤ b.remaining) :
    demand receive n b = .ok (b.unread.take n) (b.advance n) := by
  rw [demand, receive_of_le h]

theorem demand_of_lt {n : Nat} {b : Buffer} (h : b.remaining < n) :
    demand receive n b = .error (.outOfBounds n b.remaining b.position)
      (b.failed (.outOfBounds n b.remaining b.position)) := by
  rw [demand, receive_of_lt h]

theorem readBytes_of_le {n : Nat} {b : Buffer} (h : n ≤ b.remaining) :
    readBytes n b = .ok (b.unread.take n) (b.advance n) := by
  rw [readBytes, check_of_le h]
  exact consume_of_le h

theorem readBytes_of_lt {n : Nat} {b : Buffer} (h : b.remaining < n) :
    readBytes n b = .error (.outOfBounds n b.remaining b.position)
      (b.failed (.outOfBounds n b.remaining b.position)) := by
  rw [readBytes, check_of_lt h]

theorem readBytes_eq_demand (n : Nat) : readBytes n = demand receive n := by
  funext b
  rcases Nat.lt_or_ge b.remaining n with hlt | hle
  · rw [readBytes_of_lt hlt, demand_of_lt hlt]
  · rw [readBytes_of_le hle, demand_of_le hle]

theorem readBytes_eq_demandAllocated {n : Nat} (hn : n ≤ Limits.maxAllocation) :
    readBytes n = demandAllocated receive n := by
  rw [demandAllocated, if_neg (Nat.not_lt.mpr hn)]
  exact readBytes_eq_demand n

theorem data_advance (n : Nat) (b : Buffer) : (b.advance n).data = b.data :=
  Cursor.data_advance ..

theorem position_advance {n : Nat} {b : Buffer} (h : n ≤ b.remaining) :
    (b.advance n).position = b.position + n :=
  Cursor.position_advance h

theorem remaining_advance (n : Nat) (b : Buffer) :
    (b.advance n).remaining = b.remaining - n :=
  Cursor.remaining_advance ..

theorem unread_advance (n : Nat) (b : Buffer) : (b.advance n).unread = b.unread.drop n := rfl

theorem atomically_of_ok {α : Type} {read : Action Buffer α} {b after : Buffer} {a : α}
    (h : read b = .ok a after) : atomically read b = .ok a after := by
  rw [atomically, h]

theorem atomically_of_error {α : Type} {read : Action Buffer α} {b after : Buffer}
    {e : StreamError} (h : read b = .error e after) :
    atomically read b = .error e (b.rewound e after) := by
  rw [atomically, h]

theorem atomically_eq_error {α : Type} {read : Action Buffer α} {b after : Buffer}
    {e : StreamError} (h : atomically read b = .error e after) :
    ∃ inner, read b = .error e inner ∧ after = b.rewound e inner := by
  unfold atomically at h
  split at h
  · cases h
  · rename_i hread
    cases h
    exact ⟨_, hread, rfl⟩

theorem data_rewound (b : Buffer) (e : StreamError) (after : Buffer) :
    (b.rewound e after).data = after.data :=
  Cursor.data_seek ..

theorem cursor_rewound {b after : Buffer} (e : StreamError) (h : after.data = b.data) :
    (b.rewound e after).cursor = b.cursor :=
  Cursor.seek_position_of_data h

end Buffer
end OctetStream
