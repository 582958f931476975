import OctetStream.Proofs.Buffer.Rewind

/-! A buffer as its octets and an index into them. Nothing in the data keeps the index inside the
octets, and what is left is a difference. The buffer with a cursor gives the same replies to every
session, so the index never leaves the octets and the difference never falls short. -/

namespace OctetStream.Buffer

open Medium

structure Indexed where
  data : Bytes
  pos : Nat
  order : ByteOrder
  counters : Counters := {}
  journal : Journal := []
  deriving DecidableEq, Repr

namespace Indexed

def remaining (x : Indexed) : Nat :=
  x.data.length - x.pos

/-- Where the next `n` octets end. An end that no count can express is behind the octets as well. -/
def check (n : Nat) (x : Indexed) : Except StreamError Nat :=
  if x.pos + n ≤ x.data.length then .ok (x.pos + n)
  else .error (.outOfBounds n x.remaining x.pos)

def peek (n : Nat) (x : Indexed) : Except StreamError Bytes :=
  (x.check n).map fun stop => x.data.extract x.pos stop

def advance (stop n : Nat) (x : Indexed) : Indexed :=
  { x with pos := stop, counters := x.counters.addRead n }

def log (entry : LogEntry) (x : Indexed) : Indexed :=
  { x with journal := entry :: x.journal }

def failed (e : StreamError) (x : Indexed) : Indexed :=
  { x.log (.bufferReadFailed e) with counters := x.counters.addReadFailure }

def consume (n : Nat) : Action Indexed Bytes := fun x =>
  match x.check n with
  | .ok stop => .ok (x.data.extract x.pos stop) (x.advance stop n)
  | .error e => .error e x

def receive (n : Nat) (x : Indexed) : Receipt × Indexed :=
  match x.check n with
  | .ok stop => (⟨x.data.extract x.pos stop, none⟩, x.advance stop n)
  | .error e => (⟨[], some e⟩, x.failed e)

def readBytes (n : Nat) : Action Indexed Bytes := fun x =>
  match x.check n with
  | .error e => .error e (x.failed e)
  | .ok _ => consume n x

def send (data : Bytes) : Action Indexed Unit := fun x =>
  .ok () { x with data := x.data ++ data, counters := x.counters.addWrite data.length }

def rewound (x : Indexed) (e : StreamError) (after : Indexed) : Indexed :=
  { after.log (.compositeReadFailed x.pos e) with
    pos := x.pos
    counters := x.counters.addReadFailure }

def atomically {α : Type} (read : Action Indexed α) : Action Indexed α := fun x =>
  match read x with
  | .ok a after => .ok a after
  | .error e after => .error e (x.rewound e after)

def reset (x : Indexed) : Indexed where
  data := []
  pos := 0
  order := x.order
  journal := .bufferReset x.data.length :: x.journal

instance : Medium Indexed where
  order := order
  offset := pos
  counters := counters
  payloadLimit _ := none
  supply := remaining
  receive := receive
  send := send
  readBytes := readBytes
  atomically := atomically

def perform : (request : Request) → Indexed → request.Reply × Indexed
  | .stream request, x => request.perform x
  | .consume n, x => Action.settle (consume n) x
  | .peek n, x => (x.peek n, x)
  | .reset, x => ((), x.reset)

theorem readBytes_eq_demand (n : Nat) : readBytes n = demand receive n := by
  funext x
  unfold readBytes demand receive consume
  cases x.check n <;> rfl

end Indexed

/-! ## One request -/

def indexed (b : Buffer) : Indexed where
  data := b.data
  pos := b.position
  order := b.order
  counters := b.counters
  journal := b.journal

theorem indexed_ofBytes (data : Bytes) (order : ByteOrder) : (ofBytes data order).indexed =
    { data, pos := 0, order, journal := [.bufferLoaded data order] } := rfl

theorem indexed_empty (order : ByteOrder) (capacity : Nat) : (empty order capacity).indexed =
    { data := [], pos := 0, order, journal := [.bufferNew order capacity] } := rfl

variable {b : Buffer}

theorem remaining_indexed (b : Buffer) : b.indexed.remaining = b.remaining := by
  show b.data.length - b.position = b.remaining
  rw [length_data, size_eq, Nat.add_sub_cancel_left]

theorem extract_data (n : Nat) (b : Buffer) :
    b.data.extract b.position (b.position + n) = b.unread.take n := by
  have hpassed : b.position = b.cursor.passed.length := List.length_reverse.symm
  have hahead : b.data.drop b.position = b.unread := by
    rw [hpassed]
    exact List.drop_left
  simp only [List.extract, hahead, Nat.add_sub_cancel_left]

theorem check_indexed (n : Nat) (b : Buffer) :
    b.indexed.check n = (b.check n).map fun _ => b.position + n := by
  have hlength : b.indexed.data.length = b.position + b.remaining := b.length_data
  rcases Nat.lt_or_ge b.remaining n with hlt | hle
  · have hbeyond : ¬b.indexed.pos + n ≤ b.indexed.data.length := by
      rw [hlength]
      exact Nat.not_le.mpr (Nat.add_lt_add_left hlt b.position)
    rw [Indexed.check, if_neg hbeyond, remaining_indexed, check_of_lt hlt]
    rfl
  · have hinside : b.indexed.pos + n ≤ b.indexed.data.length := by
      rw [hlength]
      exact Nat.add_le_add_left hle b.position
    rw [Indexed.check, if_pos hinside, check_of_le hle]
    rfl

theorem advance_indexed {n : Nat} (h : n ≤ b.remaining) :
    b.indexed.advance (b.position + n) n = (b.advance n).indexed := by
  unfold Indexed.advance indexed
  rw [data_advance, position_advance h]
  rfl

theorem peek_indexed (n : Nat) (b : Buffer) : b.indexed.peek n = b.peek n := by
  rw [Indexed.peek, check_indexed, peek]
  cases b.check n with
  | ok present => exact congrArg Except.ok (extract_data n b)
  | error e => rfl

theorem consume_indexed (n : Nat) (b : Buffer) :
    (Indexed.consume n).settle b.indexed =
      (((consume n).settle b).1, ((consume n).settle b).2.indexed) := by
  have hcheck := check_indexed n b
  rcases Nat.lt_or_ge b.remaining n with hlt | hle
  · rw [check_of_lt hlt] at hcheck
    have hfailed : Indexed.consume n b.indexed =
        .error (.outOfBounds n b.remaining b.position) b.indexed := by
      rw [Indexed.consume, hcheck]
      rfl
    rw [Action.settle_of_error hfailed, Action.settle_of_error (consume_of_lt hlt)]
  · rw [check_of_le hle] at hcheck
    have hread : Indexed.consume n b.indexed = .ok (b.unread.take n) (b.advance n).indexed := by
      rw [Indexed.consume, hcheck, ← extract_data, ← advance_indexed hle]
      rfl
    rw [Action.settle_of_ok hread, Action.settle_of_ok (consume_of_le hle)]

theorem receive_indexed (n : Nat) (b : Buffer) :
    b.indexed.receive n = ((b.receive n).1, (b.receive n).2.indexed) := by
  have hcheck := check_indexed n b
  rcases Nat.lt_or_ge b.remaining n with hlt | hle
  · rw [check_of_lt hlt] at hcheck
    rw [Indexed.receive, hcheck, receive_of_lt hlt]
    rfl
  · rw [check_of_le hle] at hcheck
    rw [Indexed.receive, hcheck, receive_of_le hle, ← extract_data, ← advance_indexed hle]
    rfl

theorem send_indexed (data : Bytes) (b : Buffer) :
    Indexed.send data b.indexed = .ok () { b with
      cursor := b.cursor.append data
      counters := b.counters.addWrite data.length }.indexed := by
  unfold Indexed.send indexed
  congr 2
  exact (Cursor.data_append data b.cursor).symm

theorem rewound_indexed {after : Buffer} (e : StreamError) (h : after.data = b.data) :
    b.indexed.rewound e after.indexed = (b.rewound e after).indexed := by
  have hposition : (b.rewound e after).position = b.position :=
    congrArg Cursor.position (cursor_rewound e h)
  unfold Indexed.rewound Indexed.log indexed
  rw [data_rewound, hposition]
  rfl

theorem readLockstep_indexed (data : Bytes) :
    ReadLockstep fun (b : Buffer) (x : Indexed) => b.indexed = x ∧ b.data = data := by
  have hreceive (n : Nat) {b : Buffer} {x : Indexed} (h : b.indexed = x ∧ b.data = data) :
      (b.receive n).1 = (x.receive n).1 ∧
        (b.receive n).2.indexed = (x.receive n).2 ∧ (b.receive n).2.data = data := by
    obtain ⟨rfl, hdata⟩ := h
    rw [receive_indexed]
    exact ⟨rfl, rfl, (data_receive n b).trans hdata⟩
  constructor
  · exact fun h => congrArg Indexed.order h.1
  · exact fun h => congrArg Indexed.pos h.1
  · exact fun _ => rfl
  · rintro b _ ⟨rfl, -⟩
    exact (remaining_indexed b).symm
  · exact fun n _ _ h => hreceive n h
  · intro n
    show (Comparison.exact _).Related (readBytes n) (Indexed.readBytes n)
    rw [readBytes_eq_demand, Indexed.readBytes_eq_demand]
    exact Comparison.related_demand fun h => hreceive n h
  · rintro α read read' b _ ⟨rfl, hdata⟩ hresults
    show (Comparison.exact _).Results (Buffer.atomically read b)
      (Indexed.atomically read' b.indexed)
    cases hread : read b with
    | ok a after =>
      obtain ⟨_, hread', hstates⟩ := hresults.of_ok hread
      rw [atomically_of_ok hread, Indexed.atomically, hread']
      exact ⟨rfl, hstates⟩
    | error e after =>
      obtain ⟨_, _, hread', rfl, rfl, hafter⟩ := hresults.of_error id hread
      rw [atomically_of_error hread, Indexed.atomically, hread']
      refine Or.inr ⟨rfl, (rewound_indexed e (hafter.trans hdata.symm)).symm, ?_⟩
      exact (data_rewound b e after).trans hafter

theorem write_indexed (op : WriteOp) (b : Buffer) :
    op.perform.settle b.indexed = ((op.perform.settle b).1, (op.perform.settle b).2.indexed) := by
  cases hpayload : op.payload b.order with
  | ok data =>
    have hindexed : op.perform b.indexed = .ok () _ :=
      (WriteOp.perform_of_ok hpayload).trans (send_indexed data b)
    have hbuffer : op.perform b = .ok () _ := WriteOp.perform_of_ok hpayload
    rw [Action.settle_of_ok hindexed, Action.settle_of_ok hbuffer]
  | error e =>
    have hindexed : op.perform b.indexed = .error e _ := WriteOp.perform_of_error hpayload
    have hbuffer : op.perform b = .error e _ := WriteOp.perform_of_error hpayload
    rw [Action.settle_of_error hindexed, Action.settle_of_error hbuffer]

theorem reset_indexed (b : Buffer) : b.indexed.reset = b.reset.indexed := by
  have hsize : b.indexed.data.length = b.size := b.length_data
  rw [Indexed.reset, hsize]
  rfl

theorem perform_indexed (request : Request) (b : Buffer) :
    Indexed.perform request b.indexed = ((request.perform b).1, (request.perform b).2.indexed) := by
  cases request with
  | stream request =>
    by_cases hwrite : ∃ op, request = .write op
    · obtain ⟨op, rfl⟩ := hwrite
      exact write_indexed op b
    · have hread : ∀ op, request ≠ .write op := fun op h => hwrite ⟨op, h⟩
      have hsame := (readLockstep_indexed b.data).perform hread b b.indexed ⟨rfl, rfl⟩
      exact Prod.ext hsame.1.symm hsame.2.1.symm
  | consume n => exact consume_indexed n b
  | peek n => exact Prod.ext (peek_indexed n b) rfl
  | reset => exact Prod.ext rfl (reset_indexed b)

/-! ## A session -/

theorem session_indexed (requests : List Request) (b : Buffer) :
    session Indexed.perform requests b.indexed =
      ((session Request.perform requests b).1, (session Request.perform requests b).2.indexed) := by
  have hstep (request : Request) (b : Buffer) (x : Indexed) (h : b.indexed = x) :
      (request.perform b).1 = (Indexed.perform request x).1 ∧
        (request.perform b).2.indexed = (Indexed.perform request x).2 := by
    subst h
    rw [perform_indexed]
    exact ⟨rfl, rfl⟩
  obtain ⟨hreplies, hlast⟩ := session_congr hstep requests rfl
  exact Prod.ext hreplies.symm hlast.symm

theorem pos_le_indexed (b : Buffer) : b.indexed.pos ≤ b.indexed.data.length := by
  show b.position ≤ b.data.length
  rw [length_data, size_eq]
  exact Nat.le_add_right ..

theorem exists_indexed {x : Indexed} (h : x.pos ≤ x.data.length) : ∃ b : Buffer, b.indexed = x := by
  obtain ⟨data, pos, order, counters, journal⟩ := x
  refine ⟨⟨(Cursor.start data).advance pos, order, counters, journal⟩, ?_⟩
  have hdata : ((Cursor.start data).advance pos).data = data := Cursor.data_advance ..
  have hpos : ((Cursor.start data).advance pos).position = pos :=
    (Cursor.position_advance h).trans (Nat.zero_add pos)
  show Indexed.mk ((Cursor.start data).advance pos).data ((Cursor.start data).advance pos).position
    order counters journal = _
  rw [hdata, hpos]

/-- An index inside the octets stays there, whatever is asked of the buffer and whatever fails. -/
theorem pos_le_of_session (requests : List Request) {x : Indexed} (h : x.pos ≤ x.data.length) :
    let after := (session Indexed.perform requests x).2
    after.pos ≤ after.data.length ∧ after.pos + after.remaining = after.data.length := by
  intro after
  obtain ⟨b, rfl⟩ := exists_indexed h
  have hafter : after = (session Request.perform requests b).2.indexed :=
    congrArg Prod.snd (session_indexed requests b)
  have hinside : after.pos ≤ after.data.length := hafter ▸ pos_le_indexed _
  exact ⟨hinside, Nat.add_sub_cancel' hinside⟩

end OctetStream.Buffer
