import OctetStream.Counters
import OctetStream.Primitive
import OctetStream.StreamError

/-! What a stream must supply. All typed reads and writes are built on these few operations, so
every medium gives a field the same octets. -/

namespace OctetStream

abbrev Action (σ α : Type) := EStateM StreamError σ α

/-- The outcome of a request for octets: those that came, and what cut them short. A receipt with
no failure holds exactly what was asked for. -/
structure Receipt where
  got : Bytes
  failure : Option StreamError
  deriving DecidableEq, Repr

def demand {σ : Type} (receive : Nat → σ → Receipt × σ) (n : Nat) : Action σ Bytes := fun s =>
  match receive n s with
  | (⟨got, none⟩, s) => .ok got s
  | (⟨_, some e⟩, s) => .error e s

/-- As `demand`, into storage that is set aside first: what no allocation can hold is refused
without a request. -/
def demandAllocated {σ : Type} (receive : Nat → σ → Receipt × σ) (n : Nat) : Action σ Bytes :=
  if Limits.maxAllocation < n then throw .capacityOverflow else demand receive n

class Medium (σ : Type) where
  order : σ → ByteOrder
  offset : σ → Nat
  counters : σ → Counters
  payloadLimit : σ → Option Nat
  /-- No sequence of reads can obtain more octets than this. -/
  supply : σ → Nat
  receive : Nat → σ → Receipt × σ
  send : Bytes → Action σ Unit
  readBytes : Nat → Action σ Bytes
  atomically {α : Type} : Action σ α → Action σ α

namespace Medium

variable {σ : Type} [Medium σ]

def fetch (n : Nat) : Action σ Bytes :=
  demand receive n

def currentOffset : Action σ Nat := fun s =>
  .ok (offset s) s

def currentLimit : Action σ (Option Nat) := fun s =>
  .ok (payloadLimit s) s

def currentSupply : Action σ Nat := fun s =>
  .ok (supply s) s

def orderOr (order? : Option ByteOrder) : Action σ ByteOrder := fun s =>
  .ok (order?.getD (order s)) s

def permit (len : Nat) : Action σ Unit := fun s =>
  match payloadLimit s with
  | some max => if len ≤ max then .ok () s else .error (.lengthLimit len max) s
  | none => .ok () s

end Medium

def runLength (t : Primitive) (count : Nat) : Except StreamError Nat :=
  if count * t.width ≤ Limits.maxCount then .ok (count * t.width)
  else .error (.lengthLimit count (Limits.maxCount / t.width))

theorem runLength_eq_ok {t : Primitive} {n total : Nat} (h : runLength t n = .ok total) :
    n * t.width = total := by
  unfold runLength at h
  split at h
  · exact Except.ok.inj h
  · cases h

def textAt (start : Nat) (b : Bytes) : Except StreamError String :=
  match ofUtf8? b with
  | some s => .ok s
  | none => .error (.invalidUtf8 start)

end OctetStream
