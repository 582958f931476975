import OctetStream.Medium.Read

/-! The fields that can be read, as data: each read operation with its arguments, the type of what
it answers, and how a medium performs it. -/

namespace OctetStream

/-- Where a field takes an order, `none` stands for the order of the stream. -/
inductive ReadOp
  | bytes (n : Nat)
  | into (dest : Bytes)
  | word (t : Primitive) (order? : Option ByteOrder)
  | string (field : LengthField) (order? : Option ByteOrder)
  | cstring (width : Nat)
  | cstringBytes (width : Nat)
  | terminated
  | terminatedBytes
  | array (t : Primitive) (n : Nat) (order? : Option ByteOrder)
  | run (t : Primitive) (n : Nat) (order? : Option ByteOrder)
  | fill (t : Primitive) (dest : List (Word t)) (order? : Option ByteOrder)
  deriving DecidableEq, Repr

namespace ReadOp

abbrev Value : ReadOp → Type
  | bytes _ | into _ | cstringBytes _ | terminatedBytes => Bytes
  | word t _ => Word t
  | string .. | cstring _ | terminated => String
  | array t _ _ | run t _ _ | fill t _ _ => List (Word t)

def perform {σ : Type} [Medium σ] : (op : ReadOp) → Action σ op.Value
  | bytes n => Medium.readBytes n
  | into dest => Medium.slotsOf (Medium.readInto dest)
  | word t order? => Medium.readWord t order?
  | string field order? => Medium.readString field order?
  | cstring width => Medium.readCString width
  | cstringBytes width => Medium.readCStringBytes width
  | terminated => Medium.readTerminated
  | terminatedBytes => Medium.readTerminatedBytes
  | array t n order? => Medium.readArray t n order?
  | run t n order? => Medium.readRun t n order?
  | fill _ dest order? => Medium.slotsOf (Medium.fillRun dest order?)

abbrev Answer : Type :=
  (op : ReadOp) × op.Value

def performAll {σ : Type} [Medium σ] : List ReadOp → Action σ (List Answer)
  | [] => pure []
  | op :: ops => do
    let value ← op.perform
    let answers ← performAll ops
    return ⟨op, value⟩ :: answers

end ReadOp

end OctetStream
