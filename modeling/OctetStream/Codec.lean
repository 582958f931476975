import OctetStream.Buffer
import OctetStream.Channel
import OctetStream.Decoder
import OctetStream.WriteOp

/-! Values with an encoding of their own. A codec says which fields a value is written as and which
program of reads gives it back; what can be done with a value apart from a stream follows. -/

namespace OctetStream

class Codec (α : Type) where
  encoder : α → List WriteOp
  decoder : Decoder α

structure Logged (α : Type) where
  result : Except StreamError α
  log : List LogEntry

namespace Logged

def ofRun {σ α β : Type} (journal : σ → Journal) (value : α → σ → β) :
    EStateM.Result StreamError σ α → Logged β
  | .ok a s => ⟨.ok (value a s), (journal s).reverse⟩
  | .error e s => ⟨.error e, (journal s).reverse⟩

end Logged

namespace Codec

variable {α : Type} [Codec α]

def encodeStream {σ : Type} [Medium σ] (v : α) : Action σ Unit :=
  WriteOp.performAll (encoder v)

def decodeStream {σ : Type} [Medium σ] : Action σ α :=
  (decoder : Decoder α).perform

def encode (v : α) : Logged Bytes :=
  .ofRun Buffer.journal (fun _ b => b.data) (encodeStream v Buffer.empty)

def encodedLen (v : α) : Logged Nat :=
  .ofRun Channel.journal (fun _ c => c.counters.bytesWritten) (encodeStream v (Channel.writer {}))

/-- Encodes into the front of `buf`. Answers the number of octets used and what `buf` holds
afterwards; one that is too small keeps its contents. -/
def encodeInto (v : α) (buf : Bytes) : Logged Nat × Bytes :=
  let ⟨result, log⟩ := encode v
  match result with
  | .error e => (⟨.error e, log⟩, buf)
  | .ok b =>
    if buf.length < b.length then (⟨.error (.bufferTooSmall b.length buf.length), log⟩, buf)
    else (⟨.ok b.length, log⟩, overwrite b buf)

def decodeAll : Action Buffer α := do
  let v ← decodeStream
  let b ← get
  if b.isExhausted then return v
  set (b.log (.leftAfterDecode b.remaining))
  throw (.trailingData b.remaining)

def decode (data : Bytes) : Logged α :=
  .ofRun Buffer.journal (fun v _ => v) (decodeAll (Buffer.ofBytes data))

def decodeInPlace (old : α) (data : Bytes) : Logged Unit × α :=
  let ⟨result, log⟩ := decode (α := α) data
  match result with
  | .ok v => (⟨.ok (), log⟩, v)
  | .error e => (⟨.error e, log⟩, old)

end Codec
end OctetStream
