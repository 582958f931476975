import OctetStream.Codec
import OctetStream.Proofs.Buffer.Framing
import OctetStream.Proofs.Channel.Framing

/-! Series of writes. What a series puts and the error that ends it are settled by its fields and
the byte order alone, so every medium that takes octets takes the same ones, and the octets of an
encoding can be counted without keeping them. -/

namespace OctetStream

namespace WriteOp

def payloads (order : ByteOrder) : List WriteOp → List Bytes
  | [] => []
  | op :: ops =>
    match op.payload order with
    | .ok data => data :: payloads order ops
    | .error _ => []

def firstError (order : ByteOrder) : List WriteOp → Option StreamError
  | [] => none
  | op :: ops =>
    match op.payload order with
    | .ok _ => firstError order ops
    | .error e => some e

def encodeAll (order : ByteOrder) (ops : List WriteOp) : Except StreamError Bytes :=
  match firstError order ops with
  | none => .ok (payloads order ops).flatten
  | some e => .error e

theorem map_encodeAll {β : Type} (f : Bytes → β) (order : ByteOrder) (ops : List WriteOp) :
    ((encodeAll order ops).map fun _ => f (payloads order ops).flatten) =
      (encodeAll order ops).map f := by
  unfold encodeAll
  cases firstError order ops <;> rfl

end WriteOp

namespace Writable

open WriteOp Medium

variable {σ : Type} [Medium σ] [Writable σ] {s : σ}

theorem put_payloads (ops : List WriteOp) (hs : Ready s) :
    ∃ t, Put written Ready (payloads (order s) ops).length (payloads (order s) ops).flatten s t ∧
      performAll ops s =
        match firstError (order s) ops with
        | none => .ok () t
        | some e => .error e t := by
  induction ops generalizing s with
  | nil => exact ⟨s, .refl hs, rfl⟩
  | cons op ops ih =>
    cases hpayload : op.payload (order s) with
    | error e =>
      simp only [payloads, firstError, hpayload]
      exact ⟨s, .refl hs, Action.bind_of_error (perform_of_error hpayload)⟩
    | ok data =>
      obtain ⟨t, hsend, hst⟩ := send_of_ready hs data
      have hfirst : op.perform s = .ok () t := (perform_of_ok hpayload).trans hsend
      obtain ⟨u, htu, hothers⟩ := ih hst.ready
      rw [hst.order_eq] at htu hothers
      simp only [payloads, firstError, hpayload, List.length_cons, List.flatten_cons]
      refine ⟨u, ?_, (Action.bind_of_ok hfirst).trans hothers⟩
      rw [Nat.add_comm]
      exact hst.trans htu

theorem result_ofRun {β : Type} (journal : σ → Journal) (value : σ → β) (ops : List WriteOp)
    (hs : Ready s) :
    ∃ t, Put written Ready (payloads (order s) ops).length (payloads (order s) ops).flatten s t ∧
      (Logged.ofRun journal (fun _ => value) (performAll ops s)).result =
        (encodeAll (order s) ops).map fun _ => value t := by
  obtain ⟨t, hput, hrun⟩ := put_payloads ops hs
  refine ⟨t, hput, ?_⟩
  rw [hrun]
  unfold encodeAll
  cases firstError (order s) ops <;> rfl

end Writable

namespace Codec

open WriteOp

variable {α : Type} [Codec α]

theorem result_encode (v : α) : (encode v).result = WriteOp.encodeAll .default (encoder v) := by
  obtain ⟨after, hput, hresult⟩ :=
    Writable.result_ofRun Buffer.journal Buffer.data (encoder v) (s := Buffer.empty) trivial
  have hdata : after.data = (payloads .default (encoder v)).flatten := hput.written_eq
  calc (encode v).result
      = (WriteOp.encodeAll .default (encoder v)).map fun _ => after.data := hresult
    _ = (WriteOp.encodeAll .default (encoder v)).map id := by
      rw [hdata]
      exact map_encodeAll id .default (encoder v)
    _ = WriteOp.encodeAll .default (encoder v) := by
      cases WriteOp.encodeAll .default (encoder v) <;> rfl

theorem result_encodedLen (v : α) :
    (encodedLen v).result = (encode v).result.map List.length := by
  have hsteady : (Channel.writer {}).SinkSteady := ⟨{}, rfl, nofun⟩
  obtain ⟨after, hput, hresult⟩ := Writable.result_ofRun Channel.journal
    (fun c => c.counters.bytesWritten) (encoder v) (s := Channel.writer {}) hsteady
  have hcount : after.counters.bytesWritten = (payloads .default (encoder v)).flatten.length :=
    (congrArg Counters.bytesWritten hput.counters_eq).trans (Nat.zero_add _)
  calc (encodedLen v).result
      = (WriteOp.encodeAll .default (encoder v)).map fun _ => after.counters.bytesWritten := hresult
    _ = (WriteOp.encodeAll .default (encoder v)).map List.length := by
      rw [hcount]
      exact map_encodeAll List.length .default (encoder v)
    _ = (encode v).result.map List.length := by rw [result_encode]

theorem encodedLen_eq_ok_iff (v : α) (n : Nat) :
    (encodedLen v).result = .ok n ↔ ∃ b, (encode v).result = .ok b ∧ b.length = n := by
  rw [result_encodedLen]
  constructor
  · intro h
    cases hencode : (encode v).result with
    | ok b =>
      rw [hencode] at h
      exact ⟨b, rfl, Except.ok.inj h⟩
    | error e =>
      rw [hencode] at h
      cases h
  · rintro ⟨b, hencode, rfl⟩
    rw [hencode]
    rfl

theorem encodedLen_eq_error_iff (v : α) (e : StreamError) :
    (encodedLen v).result = .error e ↔ (encode v).result = .error e := by
  rw [result_encodedLen]
  constructor
  · intro h
    cases hencode : (encode v).result with
    | ok b =>
      rw [hencode] at h
      cases h
    | error f =>
      rw [hencode] at h
      exact congrArg Except.error (Except.error.inj h)
  · intro hencode
    rw [hencode]
    rfl

section

variable {v : α} {b buf : Bytes}

theorem encodeInto_of_error {e : StreamError} (h : (encode v).result = .error e) :
    (encodeInto v buf).1.result = .error e ∧ (encodeInto v buf).2 = buf := by
  unfold encodeInto
  rcases hrun : encode v with ⟨result, log⟩
  rw [hrun] at h
  cases h
  exact ⟨rfl, rfl⟩

theorem encodeInto_of_le (h : (encode v).result = .ok b) (hfits : b.length ≤ buf.length) :
    (encodeInto v buf).1.result = .ok b.length ∧ (encodeInto v buf).2 = overwrite b buf := by
  unfold encodeInto
  rcases hrun : encode v with ⟨result, log⟩
  rw [hrun] at h
  cases h
  simp only [if_neg (Nat.not_lt.mpr hfits), and_self]

theorem encodeInto_of_lt (h : (encode v).result = .ok b) (hsmall : buf.length < b.length) :
    (encodeInto v buf).1.result = .error (.bufferTooSmall b.length buf.length) ∧
      (encodeInto v buf).2 = buf := by
  unfold encodeInto
  rcases hrun : encode v with ⟨result, log⟩
  rw [hrun] at h
  cases h
  simp only [if_pos hsmall, and_self]

theorem encodeInto_error {e : StreamError} (h : (encodeInto v buf).1.result = .error e) :
    (encodeInto v buf).2 = buf := by
  cases hencode : (encode v).result with
  | error f => exact (encodeInto_of_error hencode).2
  | ok b =>
    rcases Nat.lt_or_ge buf.length b.length with hsmall | hfits
    · exact (encodeInto_of_lt hencode hsmall).2
    · rw [(encodeInto_of_le hencode hfits).1] at h
      cases h

end

/-- The octets of an encoding, their number and what is laid over the front of a buffer agree, and
so do the errors; a buffer into which nothing was encoded keeps its contents. -/
theorem encoders_agree (v : α) (buf : Bytes) :
    (∀ n, (encodedLen v).result = .ok n ↔ ∃ b, (encode v).result = .ok b ∧ b.length = n) ∧
    (∀ e, (encodedLen v).result = .error e ↔ (encode v).result = .error e) ∧
    (∀ b, (encode v).result = .ok b →
      (b.length ≤ buf.length → (encodeInto v buf).1.result = .ok b.length ∧
        (encodeInto v buf).2 = b ++ buf.drop b.length) ∧
      (buf.length < b.length →
        (encodeInto v buf).1.result = .error (.bufferTooSmall b.length buf.length))) ∧
    (∀ e, (encode v).result = .error e → (encodeInto v buf).1.result = .error e) ∧
    ∀ e, (encodeInto v buf).1.result = .error e → (encodeInto v buf).2 = buf := by
  refine ⟨encodedLen_eq_ok_iff v, encodedLen_eq_error_iff v, fun b hencode => ⟨?_, ?_⟩, ?_, ?_⟩
  · exact fun hfits => encodeInto_of_le hencode hfits
  · exact fun hsmall => (encodeInto_of_lt hencode hsmall).1
  · exact fun e hencode => (encodeInto_of_error hencode).1
  · exact fun e hfailed => encodeInto_error hfailed

end Codec
end OctetStream
