import OctetStream.Medium

/-! The fields that can be written. Each has one payload, which depends on nothing but the field
and the byte order of the stream, and goes out in a single transfer. -/

namespace OctetStream

/-- Where a field takes an order, `none` stands for the order of the stream. -/
inductive WriteOp
  | bytes (data : Bytes)
  | hex (text : String)
  | word (t : Primitive) (order? : Option ByteOrder) (value : Word t)
  | run (t : Primitive) (order? : Option ByteOrder) (values : List (Word t))
  | string (field : LengthField) (order? : Option ByteOrder) (text : String)
  | cstring (content : Bytes) (width : Nat)
  | terminated (content : Bytes)
  deriving DecidableEq, Repr

namespace WriteOp

def payload (order : ByteOrder) : WriteOp → Except StreamError Bytes
  | bytes data => .ok data
  | hex text => (Hex.decode (utf8 text)).mapError .ofHexError
  | word _ order? value => .ok (value.put (order?.getD order))
  | run t order? values =>
    (runLength t values.length).map fun total =>
      Word.storeAll (order?.getD order) values (List.replicate total Bytes.nul)
  | string field order? text =>
    let body := utf8 text
    if body.length ≤ field.max then
      .ok ((order?.getD order).encode field.width body.length ++ body)
    else .error (.lengthOverflow body.length field.max)
  | cstring content width =>
    if Limits.maxAllocation < width then .error .capacityOverflow
    else .ok (content.padTo width)
  | terminated content => .ok (content ++ [Bytes.nul])

theorem payload_run {t : Primitive} {order? : Option ByteOrder} {values : List (Word t)}
    (order : ByteOrder) : payload order (.run t order? values) =
      (runLength t values.length).map fun _ => Word.putAll (order?.getD order) values := by
  rw [payload]
  cases hlength : runLength t values.length with
  | error e => rfl
  | ok total =>
    -- The storage has the length of the run, so every octet of it is written.
    have hstorage : (List.replicate total Bytes.nul).length = values.length * t.width := by
      rw [List.length_replicate, runLength_eq_ok hlength]
    exact congrArg Except.ok (Word.storeAll_eq_putAll _ hstorage)

inductive NoPayload : WriteOp → StreamError → Prop
  | hex {text : String} {e : Hex.HexError} (bad : Hex.decode (utf8 text) = .error e) :
    NoPayload (.hex text) (.ofHexError e)
  | run {t : Primitive} {order? : Option ByteOrder} {values : List (Word t)} {e : StreamError}
    (long : runLength t values.length = .error e) : NoPayload (.run t order? values) e
  | string {field : LengthField} {order? : Option ByteOrder} {text : String}
    (long : field.max < (utf8 text).length) :
    NoPayload (.string field order? text) (.lengthOverflow (utf8 text).length field.max)
  | cstring {content : Bytes} {width : Nat} (wide : Limits.maxAllocation < width) :
    NoPayload (.cstring content width) .capacityOverflow

theorem noPayload_of_payload {op : WriteOp} {order : ByteOrder} {e : StreamError}
    (h : op.payload order = .error e) : op.NoPayload e := by
  cases op with
  | bytes | word | terminated => cases h
  | hex text =>
    rw [payload] at h
    cases hdecode : Hex.decode (utf8 text) with
    | ok data =>
      rw [hdecode] at h
      cases h
    | error defect =>
      rw [hdecode] at h
      cases h
      exact .hex hdecode
  | run t order? values =>
    rw [payload_run] at h
    cases hlength : runLength t values.length with
    | ok total =>
      rw [hlength] at h
      cases h
    | error f =>
      rw [hlength] at h
      cases h
      exact .run hlength
  | string field order? text =>
    rw [payload] at h
    split at h
    · cases h
    · rename_i hlong
      cases h
      exact .string (Nat.lt_of_not_le hlong)
  | cstring content width =>
    rw [payload] at h
    split at h
    · rename_i hwide
      cases h
      exact .cstring hwide
    · cases h

def perform {σ : Type} [Medium σ] (op : WriteOp) : Action σ Unit := fun s =>
  match op.payload (Medium.order s) with
  | .ok data => Medium.send data s
  | .error e => .error e s

theorem perform_of_ok {σ : Type} [Medium σ] {op : WriteOp} {s : σ} {data : Bytes}
    (h : op.payload (Medium.order s) = .ok data) : op.perform s = Medium.send data s := by
  rw [perform, h]

theorem perform_of_error {σ : Type} [Medium σ] {op : WriteOp} {s : σ} {e : StreamError}
    (h : op.payload (Medium.order s) = .error e) : op.perform s = .error e s := by
  rw [perform, h]

theorem perform_eq_error {σ : Type} [Medium σ] {op : WriteOp} {s t : σ} {e : StreamError}
    (h : op.perform s = .error e t) :
    (op.payload (Medium.order s) = .error e ∧ t = s) ∨ ∃ data, Medium.send data s = .error e t := by
  cases hpayload : op.payload (Medium.order s) with
  | error f =>
    rw [perform_of_error hpayload] at h
    cases h
    exact Or.inl ⟨rfl, rfl⟩
  | ok data =>
    rw [perform_of_ok hpayload] at h
    exact Or.inr ⟨data, h⟩

def performAll {σ : Type} [Medium σ] : List WriteOp → Action σ Unit
  | [] => pure ()
  | op :: ops => do
    op.perform
    performAll ops

theorem performAll_append {σ : Type} [Medium σ] (xs ys : List WriteOp) :
    (performAll (xs ++ ys) : Action σ Unit) = performAll xs >>= fun _ => performAll ys := by
  induction xs with
  | nil => rfl
  | cons op xs ih =>
    funext s
    show EStateM.bind _ _ s = EStateM.bind (EStateM.bind _ _) _ s
    simp only [EStateM.bind]
    cases op.perform s with
    | ok v s => exact congrFun ih s
    | error e s => rfl

end WriteOp
end OctetStream
