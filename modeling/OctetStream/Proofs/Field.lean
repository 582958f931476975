import OctetStream.ReadOp
import OctetStream.WriteOp

/-! Fields: a value, how it is written and how it is read back. A field that cannot be read back
as it was written cannot be built, nor can one that no allocation can hold. -/

namespace OctetStream

namespace Word

variable {t : Primitive}

theorem putAll_cons (order : ByteOrder) (v : Word t) (vs : List (Word t)) :
    putAll order (v :: vs) = v.put order ++ putAll order vs := rfl

theorem putAll_append (order : ByteOrder) (vs ws : List (Word t)) :
    putAll order (vs ++ ws) = putAll order vs ++ putAll order ws :=
  List.flatMap_append

theorem length_putAll (order : ByteOrder) (vs : List (Word t)) :
    (putAll order vs).length = vs.length * t.width := by
  induction vs with
  | nil => exact (Nat.zero_mul _).symm
  | cons v vs ih =>
    rw [putAll_cons, List.length_append, length_put, ih, List.length_cons, Nat.succ_mul,
      Nat.add_comm]

theorem getRun_putAll (order : ByteOrder) (vs : List (Word t)) :
    getRun t order vs.length [] (putAll order vs) = vs := by
  induction vs with
  | nil => rfl
  | cons v vs ih =>
    have htake : (putAll order (v :: vs)).take t.width = v.put order := by
      rw [putAll_cons, ← length_put order v, List.take_left]
    have hdrop : (putAll order (v :: vs)).drop t.width = putAll order vs := by
      rw [putAll_cons, ← length_put order v, List.drop_left]
    rw [List.length_cons, getRun, htake, hdrop, get_put, getRun_eq, ih]
    rfl

theorem getAll_putAll (order : ByteOrder) (vs : List (Word t)) :
    getAll t order (putAll order vs) = vs := by
  rw [getAll, length_putAll, Nat.mul_div_cancel _ t.width_pos, getRun_putAll]

theorem getArray_putAll (order : ByteOrder) (vs : List (Word t)) :
    getArray t order vs.length (putAll order vs) = vs := by
  rw [getArray_eq_getAll order (length_putAll order vs), getAll_putAll]

theorem fillAll_putAll (order : ByteOrder) {slots vs : List (Word t)}
    (same : slots.length = vs.length) : fillAll order slots (putAll order vs) = vs := by
  have hlength : (putAll order vs).length = slots.length * t.width := by
    rw [length_putAll, same]
  rw [fillAll_eq_getAll order hlength, getAll_putAll]

theorem putAll_getRun (order : ByteOrder) (n : Nat) {b : Bytes} (h : b.length = n * t.width) :
    putAll order (getRun t order n [] b) = b := by
  induction n generalizing b with
  | zero =>
    rw [Nat.zero_mul] at h
    exact (List.eq_nil_of_length_eq_zero h).symm
  | succ n ih =>
    rw [Nat.succ_mul] at h
    have hfirst : (b.take t.width).length = t.width := List.length_take_of_le (by omega)
    have hothers : (b.drop t.width).length = n * t.width := by
      rw [List.length_drop]
      omega
    rw [getRun, getRun_eq]
    show putAll order (get t order (b.take t.width) :: getRun t order n [] (b.drop t.width)) = b
    rw [putAll_cons, put_get order hfirst, ih hothers, List.take_append_drop]

theorem putAll_getAll (order : ByteOrder) {n : Nat} {b : Bytes} (h : b.length = n * t.width) :
    putAll order (getAll t order b) = b ∧ (getAll t order b).length = n := by
  have hcount : b.length / t.width = n := by rw [h, Nat.mul_div_cancel _ t.width_pos]
  rw [getAll, hcount, length_getRun]
  exact ⟨putAll_getRun order n h, Nat.zero_add n⟩

end Word

theorem Bytes.untilNul_padTo {width : Nat} {b : Bytes} (hclean : nul ∉ b)
    (hfits : b.length ≤ width) : (b.padTo width).untilNul = b := by
  rw [untilNul_padTo_eq_take, List.idxOf_eq_length hclean, Nat.min_self, Nat.min_eq_right hfits,
    List.take_length]

inductive Field
  | word (t : Primitive) (order? : Option ByteOrder) (value : Word t)
  | bytes (data : Bytes) (stored : data.length ≤ Limits.maxAllocation)
  -- Read into slots of the caller.
  | slots (data dest : Bytes) (same : dest.length = data.length)
  | string (field : LengthField) (order? : Option ByteOrder) (text : String)
    (short : (utf8 text).length ≤ field.max) (stored : (utf8 text).length ≤ Limits.maxAllocation)
  | cstring (text : String) (width : Nat) (clean : Bytes.nul ∉ utf8 text)
    (short : (utf8 text).length ≤ width) (stored : width ≤ Limits.maxAllocation)
  | cstringBytes (content : Bytes) (width : Nat) (clean : Bytes.nul ∉ content)
    (short : content.length ≤ width) (stored : width ≤ Limits.maxAllocation)
  | terminated (text : String) (clean : Bytes.nul ∉ utf8 text)
  | terminatedBytes (content : Bytes) (clean : Bytes.nul ∉ content)
  | run (t : Primitive) (order? : Option ByteOrder) (values : List (Word t))
    (stored : values.length * t.width ≤ Limits.maxAllocation)
  -- A run whose length the reader knows.
  | array (t : Primitive) (order? : Option ByteOrder) (values : List (Word t))
    (stored : values.length * t.width ≤ Limits.maxAllocation)
  -- A run that is read into slots of the caller.
  | fill (t : Primitive) (order? : Option ByteOrder) (values dest : List (Word t))
    (same : dest.length = values.length) (stored : values.length * t.width ≤ Limits.maxAllocation)

namespace Field

def write : Field → WriteOp
  | word t order? value => .word t order? value
  | bytes data _ => .bytes data
  | slots data _ _ => .bytes data
  | string field order? text _ _ => .string field order? text
  | cstring text width _ _ _ => .cstring (utf8 text) width
  | cstringBytes content width _ _ _ => .cstring content width
  | terminated text _ => .terminated (utf8 text)
  | terminatedBytes content _ => .terminated content
  | run t order? values _ | array t order? values _ | fill t order? values _ _ _ =>
    .run t order? values

def read : Field → ReadOp
  | word t order? _ => .word t order?
  | bytes data _ => .bytes data.length
  | slots _ dest _ => .into dest
  | string field order? _ _ _ => .string field order?
  | cstring _ width _ _ _ => .cstring width
  | cstringBytes _ width _ _ _ => .cstringBytes width
  | terminated _ _ => .terminated
  | terminatedBytes _ _ => .terminatedBytes
  | run t order? values _ => .run t values.length order?
  | array t order? values _ => .array t values.length order?
  | fill t order? _ dest _ _ => .fill t dest order?

def value : (f : Field) → f.read.Value
  | word _ _ value => value
  | bytes data _ | slots data _ _ => data
  | string _ _ text _ _ | cstring text _ _ _ _ | terminated text _ => text
  | cstringBytes content _ _ _ _ | terminatedBytes content _ => content
  | run _ _ values _ | array _ _ values _ | fill _ _ values _ _ _ => values

def encoding (order : ByteOrder) : Field → Bytes
  | word _ order? value => value.put (order?.getD order)
  | bytes data _ | slots data _ _ => data
  | string field order? text _ _ =>
    (order?.getD order).encode field.width (utf8 text).length ++ utf8 text
  | cstring text width _ _ _ => (utf8 text).padTo width
  | cstringBytes content width _ _ _ => content.padTo width
  | terminated text _ => utf8 text ++ [Bytes.nul]
  | terminatedBytes content _ => content ++ [Bytes.nul]
  | run _ order? values _ | array _ order? values _ | fill _ order? values _ _ _ =>
    Word.putAll (order?.getD order) values

def transfers : Field → Nat
  | string .. => 2
  | terminated text _ => (utf8 text).length + 1
  | terminatedBytes content _ => content.length + 1
  | _ => 1

def payloadLength : Field → Nat
  | string _ _ text _ _ | terminated text _ => (utf8 text).length
  | terminatedBytes content _ => content.length
  | run t _ values _ => values.length * t.width
  | _ => 0

theorem runLength_of_stored {t : Primitive} {n : Nat} (h : n * t.width ≤ Limits.maxAllocation) :
    runLength t n = .ok (n * t.width) :=
  if_pos (Nat.le_trans h (by decide))

theorem payload_write (order : ByteOrder) (f : Field) :
    f.write.payload order = .ok (f.encoding order) := by
  cases f with
  | word t order? value => rfl
  | bytes data stored => rfl
  | slots data dest same => rfl
  | string field order? text short stored => exact if_pos short
  | cstring text width clean short stored => exact if_neg (Nat.not_lt.mpr stored)
  | cstringBytes content width clean short stored => exact if_neg (Nat.not_lt.mpr stored)
  | terminated text clean => rfl
  | terminatedBytes content clean => rfl
  | run t order? values stored | array t order? values stored
  | fill t order? values dest same stored =>
    rw [write, WriteOp.payload_run, runLength_of_stored stored]
    rfl

def answer (f : Field) : ReadOp.Answer :=
  ⟨f.read, f.value⟩

def encodeAll (order : ByteOrder) (fs : List Field) : Bytes :=
  fs.flatMap (encoding order)

def transfersAll : List Field → Nat
  | [] => 0
  | f :: fs => f.transfers + transfersAll fs

theorem encodeAll_cons (order : ByteOrder) (f : Field) (fs : List Field) :
    encodeAll order (f :: fs) = f.encoding order ++ encodeAll order fs := rfl

theorem encodeAll_append (order : ByteOrder) (fs gs : List Field) :
    encodeAll order (fs ++ gs) = encodeAll order fs ++ encodeAll order gs :=
  List.flatMap_append

theorem encodeAll_concat (order : ByteOrder) (fs : List Field) (f : Field) :
    encodeAll order (fs ++ [f]) = encodeAll order fs ++ f.encoding order := by
  rw [encodeAll_append, encodeAll_cons]
  exact congrArg _ (List.append_nil _)

theorem transfersAll_concat (fs : List Field) (f : Field) :
    transfersAll (fs ++ [f]) = transfersAll fs + f.transfers := by
  induction fs with
  | nil => exact Nat.add_comm ..
  | cons g fs ih => rw [List.cons_append, transfersAll, transfersAll, ih, Nat.add_assoc]

end Field
end OctetStream
