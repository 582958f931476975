import OctetStream.ByteOrder

/-! The ten fixed-width primitives. A value is its bit pattern, a `Word`: signed integers by their
two's complement, floating-point numbers by their IEEE 754 encoding, so that every pattern goes
through unchanged, signalling NaNs included. Then runs of values, the length that stands before a
text, and the bounds of a 64-bit address space. -/

namespace OctetStream

namespace Limits

def maxCount : Nat := 18446744073709551615

/-- The most octets that one allocation can have. -/
def maxAllocation : Nat := 9223372036854775807

def defaultPayload : Nat := 32 * 1024 * 1024

end Limits

inductive Primitive
  | u8 | u16 | u32 | u64 | i8 | i16 | i32 | i64 | f32 | f64
  deriving DecidableEq, Repr

namespace Primitive

def all : List Primitive :=
  [u8, u16, u32, u64, i8, i16, i32, i64, f32, f64]

def name : Primitive → String
  | u8 => "u8" | u16 => "u16" | u32 => "u32" | u64 => "u64"
  | i8 => "i8" | i16 => "i16" | i32 => "i32" | i64 => "i64"
  | f32 => "f32" | f64 => "f64"

def ofName? (name : String) : Option Primitive :=
  all.find? (·.name == name)

def width : Primitive → Nat
  | u8 | i8 => 1
  | u16 | i16 => 2
  | u32 | i32 | f32 => 4
  | u64 | i64 | f64 => 8

def isSigned : Primitive → Bool
  | i8 | i16 | i32 | i64 => true
  | _ => false

theorem width_pos (t : Primitive) : 0 < t.width := by
  cases t <;> decide

end Primitive

abbrev Word (t : Primitive) := BitVec (8 * t.width)

namespace Word

variable {t : Primitive}

/-- The integer that a pattern stands for; for floating-point types that of its encoding. -/
def toInteger (v : Word t) : Int :=
  if t.isSigned then v.toInt else v.toNat

def ofInteger (t : Primitive) (i : Int) : Word t :=
  BitVec.ofInt _ i

def put (order : ByteOrder) (v : Word t) : Bytes :=
  order.encode t.width v.toNat

def get (t : Primitive) (order : ByteOrder) (b : Bytes) : Word t :=
  BitVec.ofNat _ (order.decode b)

theorem length_put (order : ByteOrder) (v : Word t) : (v.put order).length = t.width :=
  ByteOrder.length_encode ..

theorem get_put (order : ByteOrder) (v : Word t) : get t order (v.put order) = v := by
  rw [get, put, ByteOrder.decode_encode, BitVec.ofNat_toNat, BitVec.setWidth_eq, BitVec.ofNat_toNat,
    BitVec.setWidth_eq]

theorem put_get (order : ByteOrder) {b : Bytes} (h : b.length = t.width) :
    (get t order b).put order = b := by
  have hfit : (get t order b).toNat = order.decode b := by
    rw [get, ByteOrder.decode, ← h, ← ByteOrder.length_arrange order b, toNat_ofNat_ofLittleEndian]
  rw [put, hfit, ← h, ByteOrder.encode_decode]

/-! ### Runs

Values back to back. The loops over a run go through its octets each in its own way: by the place of
a value, by pieces of the width of a value, or by slots and pieces together. -/

def putAll (order : ByteOrder) (vs : List (Word t)) : Bytes :=
  vs.flatMap (put order)

/-- Takes `n` values off the front of `b`; `acc` holds those before them, the latest first. -/
def getRun (t : Primitive) (order : ByteOrder) : Nat → List (Word t) → Bytes → List (Word t)
  | 0, acc, _ => acc.reverse
  | n + 1, acc, b => getRun t order n (get t order (b.take t.width) :: acc) (b.drop t.width)

def getAll (t : Primitive) (order : ByteOrder) (b : Bytes) : List (Word t) :=
  getRun t order (b.length / t.width) [] b

def getArray (t : Primitive) (order : ByteOrder) (n : Nat) (b : Bytes) : List (Word t) :=
  (List.range n).map fun i => get t order (b.extract (i * t.width) ((i + 1) * t.width))

def fillAll (order : ByteOrder) : List (Word t) → Bytes → List (Word t)
  | [], _ => []
  | slot :: slots, b =>
    if b.holds t.width then
      get t order (b.take t.width) :: fillAll order slots (b.drop t.width)
    else slot :: slots

def storeAll (order : ByteOrder) : List (Word t) → Bytes → Bytes
  | [], out => out
  | v :: vs, out =>
    if out.holds t.width then v.put order ++ storeAll order vs (out.drop t.width) else out

theorem getRun_eq (t : Primitive) (order : ByteOrder) (n : Nat) (acc : List (Word t)) (b : Bytes) :
    getRun t order n acc b = acc.reverse ++ getRun t order n [] b := by
  induction n generalizing acc b with
  | zero => simp [getRun]
  | succ n ih =>
    rw [getRun, ih, getRun, ih [_]]
    simp

theorem getRun_succ (t : Primitive) (order : ByteOrder) (n : Nat) (b : Bytes) :
    getRun t order (n + 1) [] b =
      get t order (b.take t.width) :: getRun t order n [] (b.drop t.width) := by
  rw [getRun, getRun_eq, List.reverse_singleton, List.singleton_append]

theorem length_getRun (t : Primitive) (order : ByteOrder) (n : Nat) (acc : List (Word t))
    (b : Bytes) : (getRun t order n acc b).length = acc.length + n := by
  induction n generalizing acc b with
  | zero => simp [getRun]
  | succ n ih =>
    rw [getRun, ih, List.length_cons]
    omega

theorem getAll_eq_getRun (t : Primitive) (order : ByteOrder) {n : Nat} {b : Bytes}
    (h : b.length = n * t.width) : getAll t order b = getRun t order n [] b := by
  rw [getAll, h, Nat.mul_div_cancel n t.width_pos]

theorem getArray_eq_getRun (t : Primitive) (order : ByteOrder) (n : Nat) (b : Bytes) :
    getArray t order n b = getRun t order n [] b := by
  induction n generalizing b with
  | zero => rfl
  | succ n ih =>
    -- Behind the first value the places are those in the octets behind it.
    have hplace (i : Nat) : b.extract ((i + 1) * t.width) ((i + 1 + 1) * t.width) =
        (b.drop t.width).extract (i * t.width) ((i + 1) * t.width) := by
      simp only [List.extract, List.drop_drop, Nat.succ_mul, Nat.add_sub_cancel_left]
      rw [Nat.add_comm t.width]
    have hfirst : b.extract (0 * t.width) ((0 + 1) * t.width) = b.take t.width := by
      simp only [List.extract, Nat.zero_mul, Nat.zero_add, Nat.one_mul, Nat.sub_zero,
        List.drop_zero]
    rw [getRun_succ, ← ih, getArray, List.range_succ_eq_map, List.map_cons, List.map_map, hfirst]
    simp only [Function.comp_def, Nat.succ_eq_add_one, hplace]
    rfl

theorem getArray_eq_getAll (order : ByteOrder) {n : Nat} {b : Bytes}
    (h : b.length = n * t.width) : getArray t order n b = getAll t order b := by
  rw [getArray_eq_getRun, getAll_eq_getRun t order h]

theorem fillAll_eq_getAll (order : ByteOrder) {slots : List (Word t)} {b : Bytes}
    (h : b.length = slots.length * t.width) : fillAll order slots b = getAll t order b := by
  rw [getAll_eq_getRun t order h]
  induction slots generalizing b with
  | nil => rfl
  | cons slot slots ih =>
    rw [List.length_cons, Nat.succ_mul] at h
    have hpiece : b.holds t.width = true := Bytes.holds_iff.mpr (by omega)
    have hrest : (b.drop t.width).length = slots.length * t.width := by
      rw [List.length_drop]
      omega
    rw [fillAll, if_pos hpiece, ih hrest, List.length_cons, getRun_succ]

theorem storeAll_eq_putAll (order : ByteOrder) {vs : List (Word t)} {out : Bytes}
    (h : out.length = vs.length * t.width) : storeAll order vs out = putAll order vs := by
  induction vs generalizing out with
  | nil =>
    rw [List.length_nil, Nat.zero_mul] at h
    exact List.eq_nil_of_length_eq_zero h
  | cons v vs ih =>
    rw [List.length_cons, Nat.succ_mul] at h
    have hpiece : out.holds t.width = true := Bytes.holds_iff.mpr (by omega)
    have hrest : (out.drop t.width).length = vs.length * t.width := by
      rw [List.length_drop]
      omega
    rw [storeAll, if_pos hpiece, ih hrest]
    rfl

end Word

inductive LengthField
  | short
  | long
  deriving DecidableEq, Repr

namespace LengthField

def primitive : LengthField → Primitive
  | short => .u16
  | long => .u64

def width (f : LengthField) : Nat :=
  f.primitive.width

def max : LengthField → Nat
  | short => 65535
  | long => Limits.maxCount

theorem le_max_iff (f : LengthField) (n : Nat) :
    n ≤ f.max ↔ (BitVec.ofNat (8 * f.width) n).toNat = n := by
  rw [BitVec.toNat_ofNat]
  cases f <;> simp only [max, width, primitive, Primitive.width, Limits.maxCount] <;> omega

end LengthField
end OctetStream
