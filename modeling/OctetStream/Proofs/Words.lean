import Mathlib.Algebra.Group.Int.Defs
import Mathlib.Algebra.Group.Nat.Defs
import OctetStream.Primitive

/-! The octets of single values. In either order a value has exactly one string of octets and a
string of the right length exactly one value. The octets are the base-256 digits of an integer
modulo the range of its type, and of the fields of a floating-point number, one behind the other. -/

namespace OctetStream

/-- `b` are the base-256 digits of `n`, the least significant first, and no digit is left out. -/
def DigitsOf (n : Nat) (b : Bytes) : Prop :=
  n < 256 ^ b.length ∧ ∀ k (h : k < b.length), b[k].toNat = n / 256 ^ k % 256

theorem getElem_littleEndian (w n k : Nat) (h : k < (littleEndian w n).length) :
    (littleEndian w n)[k] = UInt8.ofNat (n / 256 ^ k) := by
  induction w generalizing n k with
  | zero => exact absurd h (Nat.not_lt_zero k)
  | succ w ih =>
    cases k with
    | zero => simp only [littleEndian, List.getElem_cons_zero, Nat.pow_zero, Nat.div_one]
    | succ k =>
      simp only [littleEndian, List.getElem_cons_succ, ih, Nat.div_div_eq_div_mul, Nat.pow_succ']

theorem digitsOf_littleEndian {w n : Nat} (h : n < 2 ^ (8 * w)) :
    DigitsOf n (littleEndian w n) := by
  constructor
  · rw [length_littleEndian, show 256 = 2 ^ 8 from rfl, ← Nat.pow_mul]
    exact h
  · intro k hk
    rw [getElem_littleEndian, UInt8.toNat_ofNat']

namespace Primitive

def unsigned : Primitive → Primitive
  | u8 | i8 => u8
  | u16 | i16 => u16
  | u32 | i32 | f32 => u32
  | u64 | i64 | f64 => u64

def format? : Primitive → Option Float.Model.Format
  | f32 => some .binary32
  | f64 => some .binary64
  | _ => none

def Holds (t : Primitive) (i : Int) : Prop :=
  if t.isSigned then -2 ^ (8 * t.width - 1) ≤ i ∧ i < 2 ^ (8 * t.width - 1)
  else 0 ≤ i ∧ i < 2 ^ (8 * t.width)

instance (t : Primitive) (i : Int) : Decidable (t.Holds i) :=
  inferInstanceAs (Decidable (if t.isSigned then _ else _))

theorem width_unsigned (t : Primitive) : t.unsigned.width = t.width := by
  cases t <;> rfl

theorem numBits_of_format? {t : Primitive} {f : Float.Model.Format} (h : t.format? = some f) :
    f.numBits = 8 * t.width := by
  cases t <;> cases h <;> rfl

end Primitive

namespace Word

variable {t : Primitive}

def unsigned (v : Word t) : Word t.unsigned :=
  BitVec.ofNat _ v.toNat

theorem toNat_unsigned (v : Word t) : v.unsigned.toNat = v.toNat := by
  rw [unsigned, BitVec.toNat_ofNat, t.width_unsigned]
  exact Nat.mod_eq_of_lt v.isLt

theorem put_unsigned (order : ByteOrder) (v : Word t) : v.unsigned.put order = v.put order := by
  rw [put, put, toNat_unsigned, t.width_unsigned]

theorem digitsOf_put (v : Word t) : DigitsOf v.toNat (v.put .little) :=
  digitsOf_littleEndian v.isLt

theorem ofInteger_toInteger (v : Word t) : ofInteger t v.toInteger = v := by
  unfold ofInteger toInteger
  split
  · exact BitVec.ofInt_toInt
  · rw [BitVec.ofInt_natCast, BitVec.ofNat_toNat, BitVec.setWidth_eq]

theorem toNat_ofInteger (t : Primitive) (i : Int) :
    (ofInteger t i).toNat = (i % 2 ^ (8 * t.width)).toNat := by
  rw [ofInteger, BitVec.toNat_ofInt]
  norm_cast

theorem toNat_eq_emod (v : Word t) : v.toNat = (v.toInteger % 2 ^ (8 * t.width)).toNat := by
  rw [← toNat_ofInteger, ofInteger_toInteger]

theorem holds_toInteger (v : Word t) : t.Holds v.toInteger := by
  unfold Primitive.Holds toInteger
  split
  · exact ⟨BitVec.le_toInt v, BitVec.toInt_lt⟩
  · refine ⟨Int.natCast_nonneg _, ?_⟩
    exact_mod_cast v.isLt

theorem toInteger_ofInteger {i : Int} (h : t.Holds i) : (ofInteger t i).toInteger = i := by
  unfold Primitive.Holds at h
  unfold toInteger
  split at h
  · rename_i hsigned
    rw [if_pos hsigned]
    have hbits : 0 < 8 * t.width := Nat.mul_pos (by decide) t.width_pos
    exact BitVec.toInt_ofInt_eq_self hbits h.1 h.2
  · rename_i hunsigned
    rw [if_neg hunsigned, toNat_ofInteger, Int.emod_eq_of_lt h.1 h.2]
    exact Int.toNat_of_nonneg h.1

theorem toInteger_unsigned (v : Word t) :
    v.unsigned.toInteger = v.toInteger % 2 ^ (8 * t.width) := by
  have hunsigned : ¬t.unsigned.isSigned = true := by cases t <;> exact Bool.false_ne_true
  have hpos : (0 : Int) < 2 ^ (8 * t.width) := Int.pow_pos (by decide)
  rw [toInteger, if_neg hunsigned, toNat_unsigned, toNat_eq_emod]
  exact Int.toNat_of_nonneg (Int.emod_nonneg _ (Int.ne_of_gt hpos))

section

open Float.Model UnpackedFloat

variable {f : Format} (h : t.format? = some f)

def ofFields (sign : Sign) (exponent : BitVec f.exponentBits)
    (fraction : BitVec f.mantissaBitsWithoutImplicit) : Word t :=
  (packComponents f sign exponent fraction).cast (Primitive.numBits_of_format? h)

def fieldsNumber (sign : Sign) (exponent : BitVec f.exponentBits)
    (fraction : BitVec f.mantissaBitsWithoutImplicit) : Nat :=
  (sign.toBitVec.toNat * 2 ^ f.exponentBits + exponent.toNat) * 2 ^ f.mantissaBitsWithoutImplicit +
    fraction.toNat

theorem toNat_ofFields (sign : Sign) (exponent : BitVec f.exponentBits)
    (fraction : BitVec f.mantissaBitsWithoutImplicit) :
    (ofFields h sign exponent fraction).toNat = fieldsNumber sign exponent fraction := by
  rw [ofFields, BitVec.toNat_cast, packComponents, fieldsNumber, BitVec.toNat_append,
    BitVec.toNat_append, ← Nat.shiftLeft_add_eq_or_of_lt exponent.isLt,
    ← Nat.shiftLeft_add_eq_or_of_lt fraction.isLt, Nat.shiftLeft_eq, Nat.shiftLeft_eq]

theorem exists_sign {n : Nat} (hn : n < 2) : ∃ sign : Sign, sign.toBitVec.toNat = n := by
  match n with
  | 0 => exact ⟨.positive, rfl⟩
  | 1 => exact ⟨.negative, rfl⟩

include h in
theorem exists_fields (v : Word t) :
    ∃ sign exponent fraction, ofFields h sign exponent fraction = v := by
  let high := v.toNat / 2 ^ f.mantissaBitsWithoutImplicit
  have hbound : v.toNat < 2 ^ f.mantissaBitsWithoutImplicit * (2 ^ f.exponentBits * 2) := by
    rw [← Nat.pow_succ, ← Nat.pow_add, Nat.add_comm, Nat.succ_eq_one_add]
    exact Nat.lt_of_lt_of_eq v.isLt (congrArg _ (Primitive.numBits_of_format? h).symm)
  have hhigh : high < 2 ^ f.exponentBits * 2 := Nat.div_lt_of_lt_mul hbound
  obtain ⟨sign, hsign⟩ := exists_sign (Nat.div_lt_of_lt_mul hhigh)
  refine ⟨sign, .ofNat _ high, .ofNat _ v.toNat, ?_⟩
  apply BitVec.eq_of_toNat_eq
  rw [toNat_ofFields, fieldsNumber, hsign, BitVec.toNat_ofNat, BitVec.toNat_ofNat,
    Nat.div_add_mod', Nat.div_add_mod']

end

/-- The ten types in both orders: octets and values are in bijection. What the little-endian octets
are digits of is the integer modulo `2 ^ (8 * width)`, so that a signed integer has the octets of
its counterpart in two's complement, and a floating-point number, NaNs of every payload included,
has those of the unsigned integer with its sign, exponent and fraction. -/
theorem octets_are_digits (t : Primitive) (order : ByteOrder) :
    (∀ v : Word t, get t order (v.put order) = v) ∧
    (∀ b : Bytes, b.length = t.width → (get t order b).put order = b) ∧
    (∀ v : Word t, v.put .big = (v.put .little).reverse ∧ (v.put .little).length = t.width) ∧
    (∀ i, t.Holds i → (ofInteger t i).toInteger = i) ∧
    (∀ v : Word t, t.Holds v.toInteger ∧ ofInteger t v.toInteger = v ∧
      DigitsOf (v.toInteger % 2 ^ (8 * t.width)).toNat (v.put .little) ∧
      v.unsigned.toInteger = v.toInteger % 2 ^ (8 * t.width) ∧
      v.put order = v.unsigned.put order) ∧
    ∀ f (h : t.format? = some f),
      (∀ v : Word t, ∃ sign exponent fraction, ofFields h sign exponent fraction = v) ∧
      ∀ sign exponent fraction,
        DigitsOf (fieldsNumber sign exponent fraction)
          ((ofFields h sign exponent fraction).put .little) := by
  refine ⟨get_put order, fun b hb => put_get order hb, fun v => ⟨rfl, length_put .little v⟩,
    fun i hi => toInteger_ofInteger hi, fun v => ?_, fun f h => ⟨exists_fields h, ?_⟩⟩
  · refine ⟨holds_toInteger v, ofInteger_toInteger v, ?_, toInteger_unsigned v,
      (put_unsigned order v).symm⟩
    rw [← toNat_eq_emod]
    exact digitsOf_put v
  · intro sign exponent fraction
    rw [← toNat_ofFields h]
    exact digitsOf_put _

theorem octets_of_a_negative_integer_and_a_nan :
    let v := ofInteger .i16 (-2)
    let nan : Word .f32 := ofFields (f := .binary32) rfl .negative 255 1
    Primitive.Holds .i16 (-2) ∧ v.toInteger = -2 ∧ v.put .big = [0xff, 0xfe] ∧
      v.unsigned.toInteger = 65534 ∧ nan.put .little = [1, 0, 0x80, 0xff] ∧
      get .f32 .little [1, 0, 0x80, 0xff] = nan ∧
      DigitsOf ((2 ^ 8 + 255) * 2 ^ 23 + 1) (nan.put .little) := by
  intro v nan
  obtain ⟨-, -, -, hinteger, hvalues, -⟩ := octets_are_digits .i16 .big
  obtain ⟨hget, -, -, -, -, hfields⟩ := octets_are_digits .f32 .little
  have hholds : Primitive.Holds .i16 (-2) := by decide
  have hv : v.toInteger = -2 := hinteger _ hholds
  obtain ⟨-, -, -, hunsigned, -⟩ := hvalues v
  rw [hv] at hunsigned
  have hput : nan.put .little = [1, 0, 0x80, 0xff] := by decide
  refine ⟨hholds, hv, by decide, hunsigned, hput, hput ▸ hget nan, ?_⟩
  exact (hfields .binary32 rfl).2 .negative 255 1

end Word
end OctetStream
