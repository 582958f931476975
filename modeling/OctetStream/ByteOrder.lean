import OctetStream.Bytes

/-! Numbers as fixed-width octet strings. The little-endian form holds the base-256 digits of the
number, the least significant first; the big-endian form is its reverse.

This is what the byte order library documents of its readers and writers. The writer of a type of
some width sets exactly so many octets, the reader takes exactly so many and undoes it, and neither
refuses a value. Those of signed and of floating-point types are the unsigned ones of the same width
on the pattern of the value. -/

namespace OctetStream

inductive ByteOrder
  | little
  | big
  deriving DecidableEq, Repr

/-- Base-256 digits, least significant first; higher ones are dropped. -/
def littleEndian : Nat → Nat → Bytes
  | 0, _ => []
  | w + 1, n => UInt8.ofNat n :: littleEndian w (n / 256)

def ofLittleEndian : Bytes → Nat
  | [] => 0
  | c :: b => c.toNat + 256 * ofLittleEndian b

theorem length_littleEndian (w n : Nat) : (littleEndian w n).length = w := by
  induction w generalizing n with
  | zero => rfl
  | succ w ih => simp [littleEndian, ih]

theorem ofLittleEndian_littleEndian (w n : Nat) :
    ofLittleEndian (littleEndian w n) = (BitVec.ofNat (8 * w) n).toNat := by
  rw [BitVec.toNat_ofNat]
  induction w generalizing n with
  | zero => simp [littleEndian, ofLittleEndian, Nat.mod_one]
  | succ w ih =>
    simp only [littleEndian, ofLittleEndian, ih, UInt8.toNat_ofNat', Nat.mul_succ]
    rw [Nat.add_comm (8 * w) 8, Nat.pow_add, Nat.mod_mul]

theorem toNat_ofNat_ofLittleEndian (b : Bytes) :
    (BitVec.ofNat (8 * b.length) (ofLittleEndian b)).toNat = ofLittleEndian b := by
  rw [BitVec.toNat_ofNat]
  apply Nat.mod_eq_of_lt
  induction b with
  | nil => simp [ofLittleEndian]
  | cons c b ih =>
    have hc : c.toNat < 256 := c.toNat_lt
    rw [ofLittleEndian, List.length_cons, Nat.mul_succ, Nat.add_comm (8 * b.length) 8, Nat.pow_add]
    omega

theorem littleEndian_ofLittleEndian (b : Bytes) :
    littleEndian b.length (ofLittleEndian b) = b := by
  induction b with
  | nil => rfl
  | cons c b ih =>
    have hc : c.toNat < 256 := c.toNat_lt
    have hdiv : (c.toNat + 256 * ofLittleEndian b) / 256 = ofLittleEndian b := by omega
    have hhead : UInt8.ofNat (c.toNat + 256 * ofLittleEndian b) = c := by
      apply UInt8.toNat_inj.mp
      rw [UInt8.toNat_ofNat']
      omega
    simp only [List.length_cons, ofLittleEndian, littleEndian, hdiv, hhead, ih]

namespace ByteOrder

def default : ByteOrder := .little

instance : Inhabited ByteOrder := ⟨default⟩

def isLittle : ByteOrder → Bool
  | .little => true
  | .big => false

def isBig : ByteOrder → Bool
  | .little => false
  | .big => true

def name : ByteOrder → String
  | .little => "little"
  | .big => "big"

def display (order : ByteOrder) : String :=
  order.name ++ "-endian"

def ofName? (name : String) : Option ByteOrder :=
  [ByteOrder.little, .big].find? (·.name == name)

def arrange : ByteOrder → Bytes → Bytes
  | .little, b => b
  | .big, b => b.reverse

def encode (order : ByteOrder) (width n : Nat) : Bytes :=
  order.arrange (littleEndian width n)

def decode (order : ByteOrder) (b : Bytes) : Nat :=
  ofLittleEndian (order.arrange b)

theorem arrange_arrange (order : ByteOrder) (b : Bytes) :
    order.arrange (order.arrange b) = b := by
  cases order <;> simp [arrange]

theorem length_arrange (order : ByteOrder) (b : Bytes) :
    (order.arrange b).length = b.length := by
  cases order <;> simp [arrange]

theorem length_encode (order : ByteOrder) (width n : Nat) :
    (order.encode width n).length = width := by
  simp [encode, length_arrange, length_littleEndian]

theorem decode_encode (order : ByteOrder) (width n : Nat) :
    order.decode (order.encode width n) = (BitVec.ofNat (8 * width) n).toNat := by
  simp [decode, encode, arrange_arrange, ofLittleEndian_littleEndian]

theorem encode_decode (order : ByteOrder) (b : Bytes) :
    order.encode b.length (order.decode b) = b := by
  rw [encode, decode, ← length_arrange order b, littleEndian_ofLittleEndian, arrange_arrange]

end ByteOrder
end OctetStream
