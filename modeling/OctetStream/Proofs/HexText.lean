import OctetStream.Proofs.Hex
import OctetStream.Proofs.Utf8

/-! Texts that are hex. Hex is read from the octets of a text, among which those of letters beyond
ASCII are no digits, so only ASCII letters have a case that matters, and it makes no difference. The
text that octets are written as is read as these octets, in small letters and in capitals. -/

namespace OctetStream

def lowerOctet (c : UInt8) : UInt8 :=
  if 0x41 ≤ c ∧ c ≤ 0x5a then c + 0x20 else c

theorem toNat_lowerOctet (c : UInt8) :
    (lowerOctet c).toNat =
      if 0x41 ≤ c.toNat ∧ c.toNat ≤ 0x5a then c.toNat + 0x20 else c.toNat := by
  unfold lowerOctet
  simp only [UInt8.le_iff_toNat_le, UInt8.reduceToNat]
  split
  · rw [UInt8.toNat_add]
    simp only [UInt8.reduceToNat]
    omega
  · rfl

/-! ## Letters of a text -/

theorem lowerOctet_of_le {n : Nat} (h : 0x80 ≤ n) (hn : n < 256) :
    lowerOctet (UInt8.ofNat n) = UInt8.ofNat n := by
  apply UInt8.toNat_inj.mp
  rw [toNat_lowerOctet, UInt8.toNat_ofNat', Nat.mod_eq_of_lt hn, if_neg (by omega)]

theorem map_lowerOctet_of_ascii :
    ∀ n : Fin 128, (String.utf8EncodeChar (Char.ofNat n)).map lowerOctet =
      String.utf8EncodeChar (Char.ofNat n).toLower := by
  decide

theorem map_lowerOctet_utf8EncodeChar (c : Char) :
    (String.utf8EncodeChar c).map lowerOctet = String.utf8EncodeChar c.toLower := by
  by_cases hascii : c.toNat < 128
  · have h := map_lowerOctet_of_ascii ⟨c.toNat, hascii⟩
    rwa [Char.ofNat_toNat] at h
  · -- A character beyond ASCII is no capital, and none of its octets is that of one.
    have hsame : c.toLower = c := by
      apply dif_neg
      rintro ⟨-, hle⟩
      have hle : c.toNat ≤ 0x5a := hle
      omega
    rw [hsame]
    unfold String.utf8EncodeChar
    simp only [Char.toNat] at hascii
    rw [if_neg (by omega)]
    split
    · simp only [List.map_cons, List.map_nil]
      rw [lowerOctet_of_le (by omega) (by omega), lowerOctet_of_le (by omega) (by omega)]
    · split
      · simp only [List.map_cons, List.map_nil]
        rw [lowerOctet_of_le (by omega) (by omega), lowerOctet_of_le (by omega) (by omega),
          lowerOctet_of_le (by omega) (by omega)]
      · simp only [List.map_cons, List.map_nil]
        rw [lowerOctet_of_le (by omega) (by omega), lowerOctet_of_le (by omega) (by omega),
          lowerOctet_of_le (by omega) (by omega), lowerOctet_of_le (by omega) (by omega)]

theorem toList_toLower (s : String) : s.toLower.toList = s.toList.map Char.toLower :=
  String.toList_map

theorem toList_toUpper (s : String) : s.toUpper.toList = s.toList.map Char.toUpper :=
  String.toList_map

theorem utf8_toLower (s : String) : utf8 s.toLower = (utf8 s).map lowerOctet := by
  calc utf8 s.toLower
      = (s.toList.map Char.toLower).flatMap String.utf8EncodeChar := by
        rw [← toList_toLower, ← Utf8.utf8_ofList, String.ofList_toList]
    _ = (s.toList.flatMap String.utf8EncodeChar).map lowerOctet := by
        simp only [List.flatMap_map, List.map_flatMap, map_lowerOctet_utf8EncodeChar]
    _ = (utf8 s).map lowerOctet := by rw [← Utf8.utf8_ofList, String.ofList_toList]

namespace Hex

theorem isDigit_lowerOctet (c : UInt8) : IsDigit (lowerOctet c) ↔ IsDigit c := by
  unfold IsDigit
  simp only [UInt8.le_iff_toNat_le, UInt8.reduceToNat, toNat_lowerOctet]
  split <;> omega

theorem digitValue_lowerOctet {c : UInt8} (h : IsDigit c) :
    digitValue (lowerOctet c) = digitValue c := by
  unfold IsDigit at h
  unfold digitValue
  simp only [UInt8.le_iff_toNat_le, UInt8.reduceToNat] at h
  rw [toNat_lowerOctet]
  grind

theorem reads_map_lowerOctet_iff {text data : Bytes} :
    Reads (text.map lowerOctet) data ↔ Reads text data := by
  have hdigits : (∀ c ∈ text.map lowerOctet, IsDigit c) ↔ ∀ c ∈ text, IsDigit c := by
    simp only [List.forall_mem_map, isDigit_lowerOctet]
  constructor
  · rintro ⟨hlength, hlower, hoctet⟩
    rw [List.length_map] at hlength
    have hall := hdigits.mp hlower
    refine ⟨hlength, hall, fun i hi => ?_⟩
    have hi' := hoctet i hi
    rwa [List.getElem_map, List.getElem_map,
      digitValue_lowerOctet (hall _ (List.getElem_mem _)),
      digitValue_lowerOctet (hall _ (List.getElem_mem _))] at hi'
  · rintro ⟨hlength, hall, hoctet⟩
    refine ⟨(List.length_map _).trans hlength, hdigits.mpr hall, fun i hi => ?_⟩
    rw [List.getElem_map, List.getElem_map,
      digitValue_lowerOctet (hall _ (List.getElem_mem _)),
      digitValue_lowerOctet (hall _ (List.getElem_mem _))]
    exact hoctet i hi

theorem reads_of_toLower_eq {s t : String} (h : s.toLower = t.toLower) {data : Bytes} :
    Reads (utf8 s) data ↔ Reads (utf8 t) data := by
  rw [← reads_map_lowerOctet_iff, ← utf8_toLower, h, utf8_toLower, reads_map_lowerOctet_iff]

/-! ## Hex of octets -/

def digitOctet (n : Nat) : UInt8 :=
  UInt8.ofNat (digit n).toNat

theorem digitOctet_of_lt :
    ∀ n < 16, String.utf8EncodeChar n.digitChar = [UInt8.ofNat n.digitChar.toNat] ∧
      IsDigit (UInt8.ofNat n.digitChar.toNat) ∧ digitValue (UInt8.ofNat n.digitChar.toNat) = n ∧
      n.digitChar.toUpper.toLower = n.digitChar.toLower := by
  decide

theorem digitOctet_spec (n : Nat) :
    String.utf8EncodeChar (digit n) = [digitOctet n] ∧ IsDigit (digitOctet n) ∧
      digitValue (digitOctet n) = n % 16 ∧ (digit n).toUpper.toLower = (digit n).toLower :=
  digitOctet_of_lt (n % 16) (Nat.mod_lt n (by decide))

theorem utf8_encode_cons (c : UInt8) (b : Bytes) :
    utf8 (encode (c :: b)) =
      digitOctet (c.toNat / 16) :: digitOctet c.toNat :: utf8 (encode b) := by
  rw [encode, encode, Utf8.utf8_ofList, Utf8.utf8_ofList]
  simp only [List.flatMap_cons, (digitOctet_spec _).1, List.cons_append, List.nil_append]

theorem reads_encode (b : Bytes) : Reads (utf8 (encode b)) b := by
  induction b with
  | nil => exact .nil
  | cons c b ih =>
    obtain ⟨-, hhi, hhigh, -⟩ := digitOctet_spec (c.toNat / 16)
    obtain ⟨-, hlo, hlow, -⟩ := digitOctet_spec c.toNat
    have hc : c.toNat < 256 := c.toNat_lt
    rw [utf8_encode_cons]
    refine ih.cons hhi hlo ?_
    rw [hhigh, hlow]
    omega

theorem encode_injective : Function.Injective encode := by
  intro a b h
  have ha := reads_encode a
  rw [h] at ha
  exact ha.unique (reads_encode b)

theorem length_encode (b : Bytes) : (encode b).length = 2 * b.length := by
  rw [encode, String.length_ofList]
  induction b with
  | nil => rfl
  | cons c b ih =>
    simp only [List.flatMap_cons, List.length_append, List.length_cons, List.length_nil, ih]
    omega

theorem toLower_toUpper_encode (b : Bytes) : (encode b).toUpper.toLower = (encode b).toLower := by
  apply String.toList_inj.mp
  rw [toList_toLower, toList_toLower, toList_toUpper, encode, String.toList_ofList]
  simp only [List.map_flatMap, List.map_cons, List.map_nil, (digitOctet_spec _).2.2.2]

theorem reads_toUpper_encode (b : Bytes) : Reads (utf8 (encode b).toUpper) b :=
  (reads_of_toLower_eq (toLower_toUpper_encode b)).mpr (reads_encode b)

end Hex
end OctetStream
