import OctetStream.Bytes.Hex

/-! Which texts are hex. A text of an even number of octets that are all digits is read as half as
many octets; of any other the first defect is reported. -/

namespace OctetStream.Hex

def IsDigit (c : UInt8) : Prop :=
  (0x30 ≤ c ∧ c ≤ 0x39) ∨ (0x61 ≤ c ∧ c ≤ 0x66) ∨ (0x41 ≤ c ∧ c ≤ 0x46)

instance : DecidablePred IsDigit :=
  fun c => inferInstanceAs (Decidable ((0x30 ≤ c ∧ c ≤ 0x39) ∨ (0x61 ≤ c ∧ c ≤ 0x66) ∨
    (0x41 ≤ c ∧ c ≤ 0x46)))

def firstBad? (i : Nat) (text : Bytes) : Option (UInt8 × Nat) :=
  (text.zipIdx i).find? fun x => ¬IsDigit x.1

def defect? (text : Bytes) : Option HexError :=
  if text.length % 2 = 1 then some .oddLength
  else (firstBad? 0 text).map fun x => .badDigit x.1 x.2

theorem value?_eq_none_iff (c : UInt8) : value? c = none ↔ ¬IsDigit c := by
  unfold value? IsDigit
  split
  · simp [*]
  · split
    · simp [*]
    · split <;> simp [*]

theorem firstBad?_of_none {c : UInt8} (h : value? c = none) (i : Nat) (text : Bytes) :
    firstBad? i (c :: text) = some (c, i) :=
  List.find?_cons_of_pos (decide_eq_true ((value?_eq_none_iff c).mp h))

theorem firstBad?_of_some {c v : UInt8} (h : value? c = some v) (i : Nat) (text : Bytes) :
    firstBad? i (c :: text) = firstBad? (i + 1) text := by
  have hdigit : ¬¬IsDigit c := by
    rw [← value?_eq_none_iff, h]
    exact Option.some_ne_none v
  exact List.find?_cons_of_neg (mt of_decide_eq_true hdigit)

theorem decodePairs_eq (i : Nat) (acc text : Bytes) (heven : text.length % 2 = 0) :
    match firstBad? i text with
    | some x => decodePairs i acc text = .error (.badDigit x.1 x.2)
    | none => ∃ b, decodePairs i acc text = .ok b ∧ b.length = acc.length + text.length / 2 := by
  fun_induction decodePairs i acc text with
  | case1 i acc hi lo rest hhi => rw [firstBad?_of_none hhi]
  | case2 i acc hi lo rest h hhi hlo => rw [firstBad?_of_some hhi, firstBad?_of_none hlo]
  | case3 i acc hi lo rest h hhi l hlo ih =>
    rw [firstBad?_of_some hhi, firstBad?_of_some hlo]
    rw [List.length_cons, List.length_cons] at heven
    have hrest := ih (by omega)
    -- One octet for the two digits in front, whatever the digits behind them are.
    have hlength : ((h * 16 + l) :: acc).length + rest.length / 2 =
        acc.length + (hi :: lo :: rest).length / 2 := by
      simp only [List.length_cons]
      omega
    rwa [hlength] at hrest
  | case4 text i acc hshort =>
    obtain rfl : text = [] := by
      match text with
      | [] => rfl
      | [c] => simp at heven
      | hi :: lo :: rest => exact (hshort hi lo rest rfl).elim
    exact ⟨acc.reverse, rfl, List.length_reverse⟩

theorem decode_of_defect {text : Bytes} {e : HexError} (h : defect? text = some e) :
    decode text = .error e := by
  unfold defect? at h
  unfold decode
  by_cases hodd : text.length % 2 = 1
  · rw [if_pos hodd] at h ⊢
    exact congrArg Except.error (Option.some.inj h)
  · rw [if_neg hodd] at h ⊢
    obtain ⟨x, hx, rfl⟩ := Option.map_eq_some_iff.mp h
    have hpairs := decodePairs_eq 0 [] text (by omega)
    rwa [hx] at hpairs

theorem decode_of_no_defect {text : Bytes} (h : defect? text = none) :
    ∃ b, decode text = .ok b ∧ b.length = text.length / 2 := by
  unfold defect? at h
  unfold decode
  by_cases hodd : text.length % 2 = 1
  · rw [if_pos hodd] at h
    cases h
  · rw [if_neg hodd] at h ⊢
    have hpairs := decodePairs_eq 0 [] text (by omega)
    rw [Option.map_eq_none_iff.mp h] at hpairs
    simpa using hpairs

/-! ## What is read -/

def digitValue (c : UInt8) : Nat :=
  if c.toNat ≤ 0x39 then c.toNat - 0x30
  else if c.toNat ≤ 0x46 then c.toNat - 0x41 + 10
  else c.toNat - 0x61 + 10

/-- The text has two digits for each octet, and an octet is sixteen times the first and the second.
-/
structure Reads (text data : Bytes) : Prop where
  length_eq : text.length = 2 * data.length
  isDigit : ∀ c ∈ text, IsDigit c
  octet_eq : ∀ (i : Nat) (h : i < data.length),
    data[i].toNat = 16 * digitValue text[2 * i] + digitValue text[2 * i + 1]

theorem isDigit_of_value? {c v : UInt8} (h : value? c = some v) : IsDigit c := by
  apply Decidable.of_not_not
  rw [← value?_eq_none_iff, h]
  exact Option.some_ne_none v

theorem toNat_of_value? {c v : UInt8} (h : value? c = some v) : v.toNat = digitValue c := by
  unfold value? at h
  unfold digitValue
  simp only [UInt8.le_iff_toNat_le, UInt8.reduceToNat] at h
  split at h
  · rename_i hrange
    obtain rfl := Option.some.inj h
    rw [if_pos hrange.2, UInt8.toNat_sub_of_le _ _ hrange.1]
    rfl
  · split at h
    · rename_i hrange
      obtain rfl := Option.some.inj h
      rw [if_neg (by omega), if_neg (by omega), UInt8.toNat_add,
        UInt8.toNat_sub_of_le _ _ hrange.1]
      simp only [UInt8.reduceToNat]
      omega
    · split at h
      · rename_i hrange
        obtain rfl := Option.some.inj h
        rw [if_neg (by omega), if_pos hrange.2, UInt8.toNat_add,
          UInt8.toNat_sub_of_le _ _ hrange.1]
        simp only [UInt8.reduceToNat]
        omega
      · cases h

theorem digitValue_lt {c : UInt8} (h : IsDigit c) : digitValue c < 16 := by
  unfold IsDigit at h
  unfold digitValue
  simp only [UInt8.le_iff_toNat_le, UInt8.reduceToNat] at h
  grind

theorem toNat_pair {hi lo h l : UInt8} (hhi : value? hi = some h) (hlo : value? lo = some l) :
    (h * 16 + l).toNat = 16 * digitValue hi + digitValue lo := by
  have hhigh := digitValue_lt (isDigit_of_value? hhi)
  have hlow := digitValue_lt (isDigit_of_value? hlo)
  rw [UInt8.toNat_add, UInt8.toNat_mul, toNat_of_value? hhi, toNat_of_value? hlo]
  simp only [UInt8.reduceToNat]
  omega

namespace Reads

theorem nil : Reads [] [] :=
  ⟨rfl, nofun, nofun⟩

theorem cons {hi lo d : UInt8} {text data : Bytes} (hhi : IsDigit hi) (hlo : IsDigit lo)
    (hd : d.toNat = 16 * digitValue hi + digitValue lo) (h : Reads text data) :
    Reads (hi :: lo :: text) (d :: data) where
  length_eq := by
    simp only [List.length_cons, h.length_eq]
    omega
  isDigit := by
    intro c hc
    rcases List.mem_cons.mp hc with rfl | hc
    · exact hhi
    · rcases List.mem_cons.mp hc with rfl | hc
      · exact hlo
      · exact h.isDigit c hc
  octet_eq := by
    intro i hi
    cases i with
    | zero => exact hd
    | succ i => exact h.octet_eq i (Nat.lt_of_succ_lt_succ hi)

theorem unique {text b c : Bytes} (hb : Reads text b) (hc : Reads text c) : b = c := by
  have hlength : b.length = c.length := by
    have hboth := hb.length_eq.symm.trans hc.length_eq
    omega
  refine List.ext_getElem hlength fun i hib hic => ?_
  apply UInt8.toNat_inj.mp
  rw [hb.octet_eq i hib, hc.octet_eq i hic]

end Reads

theorem reads_of_decodePairs (i : Nat) (acc : Bytes) {text b : Bytes} (heven : text.length % 2 = 0)
    (h : decodePairs i acc text = .ok b) : ∃ data, b = acc.reverse ++ data ∧ Reads text data := by
  fun_induction decodePairs i acc text with
  | case1 | case2 => cases h
  | case3 i acc hi lo rest v hhi w hlo ih =>
    rw [List.length_cons, List.length_cons] at heven
    obtain ⟨data, rfl, hrest⟩ := ih (by omega) h
    refine ⟨(v * 16 + w) :: data, by rw [List.reverse_cons, List.append_assoc]; rfl, ?_⟩
    exact hrest.cons (isDigit_of_value? hhi) (isDigit_of_value? hlo) (toNat_pair hhi hlo)
  | case4 text i acc hshort =>
    cases h
    match text with
    | [] => exact ⟨[], (List.append_nil _).symm, .nil⟩
    | [c] => cases heven
    | hi :: lo :: rest => exact (hshort hi lo rest rfl).elim

theorem reads_of_decode {text data : Bytes} (h : decode text = .ok data) : Reads text data := by
  unfold decode at h
  split at h
  · cases h
  · rename_i heven
    obtain ⟨data, rfl, hreads⟩ := reads_of_decodePairs 0 [] (by omega) h
    exact hreads

theorem firstBad?_of_first {text : Bytes} {i : Nat} (hi : i < text.length)
    (hbad : ¬IsDigit text[i]) (hbefore : ∀ j (hj : j < i), IsDigit text[j]) :
    firstBad? 0 text = some (text[i], i) := by
  rw [firstBad?, List.find?_eq_some_iff_getElem]
  refine ⟨decide_eq_true hbad, i, by rwa [List.length_zipIdx], ?_, fun j hj => ?_⟩
  · rw [List.getElem_zipIdx, Nat.zero_add]
  · rw [List.getElem_zipIdx]
    simpa using hbefore j hj

theorem defect?_of_odd {text : Bytes} (h : text.length % 2 = 1) :
    defect? text = some .oddLength :=
  if_pos h

theorem defect?_of_first {text : Bytes} {i : Nat} (heven : text.length % 2 = 0)
    (hi : i < text.length) (hbad : ¬IsDigit text[i])
    (hbefore : ∀ j (hj : j < i), IsDigit text[j]) :
    defect? text = some (.badDigit text[i] i) := by
  rw [defect?, if_neg (by omega), firstBad?_of_first hi hbad hbefore]
  rfl

theorem firstBad?_eq_none_iff (i : Nat) (text : Bytes) :
    firstBad? i text = none ↔ ∀ c ∈ text, IsDigit c := by
  rw [firstBad?, List.find?_eq_none]
  constructor
  · intro h c hc
    obtain ⟨j, hj, rfl⟩ := List.getElem_of_mem hc
    have hmem : (text[j], i + j) ∈ text.zipIdx i :=
      List.mk_add_mem_zipIdx_iff_getElem?.mpr (List.getElem?_eq_getElem hj)
    simpa using h _ hmem
  · intro h x hx
    simpa using h x.1 (List.fst_mem_of_mem_zipIdx hx)

theorem defect?_eq_none_iff {text : Bytes} :
    defect? text = none ↔ text.length % 2 = 0 ∧ ∀ c ∈ text, IsDigit c := by
  unfold defect?
  split
  · rename_i hodd
    simp [hodd]
  · rename_i heven
    rw [Option.map_eq_none_iff, firstBad?_eq_none_iff, and_iff_right (by omega)]

theorem Reads.defect?_eq_none {text data : Bytes} (h : Reads text data) : defect? text = none := by
  rw [defect?_eq_none_iff, h.length_eq]
  exact ⟨Nat.mul_mod_right 2 _, h.isDigit⟩

theorem reads_iff_decode {text data : Bytes} : Reads text data ↔ decode text = .ok data := by
  refine ⟨fun h => ?_, reads_of_decode⟩
  obtain ⟨b, hdecode, -⟩ := decode_of_no_defect h.defect?_eq_none
  rw [hdecode, (reads_of_decode hdecode).unique h]

theorem exists_reads_iff {text : Bytes} :
    (∃ data, Reads text data) ↔ text.length % 2 = 0 ∧ ∀ c ∈ text, IsDigit c := by
  rw [← defect?_eq_none_iff]
  constructor
  · rintro ⟨data, h⟩
    exact h.defect?_eq_none
  · intro h
    obtain ⟨data, hdecode, -⟩ := decode_of_no_defect h
    exact ⟨data, reads_of_decode hdecode⟩

end OctetStream.Hex
