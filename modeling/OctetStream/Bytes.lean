/-! Octet strings as lists, with the few shapes that stream fields give them: cut at the first
NUL, cut or padded to a width, and laid over the front of older contents; and text as octets.
Every string has one UTF-8 form, and `ofUtf8?` reads exactly those forms: it refuses overlong forms,
surrogates, values above 10FFFF and cut sequences, as the Unicode standard asks of a decoder. -/

namespace OctetStream

abbrev Bytes := List UInt8

/-- The new elements, then what the old ones hold beyond them. -/
def overwrite {α : Type} (front old : List α) : List α :=
  front ++ old.drop front.length

theorem overwrite_nil {α : Type} (old : List α) : overwrite [] old = old := rfl

theorem overwrite_of_length_eq {α : Type} {front old : List α} (h : old.length = front.length) :
    overwrite front old = front := by
  rw [overwrite, ← h, List.drop_length, List.append_nil]

namespace Bytes

def nul : UInt8 := 0

/-- There are `n` octets; looks no further than these. -/
def holds (n : Nat) (b : Bytes) : Bool :=
  n == 0 || !(b.drop (n - 1)).isEmpty

def untilNul (b : Bytes) : Bytes :=
  b.takeWhile (· != nul)

def padTo (width : Nat) (b : Bytes) : Bytes :=
  b.take width ++ List.replicate (width - b.length) nul

theorem holds_iff {b : Bytes} {n : Nat} : b.holds n = true ↔ n ≤ b.length := by
  cases n with
  | zero => simp [holds]
  | succ n =>
    simp only [holds, Nat.add_sub_cancel, Bool.or_eq_true, beq_iff_eq, Bool.not_eq_true',
      List.isEmpty_eq_false_iff, ne_eq, List.drop_eq_nil_iff]
    omega

theorem length_padTo (width : Nat) (b : Bytes) : (b.padTo width).length = width := by
  simp only [padTo, List.length_append, List.length_take, List.length_replicate]
  omega

theorem padTo_zero (b : Bytes) : b.padTo 0 = [] := by
  rw [padTo, Nat.zero_sub]
  rfl

theorem padTo_cons (width : Nat) (c : UInt8) (b : Bytes) :
    padTo (width + 1) (c :: b) = c :: padTo width b := by
  rw [padTo, List.take_succ_cons, List.length_cons, Nat.add_sub_add_right]
  rfl

theorem untilNul_padTo_eq_take (width : Nat) (b : Bytes) :
    (b.padTo width).untilNul = b.take (min width (min b.length (b.idxOf nul))) := by
  induction b generalizing width with
  | nil => cases width <;> rfl
  | cons c b ih =>
    cases width with
    | zero => rw [padTo_zero, Nat.zero_min, List.take_zero, untilNul, List.takeWhile_nil]
    | succ width =>
      rw [padTo_cons, untilNul, List.takeWhile_cons, List.idxOf_cons, List.length_cons]
      by_cases hnul : c = nul
      · subst hnul
        simp
      · rw [bne_iff_ne.mpr hnul, beq_false_of_ne hnul, if_pos rfl, cond_false,
          Nat.succ_min_succ, Nat.succ_min_succ, List.take_succ_cons]
        exact congrArg _ (ih width)

theorem untilNul_eq_self {b : Bytes} (h : nul ∉ b) : b.untilNul = b := by
  induction b with
  | nil => rfl
  | cons c b ih =>
    obtain ⟨hc, hb⟩ := not_or.mp (mt List.mem_cons.mpr h)
    have hne : (c != nul) = true := bne_iff_ne.mpr fun e => hc e.symm
    simp only [untilNul, List.takeWhile_cons, hne, if_true]
    exact congrArg (c :: ·) (ih hb)

theorem nul_not_mem_untilNul (b : Bytes) : nul ∉ b.untilNul := by
  intro hmem
  have hall : b.untilNul.all (· != nul) = true := List.all_takeWhile
  exact absurd (List.all_eq_true.mp hall nul hmem) (by decide)

theorem untilNul_eq_self_iff {b : Bytes} : b.untilNul = b ↔ nul ∉ b :=
  ⟨fun h => h ▸ nul_not_mem_untilNul b, untilNul_eq_self⟩

theorem eq_untilNul_or (b : Bytes) : b.untilNul = b ∨ ∃ rest, b = b.untilNul ++ nul :: rest := by
  have hsplit : b.untilNul ++ b.dropWhile (· != nul) = b := List.takeWhile_append_dropWhile
  have hhead := List.head?_dropWhile_not (· != nul) b
  cases hrest : b.dropWhile (· != nul) with
  | nil =>
    rw [hrest, List.append_nil] at hsplit
    exact Or.inl hsplit
  | cons c rest =>
    rw [hrest] at hsplit hhead
    have hnul : c = nul := by simpa using hhead
    exact Or.inr ⟨rest, hnul ▸ hsplit.symm⟩

theorem untilNul_eq_take (b : Bytes) : b.untilNul = b.take (b.idxOf nul) := by
  simp only [untilNul, List.takeWhile_eq_take_findIdx_not, List.idxOf, bne, Bool.not_not]

theorem length_untilNul {b : Bytes} (h : nul ∈ b) : b.untilNul.length = b.idxOf nul := by
  rw [untilNul_eq_take]
  exact List.length_take_of_le (Nat.le_of_lt (List.idxOf_lt_length_of_mem h))

theorem nul_mem_take_iff {b : Bytes} {n : Nat} : nul ∈ b.take n ↔ nul ∈ b ∧ b.idxOf nul < n := by
  constructor
  · intro hmem
    have hsplit : (b.take n ++ b.drop n).idxOf nul = (b.take n).idxOf nul := by
      rw [List.idxOf_append, if_pos hmem]
    rw [List.take_append_drop] at hsplit
    rw [hsplit]
    exact ⟨List.mem_of_mem_take hmem,
      Nat.lt_of_lt_of_le (List.idxOf_lt_length_of_mem hmem) (List.length_take_le n b)⟩
  · rintro ⟨hmem, hlt⟩
    have hinside := List.idxOf_lt_length_of_mem hmem
    rw [List.mem_take_iff_getElem]
    exact ⟨b.idxOf nul, by omega, List.getElem_idxOf hinside⟩

theorem untilNul_append_replicate (b : Bytes) (n : Nat) :
    (b ++ List.replicate n nul).untilNul = b.untilNul := by
  induction b with
  | nil => cases n <;> rfl
  | cons c b ih =>
    rw [List.cons_append, untilNul, untilNul, List.takeWhile_cons, List.takeWhile_cons]
    split
    · exact congrArg _ ih
    · rfl

end Bytes

def utf8 (s : String) : Bytes :=
  s.toByteArray.data.toList

def ofUtf8? (b : Bytes) : Option String :=
  String.fromUTF8? b.toByteArray

theorem toByteArray_utf8 (s : String) : (utf8 s).toByteArray = s.toByteArray := by
  apply ByteArray.ext
  simp [utf8]

theorem ofUtf8?_utf8 (s : String) : ofUtf8? (utf8 s) = some s := by
  simp only [ofUtf8?, toByteArray_utf8, String.fromUTF8?, s.isValidUTF8, dite_true]
  rfl

theorem utf8_of_ofUtf8? {b : Bytes} {s : String} (h : ofUtf8? b = some s) : utf8 s = b := by
  unfold ofUtf8? String.fromUTF8? at h
  split at h
  · obtain rfl := Option.some.inj h
    exact congrArg Array.toList List.data_toByteArray
  · cases h

end OctetStream
