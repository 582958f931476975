import OctetStream.Proofs.Buffer.Taken

/-! Text in a field of fixed width. The field cuts its text between octets, not between characters,
and what is read back ends at a NUL. So it comes back as text where the cut is at the end of a
character, and elsewhere only as octets. -/

namespace OctetStream

open Medium

/-! ## Where a text can be cut -/

/-- The first `m` octets of the text are those of its first characters. -/
def IsBoundary (s : String) (m : Nat) : Prop :=
  ∃ front back : String, front ++ back = s ∧ (utf8 front).length = m

theorem utf8_append (s t : String) : utf8 (s ++ t) = utf8 s ++ utf8 t := by
  simp only [utf8, String.toByteArray_append, ByteArray.data_append, Array.toList_append]

theorem toByteArray_take_utf8 (s : String) (m : Nat) :
    ((utf8 s).take m).toByteArray = s.toByteArray.extract 0 m := by
  apply ByteArray.ext
  apply Array.toList_inj.mp
  simp [utf8]

theorem IsBoundary.le {s : String} {m : Nat} (h : IsBoundary s m) : m ≤ (utf8 s).length := by
  obtain ⟨front, back, rfl, rfl⟩ := h
  rw [utf8_append, List.length_append]
  exact Nat.le_add_right ..

theorem isBoundary_of_ofUtf8? {s text : String} {m : Nat} (hle : m ≤ (utf8 s).length)
    (h : ofUtf8? ((utf8 s).take m) = some text) : IsBoundary s m := by
  have hextract : text.toByteArray = s.toByteArray.extract 0 m := by
    rw [← toByteArray_utf8, utf8_of_ofUtf8? h, toByteArray_take_utf8]
  have hend : (⟨m⟩ : String.Pos.Raw) ≤ s.rawEndPos := hle
  have hvalid : String.Pos.Raw.IsValid s ⟨m⟩ :=
    String.Pos.Raw.isValid_iff_isValidUTF8_extract_zero.mpr ⟨hend, hextract ▸ text.isValidUTF8⟩
  obtain ⟨front, back, rfl, hfront⟩ := String.Pos.Raw.isValid_iff_exists_append.mp hvalid
  exact ⟨front, back, rfl, (congrArg String.Pos.Raw.byteIdx hfront).symm⟩

theorem isBoundary_iff {s : String} {m : Nat} :
    IsBoundary s m ↔ m ≤ (utf8 s).length ∧ (ofUtf8? ((utf8 s).take m)).isSome := by
  constructor
  · intro h
    refine ⟨h.le, ?_⟩
    obtain ⟨front, back, rfl, rfl⟩ := h
    rw [utf8_append, List.take_left, ofUtf8?_utf8]
    rfl
  · rintro ⟨hle, hsome⟩
    obtain ⟨text, htext⟩ := Option.isSome_iff_exists.mp hsome
    exact isBoundary_of_ofUtf8? hle htext

instance (s : String) (m : Nat) : Decidable (IsBoundary s m) :=
  decidable_of_iff _ isBoundary_iff.symm

namespace Buffer

variable {b after : Buffer} {n : Nat} {content : Bytes}

/-! ## What is read back -/

theorem readCStringBytes_of_le (h : n ≤ b.remaining) :
    readCStringBytes n b = .ok (Bytes.untilNul (b.unread.take n)) (b.advance n) :=
  Action.bind_of_ok (f := fun got : Bytes => pure got.untilNul) (readBytes_of_le h)

section

variable {s : String} {m : Nat} {rest : Bytes}

theorem readCStringBytes_of_padTo (h : b.unread = content.padTo n ++ rest) :
    readCStringBytes n b = .ok (Bytes.untilNul (content.padTo n)) (b.advance n) ∧
      (b.advance n).unread = rest ∧ (b.advance n).position = b.position + n := by
  have hwidth : (content.padTo n).length = n := Bytes.length_padTo n content
  have hle : n ≤ b.remaining := by
    show n ≤ b.unread.length
    rw [h, List.length_append, hwidth]
    exact Nat.le_add_right ..
  rw [readCStringBytes_of_le hle, unread_advance, h, List.take_left' hwidth,
    List.drop_left' hwidth]
  exact ⟨rfl, rfl, position_advance hle⟩

theorem readCStringBytes_of_field (hm : m = min n (min content.length (content.idxOf Bytes.nul)))
    (h : b.unread = content.padTo n ++ rest) :
    readCStringBytes n b = .ok (content.take m) (b.advance n) ∧
      (b.advance n).position = b.position + n := by
  obtain ⟨hread, -, hposition⟩ := readCStringBytes_of_padTo h
  rw [Bytes.untilNul_padTo_eq_take, ← hm] at hread
  exact ⟨hread, hposition⟩

variable (hm : m = min n (min (utf8 s).length ((utf8 s).idxOf Bytes.nul)))
  (h : b.unread = (utf8 s).padTo n ++ rest)
include hm h

theorem readCString_of_isBoundary (hboundary : IsBoundary s m) :
    ∃ text after, readCString n b = .ok text after ∧ utf8 text = (utf8 s).take m ∧
      after.position = b.position + n := by
  obtain ⟨hbytes, hposition⟩ := readCStringBytes_of_field hm h
  obtain ⟨text, htext⟩ := Option.isSome_iff_exists.mp (isBoundary_iff.mp hboundary).2
  exact ⟨text, _, textOf_of_text hbytes htext, utf8_of_ofUtf8? htext, hposition⟩

theorem readCString_of_not_isBoundary (hboundary : ¬IsBoundary s m) :
    ∃ failed after, readCString n b = .error (.invalidUtf8 b.position) failed ∧
      failed.position = b.position ∧ readCStringBytes n failed = .ok ((utf8 s).take m) after ∧
      after.position = b.position + n := by
  obtain ⟨hbytes, -⟩ := readCStringBytes_of_field hm h
  have hle : m ≤ (utf8 s).length :=
    hm ▸ Nat.le_trans (Nat.min_le_right ..) (Nat.min_le_left ..)
  have htext : ofUtf8? ((utf8 s).take m) = none :=
    Option.eq_none_iff_forall_ne_some.mpr fun _ htext =>
      hboundary (isBoundary_of_ofUtf8? hle htext)
  obtain ⟨failed, hread⟩ := textOf_of_not_text hbytes htext
  have hfield : (ReadOp.cstring n).perform b = .error (.invalidUtf8 b.position) failed := hread
  have hcursor := (failedOnce_of_perform rfl hfield).cursor_eq
  have hkept : failed.position = b.position := congrArg Cursor.position hcursor
  have hahead : failed.unread = b.unread := congrArg Cursor.ahead hcursor
  obtain ⟨hagain, hposition⟩ := readCStringBytes_of_field hm (hahead.trans h)
  exact ⟨failed, _, hread, hkept, hagain, hkept ▸ hposition⟩

end

theorem write_cstring_of_isExhausted (content : Bytes) (hwidth : n ≤ Limits.maxAllocation)
    (hexhausted : b.isExhausted = true) :
    ∃ written, (WriteOp.cstring content n).perform b = .ok () written ∧
      written.data = b.data ++ content.padTo n ∧ written.position = b.position ∧
      written.unread = content.padTo n := by
  have hpayload : (WriteOp.cstring content n).payload (Medium.order b) = .ok (content.padTo n) :=
    if_neg (Nat.not_lt.mpr hwidth)
  refine ⟨_, WriteOp.perform_of_ok hpayload, Cursor.data_append .., rfl, ?_⟩
  show b.unread ++ content.padTo n = _
  rw [show b.unread = [] from List.isEmpty_iff.mp hexhausted, List.nil_append]

/-- A text of any characters in a field of any width, at the end of what a buffer holds. The field
is cut or padded to the octet. What is read back is text just where it ends with a character; where
it does not, the read fails and the octets can still be read as such. -/
theorem cstring_is_text_at_boundaries (s : String) (n : Nat) (b : Buffer)
    (hwidth : n ≤ Limits.maxAllocation) (hexhausted : b.isExhausted = true) :
    let content := utf8 s
    let m := min n (min content.length (content.idxOf Bytes.nul))
    ∃ written, (WriteOp.cstring content n).perform b = .ok () written ∧
      written.data = b.data ++
        (content.take (min content.length n) ++ List.replicate (n - content.length) Bytes.nul) ∧
      written.position = b.position ∧
      ((∃ text after, readCString n written = .ok text after ∧ utf8 text = content.take m ∧
        after.position = b.position + n) ↔ IsBoundary s m) ∧
      (¬IsBoundary s m → ∃ failed after,
        readCString n written = .error (.invalidUtf8 b.position) failed ∧
        failed.position = b.position ∧
        readCStringBytes n failed = .ok (content.take m) after ∧
        after.position = b.position + n) := by
  intro content m
  obtain ⟨written, hwrite, hdata, hposition, hunread⟩ :=
    write_cstring_of_isExhausted content hwidth hexhausted
  have hfield : written.unread = content.padTo n ++ [] := by rw [hunread, List.append_nil]
  have hpadded : content.padTo n =
      content.take (min content.length n) ++ List.replicate (n - content.length) Bytes.nul := by
    rw [Bytes.padTo, Nat.min_comm, ← List.take_eq_take_min]
  refine ⟨written, hwrite, hpadded ▸ hdata, hposition, ?_⟩
  rw [← hposition]
  refine ⟨⟨?_, readCString_of_isBoundary rfl hfield⟩, readCString_of_not_isBoundary rfl hfield⟩
  rintro ⟨text, after, hread, -⟩
  refine Decidable.byContradiction fun hboundary => ?_
  obtain ⟨failed, -, hfailed, -⟩ := readCString_of_not_isBoundary rfl hfield hboundary
  rw [hread] at hfailed
  cases hfailed

theorem cut_character_is_read_as_octets :
    let b := Buffer.empty
    2 ≤ Limits.maxAllocation ∧ b.isExhausted = true ∧ ¬IsBoundary "hé" 2 ∧
      ∃ written failed after, (WriteOp.cstring (utf8 "hé") 2).perform b = .ok () written ∧
        readCString 2 written = .error (.invalidUtf8 0) failed ∧
        readCStringBytes 2 failed = .ok [0x68, 0xc3] after := by
  intro b
  have hcut : ¬IsBoundary "hé" 2 := by decide +kernel
  obtain ⟨written, hwrite, -, -, -, hcut_read⟩ :=
    cstring_is_text_at_boundaries "hé" 2 b (by decide) rfl
  obtain ⟨failed, after, hread, -, hagain, -⟩ := hcut_read hcut
  exact ⟨by decide, rfl, hcut, written, failed, after, hwrite, hread, hagain⟩

end Buffer
end OctetStream
