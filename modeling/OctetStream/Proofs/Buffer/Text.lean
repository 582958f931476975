import OctetStream.Proofs.Buffer.Taken
import OctetStream.Proofs.Utf8

/-! Texts behind a length field. The field or the octets that it promises may be missing, the octets
may be no text, or the text is read; which of the four it is follows from the unread octets alone.
-/

namespace OctetStream

theorem Word.toNat_get {t : Primitive} (order : ByteOrder) {b : Bytes} (h : b.length = t.width) :
    (Word.get t order b).toNat = order.decode b := by
  rw [Word.get, ByteOrder.decode, ← h, ← ByteOrder.length_arrange order b,
    toNat_ofNat_ofLittleEndian]

namespace Buffer

open Medium

variable {b after : Buffer} {field : LengthField} {order? : Option ByteOrder}

theorem readWord_of_lt {t : Primitive} (order? : Option ByteOrder) (h : b.remaining < t.width) :
    ∃ failed, readWord t order? b = .error (.outOfBounds t.width b.remaining b.position) failed :=
  ⟨_, Action.bind_of_error
    (f := fun got : Bytes => pure (Word.get t (order?.getD b.order) got)) (demand_of_lt h)⟩

theorem failedOnce_of_readString {e : StreamError}
    (h : readString field order? b = .error e after) : FailedOnce b after := by
  have hread : (ReadOp.string field order?).perform b = .error e after := h
  exact failedOnce_of_perform rfl hread

def readBody (field : LengthField) (order? : Option ByteOrder) : Action Buffer Bytes := do
  let len := (← readWord field.primitive order?).toNat
  permit len
  readBytes len

theorem readString_eq_textOf (b : Buffer) :
    readString field order? b = Buffer.atomically
      (do let start ← currentOffset; ofExcept (textAt start (← readBody field order?))) b := by
  simp only [readBody, bind_assoc]
  rfl

def declared (field : LengthField) (order? : Option ByteOrder) (b : Buffer) : Nat :=
  (order?.getD b.order).decode (b.unread.take field.width)

theorem readBody_of_le (h : field.width ≤ b.remaining) :
    readBody field order? b = readBytes (declared field order? b) (b.advance field.width) := by
  have hlen : (Word.get field.primitive (order?.getD b.order) (b.unread.take field.width)).toNat =
      declared field order? b := Word.toNat_get _ (List.length_take_of_le h)
  refine (Action.bind_of_ok (readWord_of_le h)).trans ?_
  rw [← hlen]
  rfl

theorem readString_of_readBody_error {e : StreamError}
    (h : readBody field order? b = .error e after) :
    ∃ failed, readString field order? b = .error e failed ∧ FailedOnce b failed := by
  have hread : readString field order? b = .error e _ := (readString_eq_textOf b).trans <|
    atomically_of_error (Action.bind_of_error (f := fun got => ofExcept (textAt b.position got)) h)
  exact ⟨_, hread, failedOnce_of_readString hread⟩

theorem readString_of_short (h : b.remaining < field.width) :
    ∃ failed, readString field order? b =
        .error (.outOfBounds field.width b.remaining b.position) failed ∧ FailedOnce b failed := by
  obtain ⟨after, hword⟩ := readWord_of_lt order? h
  exact readString_of_readBody_error (Action.bind_of_error hword)

theorem readString_of_overstated (h : field.width ≤ b.remaining)
    (hlen : b.remaining - field.width < declared field order? b) :
    ∃ failed, readString field order? b = .error (.outOfBounds (declared field order? b)
        (b.remaining - field.width) (b.position + field.width)) failed ∧ FailedOnce b failed := by
  have hcut := readBytes_of_lt (b := b.advance field.width) (remaining_advance field.width b ▸ hlen)
  rw [remaining_advance, position_advance h] at hcut
  exact readString_of_readBody_error ((readBody_of_le h).trans hcut)

theorem readBody_of_present (h : field.width ≤ b.remaining)
    (hlen : declared field order? b ≤ b.remaining - field.width) :
    readBody field order? b =
      .ok ((b.unread.drop field.width).take (declared field order? b))
        ((b.advance field.width).advance (declared field order? b)) :=
  (readBody_of_le h).trans (readBytes_of_le (remaining_advance field.width b ▸ hlen))

theorem readString_of_not_wellFormed (h : field.width ≤ b.remaining)
    (hlen : declared field order? b ≤ b.remaining - field.width)
    (hbody : ¬Utf8.WellFormed ((b.unread.drop field.width).take (declared field order? b))) :
    ∃ failed, readString field order? b = .error (.invalidUtf8 b.position) failed ∧
      FailedOnce b failed := by
  have hnone : ofUtf8? ((b.unread.drop field.width).take (declared field order? b)) = none :=
    Option.eq_none_iff_forall_ne_some.mpr fun s hs =>
      hbody (Utf8.wellFormed_iff_ofUtf8?.mpr ⟨s, hs⟩)
  obtain ⟨failed, hread⟩ := textOf_of_not_text (readBody_of_present h hlen) hnone
  have hstring : readString field order? b = .error (.invalidUtf8 b.position) failed :=
    (readString_eq_textOf b).trans hread
  exact ⟨failed, hstring, failedOnce_of_readString hstring⟩

theorem readString_of_wellFormed (h : field.width ≤ b.remaining)
    (hlen : declared field order? b ≤ b.remaining - field.width)
    (hbody : Utf8.WellFormed ((b.unread.drop field.width).take (declared field order? b))) :
    ∃ text, utf8 text = (b.unread.drop field.width).take (declared field order? b) ∧
      readString field order? b =
        .ok text ((b.advance field.width).advance (declared field order? b)) := by
  obtain ⟨text, htext⟩ := Utf8.wellFormed_iff_ofUtf8?.mp hbody
  have hread := textOf_of_text (readBody_of_present h hlen) htext
  exact ⟨text, utf8_of_ofUtf8? htext, (readString_eq_textOf b).trans hread⟩

/-- The four ends that the read of a text can come to on any octets: its length field is cut, its
length is more than what is left, its octets are no text, or they are, and then they are taken in
two transfers. No length is too large to be held against what is left. -/
theorem string_read_has_four_ends (b : Buffer) (field : LengthField) (order? : Option ByteOrder) :
    let r := b.unread
    let p := b.position
    let w := field.width
    let len := (order?.getD b.order).decode (r.take w)
    let body := (r.drop w).take len
    (r.length < w → ∃ after, readString field order? b = .error (.outOfBounds w r.length p) after ∧
      FailedOnce b after) ∧
    (w ≤ r.length → r.length - w < len →
      ∃ after, readString field order? b = .error (.outOfBounds len (r.length - w) (p + w)) after ∧
        FailedOnce b after) ∧
    (w ≤ r.length → len ≤ r.length - w → ¬Utf8.WellFormed body →
      ∃ after, readString field order? b = .error (.invalidUtf8 p) after ∧ FailedOnce b after) ∧
    (w ≤ r.length → len ≤ r.length - w → Utf8.WellFormed body →
      ∃ text after, readString field order? b = .ok text after ∧ utf8 text = body ∧
        after.position = p + w + len ∧ after.data = b.data ∧
        after.counters = b.counters.addReads 2 (w + len)) := by
  intro r p w len body
  refine ⟨readString_of_short, readString_of_overstated, readString_of_not_wellFormed,
    fun hfield hlen hbody => ?_⟩
  obtain ⟨text, htext, hread⟩ := readString_of_wellFormed hfield hlen hbody
  have hleft : len ≤ (b.advance w).remaining := remaining_advance w b ▸ hlen
  refine ⟨text, (b.advance w).advance len, hread, htext, ?_, ?_, ?_⟩
  · rw [position_advance hleft, position_advance hfield]
  · rw [data_advance, data_advance]
  · exact Counters.addReads_addReads 1 1 w len b.counters

theorem overlong_slash_is_no_text :
    let overlong := ofBytes [2, 0, 0xc0, 0xaf]
    let slash := ofBytes [1, 0, 0x2f, 7]
    let huge := (ofBytes (7 :: List.replicate 8 255 ++ [0x2f])).advance 1
    (∃ after, readString .short none overlong = .error (.invalidUtf8 0) after) ∧
      (∃ text after, readString .short none slash = .ok text after ∧ utf8 text = [0x2f] ∧
        after.position = 3 ∧ after.counters.reads = 2) ∧
      ∃ after, readString .long (some .big) huge =
        .error (.outOfBounds 18446744073709551615 1 9) after := by
  intro overlong slash huge
  obtain ⟨-, -, hnone, -⟩ := string_read_has_four_ends overlong .short none
  obtain ⟨-, -, -, htext⟩ := string_read_has_four_ends slash .short none
  obtain ⟨-, hcut, -⟩ := string_read_has_four_ends huge .long (some .big)
  obtain ⟨overlongAfter, hoverlong, -⟩ := hnone (by decide) (by decide) (by decide +kernel)
  obtain ⟨text, slashAfter, hread, hbody, hplace, -, hcounters⟩ :=
    htext (by decide) (by decide) (by decide +kernel)
  obtain ⟨hugeAfter, hhuge, -⟩ := hcut (by decide) (by decide)
  refine ⟨⟨overlongAfter, hoverlong⟩, ⟨text, slashAfter, hread, hbody, hplace, ?_⟩,
    hugeAfter, hhuge⟩
  rw [hcounters]
  rfl

end Buffer
end OctetStream
