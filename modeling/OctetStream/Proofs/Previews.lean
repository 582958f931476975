import OctetStream.Log
import OctetStream.Proofs.HexText

/-! What a preview tells of its octets: how many there are, and the first of them. Octets are quoted
without escapes, and need none: the first character tells the quoted form from the digits, and
within a form the number of octets gives the length. So there is only one place where the octets can
end and a note begin, whatever the octets look like. -/

namespace OctetStream

namespace Preview

def shown (c : UInt8) : Char :=
  Char.ofNat c.toNat

def note (size : Nat) : String :=
  ".. (" ++ (toString size ++ " bytes)")

theorem toNat_shown (c : UInt8) : (shown c).toNat = c.toNat := by
  have hc : c.toNat < 256 := c.toNat_lt
  rw [shown, Char.ofNat, dif_pos (Or.inl (by omega))]
  rfl

theorem shown_injective : Function.Injective shown := by
  intro c d h
  apply UInt8.toNat_inj.mp
  rw [← toNat_shown c, h, toNat_shown]

theorem toString_injective : Function.Injective (toString : Nat → String) := by
  have hread (n : Nat) : Nat.ofDigitChars 10 (toString n).toList 0 = n := by
    rw [Nat.toString_eq_repr, Nat.toList_repr, Nat.ofDigitChars_ten_toDigits]
  intro m n h
  rw [← hread m, h, hread]

theorem note_injective : Function.Injective note := by
  intro m n h
  have hrest := (String.append_right_inj ".. (").mp h
  exact toString_injective ((String.append_left_inj " bytes)").mp hrest)

variable {a b : Bytes} {s t : String}

/-! ## The two forms -/

theorem toList_render_of_printable (h : b.all isPrintable = true) :
    (render b).toList = 'b' :: '"' :: (b.map shown ++ ['"']) := by
  have htext : render b = "b\"" ++ String.ofList (b.map shown) ++ "\"" := if_pos h
  rw [htext, String.toList_append, String.toList_append]
  exact congrArg (fun text => 'b' :: '"' :: (text ++ ['"'])) String.toList_ofList

theorem toList_render_of_unprintable (h : b.all isPrintable = false) :
    (render b).toList = '0' :: 'x' :: (Hex.encode b).toList := by
  rw [render, if_neg (ne_true_of_eq_false h), String.toList_append]
  rfl

theorem head?_render (b : Bytes) :
    (render b).toList.head? = some (if b.all isPrintable then 'b' else '0') := by
  cases h : b.all isPrintable with
  | true => rw [toList_render_of_printable h]; rfl
  | false => rw [toList_render_of_unprintable h]; rfl

theorem length_render (b : Bytes) :
    (render b).length = if b.all isPrintable then b.length + 3 else 2 * b.length + 2 := by
  rw [← String.length_toList]
  cases h : b.all isPrintable with
  | true =>
    rw [toList_render_of_printable h, List.length_cons, List.length_cons, List.length_append,
      List.length_map]
    rfl
  | false =>
    rw [toList_render_of_unprintable h, List.length_cons, List.length_cons, String.length_toList,
      Hex.length_encode]
    rfl

theorem form_eq (h : render a ++ s = render b ++ t) : a.all isPrintable = b.all isPrintable := by
  have hhead := congrArg (fun text => text.toList.head?) h
  simp only [String.toList_append, List.head?_append, head?_render, Option.some_or] at hhead
  cases ha : a.all isPrintable <;> cases hb : b.all isPrintable <;> simp [ha, hb] at hhead ⊢

/-! ## What a text is cut into -/

theorem render_injective : Function.Injective render := by
  intro a b h
  have hform : a.all isPrintable = b.all isPrintable := form_eq (congrArg (· ++ "") h)
  have htext := congrArg String.toList h
  cases hb : b.all isPrintable with
  | true =>
    rw [toList_render_of_printable (hform.trans hb), toList_render_of_printable hb] at htext
    have hquoted := List.tail_eq_of_cons_eq (List.tail_eq_of_cons_eq htext)
    have hshown : a.map shown = b.map shown := List.append_inj_left' hquoted rfl
    exact (List.map_inj_right fun _ _ => @shown_injective _ _).mp hshown
  | false =>
    rw [toList_render_of_unprintable (hform.trans hb), toList_render_of_unprintable hb] at htext
    have hdigits := List.tail_eq_of_cons_eq (List.tail_eq_of_cons_eq htext)
    exact Hex.encode_injective (String.toList_injective hdigits)

theorem render_append_inj (hlength : a.length = b.length) (h : render a ++ s = render b ++ t) :
    a = b ∧ s = t := by
  have hroom : (render a).toList.length = (render b).toList.length := by
    rw [String.length_toList, String.length_toList, length_render, length_render, form_eq h,
      hlength]
  have htext := congrArg String.toList h
  rw [String.toList_append, String.toList_append] at htext
  obtain ⟨hrender, hrest⟩ := List.append_inj htext hroom
  exact ⟨render_injective (String.toList_injective hrender), String.toList_injective hrest⟩

/-! ## Previews -/

theorem preview_of_le (h : b.length ≤ limit) : preview b = render b :=
  if_pos h

theorem preview_of_lt (h : limit < b.length) :
    preview b = render (b.take limit) ++ note b.length := by
  rw [preview, if_neg (Nat.not_le_of_lt h)]
  simp only [note, String.append_assoc]
  rfl

theorem preview_ne_of_lt_of_le (ha : limit < a.length) (hb : b.length ≤ limit) :
    preview a ≠ preview b := by
  rw [preview_of_lt ha, preview_of_le hb]
  intro h
  have hform : (a.take limit).all isPrintable = b.all isPrintable :=
    form_eq (h.trans String.append_empty.symm)
  have htake : (a.take limit).length = limit := List.length_take_of_le (Nat.le_of_lt ha)
  have hlength := congrArg String.length h
  rw [String.length_append, length_render, length_render, hform, htake, note,
    String.length_append] at hlength
  have hdots : ".. (".length = 4 := rfl
  split at hlength <;> omega

theorem preview_eq_iff :
    preview a = preview b ↔ a.length = b.length ∧ a.take limit = b.take limit := by
  constructor
  · intro h
    by_cases ha : a.length ≤ limit <;> by_cases hb : b.length ≤ limit
    · rw [preview_of_le ha, preview_of_le hb] at h
      rw [render_injective h]
      exact ⟨rfl, rfl⟩
    · exact absurd h.symm (preview_ne_of_lt_of_le (Nat.lt_of_not_le hb) ha)
    · exact absurd h (preview_ne_of_lt_of_le (Nat.lt_of_not_le ha) hb)
    · rw [Nat.not_le] at ha hb
      rw [preview_of_lt ha, preview_of_lt hb] at h
      have htake : (a.take limit).length = (b.take limit).length := by
        rw [List.length_take_of_le (Nat.le_of_lt ha), List.length_take_of_le (Nat.le_of_lt hb)]
      obtain ⟨hfront, hnote⟩ := render_append_inj htake h
      exact ⟨note_injective hnote, hfront⟩
  · rintro ⟨hlength, hfront⟩
    by_cases hb : b.length ≤ limit
    · have ha : a.length ≤ limit := Nat.le_trans (Nat.le_of_eq hlength) hb
      rw [List.take_of_length_le ha, List.take_of_length_le hb] at hfront
      rw [hfront]
    · rw [Nat.not_le] at hb
      rw [preview_of_lt (Nat.lt_of_lt_of_eq hb hlength.symm), preview_of_lt hb, hlength, hfront]

/-- Two strings of octets have the same preview just if they are equally long and begin with the
same sixteen octets, or are the same where they are shorter. In whole, octets are shown as no others
are; what is quoted is never what is written in digits, and a shortened preview is never that of
sixteen octets or fewer. -/
theorem previews_identify_octets (a b : Bytes) :
    (preview a = preview b ↔
      a.length = b.length ∧ a.take (min 16 a.length) = b.take (min 16 a.length)) ∧
    (render a = render b ↔ a = b) ∧
    (a.all isPrintable = true → b.all isPrintable = false → render a ≠ render b) ∧
    (16 < a.length → b.length ≤ 16 → preview a ≠ preview b) := by
  refine ⟨?_, ⟨fun h => render_injective h, congrArg render⟩, fun ha hb h => ?_,
    preview_ne_of_lt_of_le⟩
  · rw [preview_eq_iff]
    refine and_congr_right fun hlength => ?_
    rw [← List.take_eq_take_min, hlength, ← List.take_eq_take_min]
    rfl
  · have hform := form_eq (congrArg (· ++ "") h)
    rw [ha, hb] at hform
    cases hform

theorem lookalikes_are_told_apart :
    render (utf8 "0xdead") ≠ render [0xde, 0xad] ∧
      preview (utf8 "abc\".. (17 bytes)") ≠ preview (utf8 "ab\".. (17 bytes") ∧
      preview (utf8 "sixteen octets..\n") = preview (utf8 "sixteen octets..\t") := by
  obtain ⟨-, -, hforms, -⟩ := previews_identify_octets (utf8 "0xdead") [0xde, 0xad]
  obtain ⟨-, -, -, hshortened⟩ :=
    previews_identify_octets (utf8 "abc\".. (17 bytes)") (utf8 "ab\".. (17 bytes")
  obtain ⟨hsame, -⟩ :=
    previews_identify_octets (utf8 "sixteen octets..\n") (utf8 "sixteen octets..\t")
  exact ⟨hforms (by decide) (by decide), hshortened (by decide) (by decide),
    hsame.mpr (by decide)⟩

end Preview

namespace LogEntry

open Preview

def loadedEnding (order : ByteOrder) : String :=
  " (" ++ (order.display ++ ")")

theorem message_bufferLoaded (data : Bytes) (order : ByteOrder) :
    (bufferLoaded data order).message =
      "buffer stream: from " ++ (preview data ++ loadedEnding order) := by
  have htext : (bufferLoaded data order).message =
      "buffer stream: from " ++ preview data ++ " (" ++ order.display ++ ")" := rfl
  rw [htext]
  simp only [loadedEnding, String.append_assoc]

theorem loadedEnding_inj {s t : String} {order other : ByteOrder}
    (h : s ++ loadedEnding order = t ++ loadedEnding other) : order = other ∧ s = t := by
  have horder : order = other := by
    -- The names of the orders differ in length, so the texts are compared from the end.
    have hreversed := congrArg (fun text => text.toList.reverse) h
    cases order <;> cases other <;>
      simp [loadedEnding, ByteOrder.display, ByteOrder.name] at hreversed ⊢
  subst horder
  exact ⟨rfl, (String.append_left_inj _).mp h⟩

theorem message_bufferLoaded_eq_iff {a b : Bytes} {order other : ByteOrder} :
    (bufferLoaded a order).message = (bufferLoaded b other).message ↔
      order = other ∧ a.length = b.length ∧ a.take limit = b.take limit := by
  rw [message_bufferLoaded, message_bufferLoaded, String.append_right_inj, ← preview_eq_iff]
  constructor
  · exact loadedEnding_inj
  · rintro ⟨rfl, h⟩
    rw [h]

end LogEntry
end OctetStream
