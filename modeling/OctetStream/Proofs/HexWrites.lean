import OctetStream.Proofs.HexText
import OctetStream.Proofs.Writes

/-! Hex that is written to a stream. -/

namespace OctetStream

namespace WriteOp

structure Appends (op : WriteOp) (data : Bytes) (b : Buffer) (c : Channel) : Prop where
  buffer : ∃ after, op.perform b = .ok () after ∧ after.data = b.data ++ data ∧
    after.position = b.position ∧ after.counters = b.counters.addWrite data.length
  channel : ∃ after, op.perform c = .ok () after ∧ after.written = c.written ++ data ∧
    after.consumed = c.consumed ∧ after.counters = c.counters.addWrite data.length

structure Refused (op : WriteOp) (e : StreamError) (b : Buffer) (c : Channel) : Prop where
  buffer : op.perform b = .error e b
  channel : op.perform c = .error e c

variable {op : WriteOp} {b : Buffer} {c : Channel}

theorem appends_of_payload {data : Bytes} (hb : op.payload b.order = .ok data)
    (hc : op.payload c.order = .ok data) (hsink : c.SinkSteady) : op.Appends data b c where
  buffer := ⟨_, perform_of_ok (s := b) hb, Cursor.data_append data b.cursor, rfl, rfl⟩
  channel := by
    obtain ⟨sink, -, hcontents, hperform⟩ := perform_of_steady hc hsink
    exact ⟨_, hperform, hcontents, rfl, rfl⟩

theorem refused_of_refusal {e : StreamError} (h : op.refusal? = some e) : op.Refused e b c where
  buffer := perform_of_error (s := b) (payload_of_refusal h b.order)
  channel := perform_of_error (s := c) (payload_of_refusal h c.order)

theorem reads_of_perform {σ : Type} [Medium σ] {text : String} {s after : σ}
    (h : (hex text).perform s = .ok () after) :
    ∃ data, Hex.Reads (utf8 text) data ∧ Medium.send data s = .ok () after := by
  cases hdecode : Hex.decode (utf8 text) with
  | error e =>
    have hpayload : (hex text).payload (Medium.order s) = .error (.ofHexError e) := by
      rw [payload, hdecode]
      rfl
    rw [perform_of_error hpayload] at h
    cases h
  | ok data =>
    have hpayload : (hex text).payload (Medium.order s) = .ok data := by
      rw [payload, hdecode]
      rfl
    rw [perform_of_ok hpayload] at h
    exact ⟨data, Hex.reads_of_decode hdecode, h⟩

theorem isHex_of_perform {σ : Type} [Medium σ] {text : String} {s after : σ}
    (h : (hex text).perform s = .ok () after) :
    (utf8 text).length % 2 = 0 ∧ ∀ x ∈ utf8 text, Hex.IsDigit x := by
  obtain ⟨data, hreads, -⟩ := reads_of_perform h
  exact Hex.exists_reads_iff.mp ⟨data, hreads⟩

theorem appends_hex_iff {text : String} {data : Bytes} (hsink : c.SinkSteady) :
    (hex text).Appends data b c ↔ Hex.Reads (utf8 text) data := by
  constructor
  · rintro ⟨⟨after, hperform, hdata, -⟩, -⟩
    obtain ⟨got, hreads, hsend⟩ := reads_of_perform hperform
    cases hsend
    have hsame : b.data ++ got = b.data ++ data :=
      (Cursor.data_append got b.cursor).symm.trans hdata
    rwa [List.append_cancel_left hsame] at hreads
  · intro h
    have hpayload (order : ByteOrder) : (hex text).payload order = .ok data := by
      rw [payload, Hex.reads_iff_decode.mp h]
      rfl
    exact appends_of_payload (hpayload b.order) (hpayload c.order) hsink

end WriteOp

open WriteOp

theorem StreamError.ofHexError_badDigit (c : UInt8) (i : Nat) :
    ofHexError (.badDigit c i) = .malformedInput
      ("invalid hex: Invalid character " ++ Hex.quoted c ++ " at position " ++ toString i) :=
  rfl

/-- A text is written as hex just if it has an even number of octets and all are digits, and then
puts an octet for each pair of them, on a buffer as on a channel; the text of octets puts these
octets, in small letters and in capitals, and texts that differ only in this put the same. Any other
text is refused for its odd length or else for its first octet that is no digit. -/
theorem hex_is_written_exactly (text : String) (b : Buffer) (c : Channel) (hsink : c.SinkSteady) :
    let digits := utf8 text
    let isHex := digits.length % 2 = 0 ∧ ∀ x ∈ digits, Hex.IsDigit x
    ((∃ after, (hex text).perform b = .ok () after) ↔ isHex) ∧
    ((∃ after, (hex text).perform c = .ok () after) ↔ isHex) ∧
    (isHex → ∃ data, Hex.Reads digits data ∧ (hex text).Appends data b c) ∧
    (digits.length % 2 = 1 →
      (hex text).Refused (.malformedInput "invalid hex: Odd number of digits") b c) ∧
    (∀ i (h : i < digits.length), digits.length % 2 = 0 → ¬Hex.IsDigit digits[i] →
      (∀ j (_ : j < i), Hex.IsDigit digits[j]) →
      (hex text).Refused (.malformedInput ("invalid hex: Invalid character " ++
        Hex.quoted digits[i] ++ " at position " ++ toString i)) b c) ∧
    (∀ octets, (hex (Hex.encode octets)).Appends octets b c ∧
      (hex (Hex.encode octets).toUpper).Appends octets b c) ∧
    ∀ other : String, other.toLower = text.toLower →
      ∀ data, (hex other).Appends data b c ↔ (hex text).Appends data b c := by
  intro digits isHex
  have hwritten (h : isHex) : ∃ data, Hex.Reads digits data ∧ (hex text).Appends data b c := by
    obtain ⟨data, hreads⟩ := Hex.exists_reads_iff.mpr h
    exact ⟨data, hreads, (appends_hex_iff hsink).mpr hreads⟩
  refine ⟨⟨fun ⟨_, h⟩ => isHex_of_perform h, fun h => ?_⟩,
    ⟨fun ⟨_, h⟩ => isHex_of_perform h, fun h => ?_⟩, hwritten, fun hodd => ?_, ?_,
    fun octets => ⟨?_, ?_⟩, ?_⟩
  · obtain ⟨data, -, happends⟩ := hwritten h
    obtain ⟨after, hperform, -⟩ := happends.buffer
    exact ⟨after, hperform⟩
  · obtain ⟨data, -, happends⟩ := hwritten h
    obtain ⟨after, hperform, -⟩ := happends.channel
    exact ⟨after, hperform⟩
  · apply refused_of_refusal
    rw [refusal?, Hex.defect?_of_odd hodd]
    rfl
  · intro i hi heven hbad hbefore
    apply refused_of_refusal
    rw [refusal?, Hex.defect?_of_first heven hi hbad hbefore, ← StreamError.ofHexError_badDigit]
    rfl
  · exact (appends_hex_iff hsink).mpr (Hex.reads_encode octets)
  · exact (appends_hex_iff hsink).mpr (Hex.reads_toUpper_encode octets)
  · intro other hcase data
    rw [appends_hex_iff hsink, appends_hex_iff hsink]
    exact Hex.reads_of_toLower_eq hcase

theorem mixed_case_is_written_and_accent_refused :
    let b := (Buffer.ofBytes [9]).advance 1
    let c := Channel.writer { script := [.transfer 1, .fail .interrupt] }
    c.SinkSteady ∧ (hex "4F4b").Appends [0x4f, 0x4b] b c ∧
      (hex "0é0").Refused
        (.malformedInput "invalid hex: Invalid character 'Ã' at position 1") b c := by
  intro b c
  have hdelays : ∀ event ∈ [Event.transfer 1, .fail .interrupt], event.Delays := by decide
  have hsink : c.SinkSteady := ⟨_, rfl, hdelays⟩
  obtain ⟨-, -, -, -, -, hencoded, hcase⟩ := hex_is_written_exactly "4f4b" b c hsink
  obtain ⟨-, -, -, -, hrefused, -⟩ := hex_is_written_exactly "0é0" b c hsink
  have hsmall : (hex "4f4b").Appends [0x4f, 0x4b] b c := (hencoded [0x4f, 0x4b]).1
  have hletters : "4F4b".toLower = "4f4b".toLower := by
    apply String.toList_inj.mp
    rw [toList_toLower, toList_toLower]
    decide
  refine ⟨hsink, (hcase "4F4b" hletters [0x4f, 0x4b]).mpr hsmall, ?_⟩
  exact hrefused 1 (by decide) (by decide) (by decide) (by decide)

end OctetStream
