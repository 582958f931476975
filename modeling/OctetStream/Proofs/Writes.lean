import OctetStream.Proofs.Channel.Framing
import OctetStream.Proofs.Field
import OctetStream.Proofs.Hex
import OctetStream.Proofs.Session

/-! Writes, one after the other, to a buffer and to a channel in the same order. A write is refused
by both before anything is sent, or both send the same octets in one transfer. -/

namespace OctetStream

namespace WriteOp

/-- A text and a run that are written exist, and the width of a field fits one allocation. -/
def Storable : WriteOp → Prop
  | string _ _ text => (utf8 text).length ≤ Limits.maxAllocation
  | cstring _ width => width ≤ Limits.maxAllocation
  | run t _ values => values.length * t.width ≤ Limits.maxAllocation
  | _ => True

def refusal? : WriteOp → Option StreamError
  | string .short _ text =>
    if 65535 < (utf8 text).length then some (.lengthOverflow (utf8 text).length 65535) else none
  | hex text => (Hex.defect? (utf8 text)).map .ofHexError
  | _ => none

def size : WriteOp → Nat
  | bytes data => data.length
  | hex text => (utf8 text).length / 2
  | word t _ _ => t.width
  | run t _ values => values.length * t.width
  | string field _ text => field.width + (utf8 text).length
  | cstring _ width => width
  | terminated content => content.length + 1

variable {op : WriteOp}

theorem payload_of_refusal {e : StreamError} (h : op.refusal? = some e) (order : ByteOrder) :
    op.payload order = .error e := by
  cases op with
  | hex text =>
    obtain ⟨defect, hdefect, rfl⟩ := Option.map_eq_some_iff.mp h
    rw [payload, Hex.decode_of_defect hdefect]
    rfl
  | string field order? text =>
    cases field with
    | short =>
      rw [refusal?] at h
      split at h
      · rename_i hlong
        obtain rfl := Option.some.inj h
        exact if_neg (Nat.not_le.mpr hlong)
      · cases h
    | long => cases h
  | _ => cases h

theorem length_le_max {field : LengthField} {order? : Option ByteOrder} {text : String}
    (hop : (string field order? text).Storable) (h : (string field order? text).refusal? = none) :
    (utf8 text).length ≤ field.max := by
  cases field with
  | short =>
    rw [refusal?] at h
    split at h
    · cases h
    · rename_i hshort
      exact Nat.not_lt.mp hshort
  | long => exact Nat.le_trans hop (by decide)

theorem payload_of_storable (hop : op.Storable) (h : op.refusal? = none) (order : ByteOrder) :
    ∃ data, op.payload order = .ok data ∧ data.length = op.size := by
  cases op with
  | bytes data => exact ⟨data, rfl, rfl⟩
  | hex text =>
    obtain ⟨data, hdecode, hlength⟩ := Hex.decode_of_no_defect (Option.map_eq_none_iff.mp h)
    refine ⟨data, ?_, hlength⟩
    rw [payload, hdecode]
    rfl
  | word t order? value => exact ⟨_, rfl, Word.length_put ..⟩
  | run t order? values =>
    refine ⟨_, ?_, Word.length_putAll (order?.getD order) values⟩
    rw [payload_run, Field.runLength_of_stored hop]
    rfl
  | string field order? text =>
    refine ⟨_, if_pos (length_le_max hop h), ?_⟩
    rw [List.length_append, ByteOrder.length_encode, size]
  | cstring content width => exact ⟨_, if_neg (Nat.not_lt.mpr hop), Bytes.length_padTo ..⟩
  | terminated content => exact ⟨_, rfl, List.length_append⟩

theorem perform_of_steady {c : Channel} {data : Bytes} (hdata : op.payload c.order = .ok data)
    (hsink : c.SinkSteady) :
    ∃ sink : Sink, sink.Steady ∧ sink.contents = c.written ++ data ∧
      op.perform c = .ok () { c with
        sink := some sink
        counters := c.counters.addWrite data.length } := by
  obtain ⟨before, hbefore, hsteady⟩ := hsink
  obtain ⟨sink, hsink, hcontents, -, -, hsend⟩ := Channel.send_of_steady hbefore hsteady data
  have hwritten : c.written = before.contents := by rw [Channel.written, hbefore]
  exact ⟨sink, hsink, hwritten ▸ hcontents, (perform_of_ok (s := c) hdata).trans hsend⟩

def attemptAll {σ : Type} [Medium σ] (ops : List WriteOp) (s : σ) :
    List ((_ : WriteOp) × Except StreamError Unit) × σ :=
  session (fun op s => Action.settle op.perform s) ops s

end WriteOp

open WriteOp

structure Abreast (order : ByteOrder) (b : Buffer) (c : Channel) : Prop where
  buffer_order : b.order = order
  channel_order : c.order = order
  steady : c.SinkSteady

variable {order : ByteOrder} {b : Buffer} {c : Channel} {op : WriteOp}

namespace Abreast

theorem settle_of_error (h : Abreast order b c) {e : StreamError}
    (he : op.payload order = .error e) :
    op.perform.settle b = (.error e, b) ∧ op.perform.settle c = (.error e, c) := by
  have hb : op.payload b.order = .error e := by rw [h.buffer_order, he]
  have hc : op.payload c.order = .error e := by rw [h.channel_order, he]
  exact ⟨Action.settle_of_error (perform_of_error (s := b) hb),
    Action.settle_of_error (perform_of_error (s := c) hc)⟩

theorem settle_of_ok (h : Abreast order b c) {data : Bytes} (hdata : op.payload order = .ok data) :
    op.perform.settle b = (.ok (), { b with
      cursor := b.cursor.append data
      counters := b.counters.addWrite data.length }) ∧
    ∃ sink : Sink, sink.Steady ∧ sink.contents = c.written ++ data ∧
      op.perform.settle c = (.ok (), { c with
        sink := some sink
        counters := c.counters.addWrite data.length }) := by
  have hb : op.payload b.order = .ok data := by rw [h.buffer_order, hdata]
  have hc : op.payload c.order = .ok data := by rw [h.channel_order, hdata]
  obtain ⟨sink, hsink, hcontents, hperform⟩ := perform_of_steady hc h.steady
  refine ⟨Action.settle_of_ok (perform_of_ok (s := b) hb), sink, hsink, hcontents, ?_⟩
  exact Action.settle_of_ok hperform

theorem attempt (h : Abreast order b c) (op : WriteOp) :
    (op.perform.settle b).1 = (op.perform.settle c).1 ∧
      Abreast order (op.perform.settle b).2 (op.perform.settle c).2 := by
  cases hpayload : op.payload order with
  | error e =>
    obtain ⟨hb, hc⟩ := h.settle_of_error hpayload
    rw [hb, hc]
    exact ⟨rfl, h⟩
  | ok data =>
    obtain ⟨hb, sink, hsink, -, hc⟩ := h.settle_of_ok hpayload
    rw [hb, hc]
    exact ⟨rfl, h.buffer_order, h.channel_order, sink, rfl, hsink⟩

theorem attemptAll (h : Abreast order b c) (ops : List WriteOp) :
    (WriteOp.attemptAll ops b).1 = (WriteOp.attemptAll ops c).1 ∧
      Abreast order (WriteOp.attemptAll ops b).2 (WriteOp.attemptAll ops c).2 :=
  session_congr (fun op _ _ h => h.attempt op) ops h

end Abreast

/-- Whatever was written or refused before, a write is refused on both media for one cause, and then
changes nothing, or it appends the same octets to what either has written, in one transfer. -/
theorem writes_are_single_transfers (horder : c.order = b.order) (hsink : c.SinkSteady)
    (earlier : List WriteOp) (hop : op.Storable) :
    let onBuffer := attemptAll earlier b
    let onChannel := attemptAll earlier c
    let b' := op.perform.settle onBuffer.2
    let c' := op.perform.settle onChannel.2
    onBuffer.1 = onChannel.1 ∧
    (∀ e, op.refusal? = some e →
      b' = (.error e, onBuffer.2) ∧ c' = (.error e, onChannel.2)) ∧
    (op.refusal? = none → b'.1 = .ok () ∧ c'.1 = .ok () ∧
      ∃ data, op.payload b.order = .ok data ∧ data.length = op.size ∧
        b'.2.data = onBuffer.2.data ++ data ∧ b'.2.position = onBuffer.2.position ∧
        b'.2.counters = onBuffer.2.counters.addWrite data.length ∧
        c'.2.written = onChannel.2.written ++ data ∧ c'.2.consumed = onChannel.2.consumed ∧
        c'.2.counters = onChannel.2.counters.addWrite data.length) := by
  intro onBuffer onChannel b' c'
  have hstart : Abreast b.order b c := ⟨rfl, horder, hsink⟩
  obtain ⟨hreplies, habreast⟩ := hstart.attemptAll earlier
  refine ⟨hreplies, fun e he => ?_, fun hnone => ?_⟩
  · exact habreast.settle_of_error (payload_of_refusal he b.order)
  · obtain ⟨data, hdata, hlength⟩ := payload_of_storable hop hnone b.order
    obtain ⟨hb, sink, -, hcontents, hc⟩ := habreast.settle_of_ok hdata
    rw [show b' = _ from hb, show c' = _ from hc]
    exact ⟨rfl, rfl, data, hdata, hlength, Cursor.data_append data _, rfl, rfl, hcontents, rfl, rfl⟩

theorem text_after_bad_hex_is_one_transfer :
    let b := Buffer.ofBytes [9] .big
    let c := Channel.writer { script := [.transfer 1, .fail .interrupt] } { order := .big }
    let earlier : List WriteOp := [.hex "0g", .terminated [104, 105]]
    let op : WriteOp := .string .short none "hé"
    let b' := op.perform.settle (attemptAll earlier b).2
    let c' := op.perform.settle (attemptAll earlier c).2
    (WriteOp.hex "0g").refusal? =
        some (.malformedInput "invalid hex: Invalid character 'g' at position 1") ∧
      op.refusal? = none ∧ (attemptAll earlier b).1 = (attemptAll earlier c).1 ∧
      b'.2.data = [9, 104, 105, 0] ++ [0, 3, 104, 195, 169] ∧
      c'.2.written = [104, 105, 0] ++ [0, 3, 104, 195, 169] ∧
      c'.2.counters = ({} : Counters).addWrites 2 8 := by
  intro b c earlier op b' c'
  have hdelays : ∀ event ∈ [Event.transfer 1, .fail .interrupt], event.Delays := by decide
  have hop : op.Storable := by
    show (utf8 "hé").length ≤ Limits.maxAllocation
    decide
  have hnone : op.refusal? = none := by decide
  obtain ⟨hreplies, -, hsent⟩ := writes_are_single_transfers (b := b) (c := c) rfl
    ⟨_, rfl, hdelays⟩ earlier hop
  obtain ⟨-, -, data, hdata, -, hb, -, -, hc, -, hcounters⟩ := hsent hnone
  obtain rfl : [0, 3, 104, 195, 169] = data := Except.ok.inj hdata
  have hbefore : (attemptAll earlier c).2.written = [104, 105, 0] ∧
      (attemptAll earlier c).2.counters = ({} : Counters).addWrites 1 3 := by
    decide +kernel
  rw [hbefore.1] at hc
  rw [hbefore.2] at hcounters
  exact ⟨by decide +kernel, hnone, hreplies, hb, hc, hcounters⟩

end OctetStream
