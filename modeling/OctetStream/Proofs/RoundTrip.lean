import OctetStream.Proofs.Buffer.Framing
import OctetStream.Proofs.Channel.Framing
import OctetStream.Proofs.Field

/-! Fields that are written come back. Each read takes exactly the octets that the write of its
field put there, so a series of fields of any kinds and orders is read back as it was written,
over every pair of media. -/

namespace OctetStream

open Medium

namespace Readable

variable {σ α : Type} [Medium σ] [Readable σ] {s : σ} {rest : Bytes}

theorem yields_readString (hs : Ready s) {field : LengthField} {order? : Option ByteOrder}
    {text : String} (hshort : (utf8 text).length ≤ field.max)
    (hstored : (utf8 text).length ≤ Limits.maxAllocation)
    (h : ahead s =
      (order?.getD (order s)).encode field.width (utf8 text).length ++ utf8 text ++ rest)
    (hlimit : ∀ max, payloadLimit s = some max → (utf8 text).length ≤ max) :
    Yields (readString field order?) s text 2
      ((order?.getD (order s)).encode field.width (utf8 text).length ++ utf8 text).length := by
  let len : Word field.primitive := BitVec.ofNat _ (utf8 text).length
  -- The text fits the length field, so nothing of its length is cut off.
  have hlen : len.toNat = (utf8 text).length := (LengthField.le_max_iff field _).mp hshort
  have hput : len.put (order?.getD (order s)) =
      (order?.getD (order s)).encode field.width (utf8 text).length := by
    rw [Word.put, hlen]
    rfl
  rw [List.append_assoc, ← hput] at h
  have hbody : Yields (readWord field.primitive order? >>= fun len =>
      permit len.toNat >>= fun _ => readBytes len.toNat) s (utf8 text) 2
      ((len.put (order?.getD (order s))).length + (utf8 text).length) := by
    refine (yields_readWord hs h).bind (k := 1) (fun t hst => ?_) rfl rfl
    have hahead := hst.ahead_append h
    rw [hlen]
    rw [← hst.limit_eq] at hlimit
    refine (yields_permit hst.ready hlimit).bind (fun u htu => ?_) (Nat.zero_add _) (Nat.zero_add _)
    exact yields_readBytes htu.ready (htu.ahead_append (b := []) hahead) hstored
  have htext := hbody.text.atomically
  simp only [bind_assoc] at htext
  rw [List.length_append, ← hput]
  exact htext

theorem yields_readCStringBytes (hs : Ready s) {content : Bytes} {width : Nat}
    (hclean : Bytes.nul ∉ content) (hshort : content.length ≤ width)
    (hstored : width ≤ Limits.maxAllocation) (h : ahead s = content.padTo width ++ rest) :
    Yields (readCStringBytes width) s content 1 (content.padTo width).length := by
  have hlen := Bytes.length_padTo width content
  have hpadded : (content.padTo width).length ≤ Limits.maxAllocation := by rwa [hlen]
  have hread := (yields_readBytes hs h hpadded).map Bytes.untilNul
  rw [Bytes.untilNul_padTo hclean hshort] at hread
  simp only [hlen] at hread ⊢
  exact hread

theorem yields_readUntilNul_append (hs : Ready s) {content : Bytes}
    (hclean : Bytes.nul ∉ content) (h : ahead s = content ++ [Bytes.nul] ++ rest)
    (hlimit : ∀ max, payloadLimit s = some max → content.length ≤ max) :
    Yields readUntilNul s content (content.length + 1) (content ++ [Bytes.nul]).length := by
  rw [List.append_assoc] at h
  rw [List.length_append]
  exact yields_readUntilNul hs hclean h hlimit

variable {t : Primitive} {order? : Option ByteOrder} {values : List (Word t)}

theorem yields_values (hs : Ready s) (hstored : values.length * t.width ≤ Limits.maxAllocation)
    (h : ahead s = Word.putAll (order?.getD (order s)) values ++ rest)
    {loop : Bytes → List (Word t)}
    (hloop : loop (Word.putAll (order?.getD (order s)) values) = values) :
    Yields (readBytes (values.length * t.width) >>= fun b => pure (loop b)) s values 1
      (Word.putAll (order?.getD (order s)) values).length := by
  have hlen := Word.length_putAll (order?.getD (order s)) values
  have hread := (yields_readBytes hs h (hlen ▸ hstored)).map loop
  rw [hloop] at hread
  simp only [hlen] at hread ⊢
  exact hread

theorem yields_readFixed (hs : Ready s) (hstored : values.length * t.width ≤ Limits.maxAllocation)
    (h : ahead s = Word.putAll (order?.getD (order s)) values ++ rest)
    {loop : ByteOrder → Bytes → List (Word t)}
    (hloop : ∀ order, loop order (Word.putAll order values) = values) :
    Yields (readFixed values.length order? loop) s values 1
      (Word.putAll (order?.getD (order s)) values).length :=
  .of_eq (readFixed_of_ok (Field.runLength_of_stored hstored))
    (yields_values hs hstored h (hloop _))

theorem yields_readRun (hs : Ready s) (hstored : values.length * t.width ≤ Limits.maxAllocation)
    (h : ahead s = Word.putAll (order?.getD (order s)) values ++ rest)
    (hlimit : ∀ max, payloadLimit s = some max → values.length * t.width ≤ max) :
    Yields (readRun t values.length order?) s values 1
      (Word.putAll (order?.getD (order s)) values).length := by
  refine .of_eq (readRun_of_ok (Field.runLength_of_stored hstored)) ?_
  refine (yields_permit hs hlimit).bind (fun u hsu => ?_) (Nat.zero_add _) (Nat.zero_add _)
  rw [← hsu.order_eq] at h ⊢
  exact yields_values hsu.ready hstored (hsu.ahead_append (b := []) h) (Word.getAll_putAll _ _)

theorem yields_read (f : Field) (hs : Ready s) (h : ahead s = f.encoding (order s) ++ rest)
    (hlimit : ∀ max, payloadLimit s = some max → f.payloadLength ≤ max) :
    Yields f.read.perform s f.value f.transfers (f.encoding (order s)).length := by
  cases f with
  | word t order? value => exact yields_readWord hs h
  | bytes data stored => exact yields_readBytes hs h stored
  | slots data dest same =>
    have hread := (yields_fetch hs h).map fun got => overwrite got dest
    simp only [Field.encoding, overwrite_of_length_eq same, ← same] at hread
    simp only [Field.read, ReadOp.perform, slotsOf_readInto, Field.encoding, ← same]
    exact hread
  | string field order? text short stored => exact yields_readString hs short stored h hlimit
  | cstring text width clean short stored =>
    exact (yields_readCStringBytes hs clean short stored h).text.atomically
  | cstringBytes content width clean short stored =>
    exact yields_readCStringBytes hs clean short stored h
  | terminated text clean => exact (yields_readUntilNul_append hs clean h hlimit).text.atomically
  | terminatedBytes content clean => exact (yields_readUntilNul_append hs clean h hlimit).atomically
  | run t order? values stored => exact yields_readRun hs stored h hlimit
  | array t order? values stored =>
    exact yields_readFixed hs stored h fun order => Word.getArray_putAll order values
  | fill t order? values dest same stored =>
    have hread := yields_readFixed hs stored h fun order => Word.fillAll_putAll order same
    simp only [Field.read, ReadOp.perform, slotsOf_fillRun, same]
    exact hread

end Readable

namespace Field

open Readable in
theorem yields_readAll {σ : Type} [Medium σ] [Readable σ] (fs : List Field) {s : σ} {rest : Bytes}
    (hs : Ready s) (h : ahead s = encodeAll (order s) fs ++ rest)
    (hlimit : ∀ f ∈ fs, ∀ max, payloadLimit s = some max → f.payloadLength ≤ max) :
    Yields (ReadOp.performAll (fs.map read)) s (fs.map answer) (transfersAll fs)
      (encodeAll (order s) fs).length := by
  induction fs generalizing s with
  | nil => exact yields_pure hs []
  | cons f fs ih =>
    rw [encodeAll_cons, List.append_assoc] at h
    have hfirst := yields_read f hs h (hlimit f List.mem_cons_self)
    have hlen : (f.encoding (order s)).length + (encodeAll (order s) fs).length =
        (f.encoding (order s) ++ encodeAll (order s) fs).length := List.length_append.symm
    refine hfirst.bind (fun t hst => ?_) rfl hlen
    have hahead := hst.ahead_append h
    rw [← hst.order_eq] at hahead ⊢
    rw [← hst.limit_eq] at hlimit
    have hothers := ih hst.ready hahead fun g hg => hlimit g (List.mem_cons_of_mem _ hg)
    exact hothers.map fun answers => f.answer :: answers

open Readable in
theorem read_whole {σ : Type} [Medium σ] [Readable σ] {order : ByteOrder} (fs : List Field) {s : σ}
    (hs : Ready s) (horder : Medium.order s = order) (h : ahead s = encodeAll order fs)
    (hlimit : ∀ f ∈ fs, ∀ max, payloadLimit s = some max → f.payloadLength ≤ max) :
    ∃ after, ReadOp.performAll (fs.map read) s = .ok (fs.map answer) after ∧ ahead after = [] ∧
      offset after = offset s + (encodeAll order fs).length ∧
      (counters after).withoutShortReads =
        ((counters s).addReads (transfersAll fs)
          (encodeAll order fs).length).withoutShortReads := by
  subst horder
  have hall : ahead s = encodeAll (order s) fs ++ [] := by
    rw [List.append_nil]
    exact h
  obtain ⟨after, hread, hpassed⟩ := yields_readAll fs hs hall hlimit
  exact ⟨after, hread, hpassed.ahead_append hall, hpassed.offset_eq, hpassed.counters_eq⟩

theorem put_writeAll {σ : Type} [Medium σ] [Writable σ] (fs : List Field) {s : σ}
    (hs : Writable.Ready s) :
    ∃ t, WriteOp.performAll (fs.map write) s = .ok () t ∧
      Put Writable.written Writable.Ready fs.length (encodeAll (order s) fs) s t := by
  induction fs generalizing s with
  | nil => exact ⟨s, rfl, .refl hs⟩
  | cons f fs ih =>
    obtain ⟨t, hsend, hst⟩ := Writable.send_of_ready hs (f.encoding (order s))
    obtain ⟨u, hothers, htu⟩ := ih hst.ready
    have hfirst : f.write.perform s = .ok () t :=
      (WriteOp.perform_of_ok (f.payload_write (order s))).trans hsend
    rw [hst.order_eq] at htu
    refine ⟨u, (Action.bind_of_ok hfirst).trans hothers, ?_⟩
    rw [List.length_cons, Nat.add_comm, encodeAll_cons]
    exact hst.trans htu

/-- Both media take the same octets for a series of fields, and from these octets both give back
every value; nothing is left over then. Only the channel that reads has a bound on payloads. -/
theorem fields_round_trip (order : ByteOrder) (fs : List Field) (b b' : Buffer) (c c' : Channel)
    (hb : b.order = order) (hc : c.order = order) (hsink : c.SinkSteady)
    (hb' : b'.order = order) (hunread : b'.unread = encodeAll order fs)
    (hc' : c'.order = order) (hsource : c'.SourceSteady) (hahead : c'.ahead = encodeAll order fs)
    (hlimit : ∀ f ∈ fs, f.payloadLength ≤ c'.limit) :
    (∃ after, WriteOp.performAll (fs.map write) b = .ok () after ∧
      after.data = b.data ++ encodeAll order fs ∧
      after.counters = b.counters.addWrites fs.length (encodeAll order fs).length) ∧
    (∃ after, WriteOp.performAll (fs.map write) c = .ok () after ∧
      after.written = c.written ++ encodeAll order fs ∧
      after.counters = c.counters.addWrites fs.length (encodeAll order fs).length) ∧
    (∃ after, ReadOp.performAll (fs.map read) b' = .ok (fs.map answer) after ∧
      after.isExhausted = true ∧ after.position = b'.position + (encodeAll order fs).length ∧
      after.counters.withoutShortReads =
        (b'.counters.addReads (transfersAll fs) (encodeAll order fs).length).withoutShortReads) ∧
    (∃ after, ReadOp.performAll (fs.map read) c' = .ok (fs.map answer) after ∧
      after.ahead = [] ∧ after.consumed = c'.consumed + (encodeAll order fs).length ∧
      after.counters.withoutShortReads =
        (c'.counters.addReads (transfersAll fs)
          (encodeAll order fs).length).withoutShortReads) := by
  refine ⟨?_, ?_, ?_, ?_⟩
  · obtain ⟨after, hwrite, hput⟩ := put_writeAll fs (s := b) trivial
    rw [show Medium.order b = order from hb] at hput
    exact ⟨after, hwrite, hput.written_eq, hput.counters_eq⟩
  · obtain ⟨after, hwrite, hput⟩ := put_writeAll fs (s := c) hsink
    rw [show Medium.order c = order from hc] at hput
    exact ⟨after, hwrite, hput.written_eq, hput.counters_eq⟩
  · obtain ⟨after, hread, hleft, hposition, hcounters⟩ :=
      read_whole fs (s := b') trivial hb' hunread nofun
    exact ⟨after, hread, List.isEmpty_iff.mpr hleft, hposition, hcounters⟩
  · have hpermitted : ∀ f ∈ fs, ∀ max, payloadLimit c' = some max → f.payloadLength ≤ max := by
      rintro f hf max ⟨⟩
      exact hlimit f hf
    exact read_whole fs hsource hc' hahead hpermitted

theorem mixed_fields_round_trip :
    let fs : List Field := [.word .u16 (some .big) 0x0102,
      .string .short none "hé" (by decide) (by decide), .terminated "ok" (by decide),
      .run .i8 none [3, 4] (by decide)]
    let encoded : Bytes := [1, 2, 3, 0, 104, 195, 169, 111, 107, 0, 3, 4]
    let script : List Event := [.transfer 1, .fail .interrupt, .transfer 2]
    let sink := Channel.writer { script := script }
    let source := Channel.reader (.ofBytes encoded script)
    encodeAll .little fs = encoded ∧
      (∃ after, WriteOp.performAll (fs.map write) sink = .ok () after ∧ after.written = encoded) ∧
      (∃ after, ReadOp.performAll (fs.map read) source = .ok (fs.map answer) after ∧
        after.ahead = [] ∧ after.consumed = 12) := by
  intro fs encoded script sink source
  have hencoded : encodeAll .little fs = encoded := by decide
  have hdelays : ∀ event ∈ script, event.Delays := by decide
  obtain ⟨-, ⟨wrote, hwrite, hwritten, -⟩, -, ⟨after, hread, hleft, hconsumed, -⟩⟩ :=
    fields_round_trip .little fs .empty (.ofBytes encoded) sink source rfl rfl
      ⟨_, rfl, hdelays⟩ rfl hencoded.symm rfl ⟨_, rfl, hdelays, rfl⟩ hencoded.symm (by decide)
  rw [hencoded] at hwritten hconsumed
  exact ⟨hencoded, ⟨wrote, hwrite, hwritten⟩, ⟨after, hread, hleft, hconsumed⟩⟩

end Field
end OctetStream
