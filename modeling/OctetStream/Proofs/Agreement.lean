import OctetStream.Decoder
import OctetStream.Proofs.Alongside

/-! Programs of reads on a buffer and on a channel over the same octets. As long as reads succeed on
one they succeed on the other, and the first that fails does so on both, for one cause; only the
channel tells a length that is above its limit from octets that are missing. -/

namespace OctetStream

open Medium

variable {limit : Nat} {b : Buffer} {c : Channel}

theorem text_of_payload_error {σ : Type} [Medium σ] {field : LengthField}
    {order? : Option ByteOrder} {s s' t : σ} {len : Word field.primitive} {e : StreamError}
    (start : Nat)
    (hword : readWord field.primitive order? s = .ok len s')
    (hpayload : (permit len.toNat >>= fun _ => readBytes len.toNat) s' = .error e t) :
    (readWord field.primitive order? >>= fun len => permit len.toNat >>= fun _ =>
      readBytes len.toNat >>= fun got => ofExcept (textAt start got)) s = .error e t :=
  (Action.bind_of_ok hword).trans (Action.bind_bind_of_error hpayload)

namespace Level

-- The buffer has no limit, but a payload above that of the channel is also more than what is left.
theorem payload_of_lt (h : Level limit b c) {len : Nat} (hlen : limit < len) :
    (∃ left pos b', (permit len >>= fun _ => readBytes len) b =
        .error (.outOfBounds len left pos) b') ∧
      ∃ c', (permit len >>= fun _ => readBytes len) c = .error (.lengthLimit len limit) c' := by
  have hfew : b.remaining < len := Nat.lt_of_le_of_lt h.unread_le hlen
  have hrefused := Channel.permit_of_lt (h.limit_eq ▸ hlen)
  rw [h.limit_eq] at hrefused
  exact ⟨⟨_, _, _, (Action.bind_of_ok rfl).trans (Buffer.readBytes_of_lt hfew)⟩,
    c, Action.bind_of_error hrefused⟩

theorem readRun_of_lt (h : Level limit b c) {t : Primitive} {n len : Nat}
    {order? : Option ByteOrder} (hlength : runLength t n = .ok len) (hlen : limit < len) :
    (∃ left pos b', readRun t n order? b = .error (.outOfBounds len left pos) b') ∧
      ∃ c', readRun t n order? c = .error (.lengthLimit len limit) c' := by
  obtain ⟨⟨left, pos, b', hbuffer⟩, c', hchannel⟩ := h.payload_of_lt hlen
  rw [readRun_of_ok hlength, readRun_of_ok hlength]
  exact ⟨⟨left, pos, b', Action.bind_bind_of_error hbuffer⟩,
    c', Action.bind_bind_of_error hchannel⟩

theorem readWord_of_le (h : Level limit b c) (t : Primitive) (order? : Option ByteOrder)
    (hpresent : t.width ≤ b.unread.length) :
    let v := Word.get t (order?.getD b.order) (b.unread.take t.width)
    ∃ b' c', readWord t order? b = .ok v b' ∧ readWord t order? c = .ok v c' ∧
      Level limit b' c' := by
  intro v
  have hread : readWord t order? b = .ok v _ := Buffer.readWord_of_le hpresent
  obtain ⟨c', hchannel, hlevel⟩ := (Alongside.agreesWithin.readWord t order? b c h).of_ok hread
  exact ⟨_, c', hread, hchannel, hlevel⟩

theorem readString_of_lt (h : Level limit b c) {field : LengthField} {order? : Option ByteOrder}
    {len : Nat}
    (hdeclared : (ReadOp.string field order?).declaredLength b.order b.unread = some len)
    (hlen : limit < len) :
    (∃ left pos b', readString field order? b = .error (.outOfBounds len left pos) b') ∧
      ∃ c', readString field order? c = .error (.lengthLimit len limit) c' := by
  rw [ReadOp.declaredLength] at hdeclared
  split at hdeclared
  · obtain rfl := Option.some.inj hdeclared
    obtain ⟨b', c', hword, hword', hlevel⟩ := h.readWord_of_le field.primitive order? ‹_›
    obtain ⟨⟨left, pos, b'', hbuffer⟩, c'', hchannel⟩ := hlevel.payload_of_lt hlen
    have htext := text_of_payload_error b.position hword hbuffer
    have htext' := text_of_payload_error c.consumed hword' hchannel
    exact ⟨⟨left, pos, _, Buffer.atomically_of_error htext⟩, c'', htext'⟩
  · cases hdeclared

theorem perform_of_lt (h : Level limit b c) {op : ReadOp} (hrun : op.runError = none) {len : Nat}
    (hdeclared : op.declaredLength b.order b.unread = some len) (hlen : limit < len) :
    (∃ left pos b', op.perform b = .error (.outOfBounds len left pos) b') ∧
      ∃ c', op.perform c = .error (.lengthLimit len limit) c' := by
  cases op with
  | string field order? => exact h.readString_of_lt hdeclared hlen
  | run t n order? =>
    obtain ⟨total, hlength⟩ := eq_ok_of_errorOf hrun
    obtain rfl : total = len := (runLength_eq_ok hlength).symm.trans (Option.some.inj hdeclared)
    exact h.readRun_of_lt hlength hlen
  | _ => cases hdeclared

end Level

/-- The results of one read on both media. Which constructor applies is fixed by the lengths that
the read declares, apart from the outcome of a read within them. -/
inductive Agreement (limit : Nat) (op : ReadOp) (b : Buffer) :
    EStateM.Result StreamError Buffer op.Value → EStateM.Result StreamError Channel op.Value → Prop
  | answered {v b' c'} (within : op.Within limit b) (level : Level limit b' c') :
    Agreement limit op b (.ok v b') (.ok v c')
  | notText {pos b' c'} (within : op.Within limit b) :
    Agreement limit op b (.error (.invalidUtf8 pos) b') (.error (.invalidUtf8 pos) c')
  | cut {need left pos text b' c'} (within : op.Within limit b) :
    Agreement limit op b (.error (.outOfBounds need left pos) b') (.error (.sourceFailure text) c')
  | overLimit {len left pos b' c'} (runError_eq : op.runError = none)
    (declared_eq : op.declaredLength b.order b.unread = some len) (above : limit < len) :
    Agreement limit op b (.error (.outOfBounds len left pos) b')
      (.error (.lengthLimit len limit) c')
  | tooLong {len max b' c'} (runError_eq : op.runError = some (.lengthLimit len max)) :
    Agreement limit op b (.error (.lengthLimit len max) b') (.error (.lengthLimit len max) c')

namespace Level

theorem agreement_of_within (h : Level limit b c) (hlimit : limit ≤ Limits.maxAllocation)
    {op : ReadOp} (hstorable : op.Storable) (hwithin : op.Within limit b) :
    Agreement limit op b (op.perform b) (op.perform c) := by
  have hresults := Alongside.agreesWithin.perform hlimit h hstorable hwithin
  cases hb : op.perform b with
  | ok v b' =>
    obtain ⟨c', hc, hlevel⟩ := hresults.of_ok hb
    rw [hc]
    exact .answered hwithin hlevel
  | error e b' =>
    obtain ⟨f, c', hc, hcause⟩ := hresults.of_error id hb
    rw [hc]
    cases hcause with
    | notText pos => exact .notText hwithin
    | cut need left pos text => exact .cut hwithin

theorem agreement (h : Level limit b c) (hlimit : limit ≤ Limits.maxAllocation) {op : ReadOp}
    (hstorable : op.Storable) : Agreement limit op b (op.perform b) (op.perform c) := by
  cases hrun : op.runError with
  | some e =>
    obtain ⟨len, max, rfl, -⟩ := ReadOp.eq_lengthLimit_of_runError hrun
    rw [ReadOp.perform_of_runError hrun, ReadOp.perform_of_runError hrun]
    exact .tooLong hrun
  | none =>
    by_cases hover : ∃ len, op.declaredLength b.order b.unread = some len ∧ limit < len
    · obtain ⟨len, hdeclared, hlen⟩ := hover
      obtain ⟨⟨left, pos, b', hbuffer⟩, c', hchannel⟩ := h.perform_of_lt hrun hdeclared hlen
      rw [hbuffer, hchannel]
      exact .overLimit hrun hdeclared hlen
    · have hwithin : op.Within limit b :=
        ⟨hrun, fun len hdeclared => Nat.not_lt.mp fun hlen => hover ⟨len, hdeclared, hlen⟩⟩
      exact h.agreement_of_within hlimit hstorable hwithin

end Level

def Decoder.ReadsOnly {α σ : Type} [Medium σ] (P : ReadOp → Prop) : Decoder α → σ → Prop
  | done _, _ => True
  | read op next, s => P op ∧ ∀ v t, op.perform s = .ok v t → (next v).ReadsOnly P t

def untilFailure (limit : Nat) : Comparison Buffer Channel where
  states := Level limit
  failures _ _ _ _ := True
  waives _ := False

theorem Agreement.results {op : ReadOp} {r : EStateM.Result StreamError Buffer op.Value}
    {q : EStateM.Result StreamError Channel op.Value} (h : Agreement limit op b r q) :
    (untilFailure limit).Results r q := by
  cases h with
  | answered _ hlevel => exact ⟨rfl, hlevel⟩
  | _ => exact Or.inr trivial

theorem Level.results_run {α : Type} (hlimit : limit ≤ Limits.maxAllocation) {p : Decoder α}
    (h : Level limit b c) (hstorable : p.ReadsOnly ReadOp.Storable b) :
    (untilFailure limit).Results (p.perform b) (p.perform c) := by
  induction p generalizing b c with
  | done a => exact ⟨rfl, h⟩
  | read op next ih =>
    obtain ⟨hop, hnext⟩ := hstorable
    refine (h.agreement hlimit hop).results.bind_at fun v b' c' hread hlevel => ?_
    exact ih v hlevel (hnext v b' hread)

theorem level_start {data : Bytes} (order : ByteOrder) {script : List Event}
    (hscript : ∀ event ∈ script, event.Delays) (hdata : data.length ≤ limit) :
    Level limit (Buffer.ofBytes data order)
      (Channel.reader (.ofBytes data script) { order := order, payloadLimit := limit }) where
  steady := ⟨_, rfl, hscript, rfl⟩
  ahead_eq := rfl
  order_eq := rfl
  limit_eq := rfl
  offset_eq := rfl
  reads_eq := rfl
  bytesRead_eq := rfl
  unread_le := hdata

/-- Over the same octets, of which there are no more than the channel takes as a payload, a program
of reads answers the same on both media as long as no read fails, and then both have come equally
far. The read after that succeeds on both with one value or fails on both for one cause. -/
theorem reads_agree_up_to_failure {α : Type} (data : Bytes) (order : ByteOrder)
    {script : List Event} (hscript : ∀ event ∈ script, event.Delays) {limit : Nat}
    (hdata : data.length ≤ limit) (hlimit : limit ≤ Limits.maxAllocation) (earlier : Decoder α)
    (hearlier : earlier.ReadsOnly ReadOp.Storable (Buffer.ofBytes data order)) :
    let b := Buffer.ofBytes data order
    let c := Channel.reader (.ofBytes data script) { order := order, payloadLimit := limit }
    (∀ a, (∃ b', earlier.perform b = .ok a b') ↔ ∃ c', earlier.perform c = .ok a c') ∧
    ∀ a b' c', earlier.perform b = .ok a b' → earlier.perform c = .ok a c' →
      b'.position = c'.consumed ∧ b'.counters.reads = c'.counters.reads ∧
      b'.counters.bytesRead = c'.counters.bytesRead ∧
      ∀ op : ReadOp, op.Storable → Agreement limit op b' (op.perform b') (op.perform c') := by
  intro b c
  have hresults := (level_start order hscript hdata).results_run hlimit hearlier
  refine ⟨fun a => hresults.ok_iff (fun _ => id) a, ?_⟩
  intro a b' c' hb hc
  rw [hb, hc] at hresults
  obtain ⟨-, hlevel⟩ := hresults
  exact ⟨hlevel.offset_eq.symm, hlevel.reads_eq.symm, hlevel.bytesRead_eq.symm,
    fun op hop => hlevel.agreement hlimit hop⟩

theorem overstated_text_agrees :
    let data : Bytes := [1, 5, 0, 104]
    let script : List Event := [.fail .interrupt, .transfer 1]
    let b := Buffer.ofBytes data .little
    let c := Channel.reader (.ofBytes data script) { order := .little, payloadLimit := 4 }
    let earlier := Decoder.ofRead (.word .u8 none)
    let op := ReadOp.string .short none
    ∃ b' c', earlier.perform b = .ok 1 b' ∧ earlier.perform c = .ok 1 c' ∧
      b'.position = c'.consumed ∧ Agreement 4 op b' (op.perform b') (op.perform c') ∧
      (∃ after, op.perform b' = .error (.outOfBounds 5 1 3) after) ∧
      ∃ after, op.perform c' = .error (.lengthLimit 5 4) after := by
  intro data script b c earlier op
  have hdelays : ∀ event ∈ script, event.Delays := by decide
  have hdata : data.length ≤ 4 := by decide
  have hearlier : earlier.ReadsOnly ReadOp.Storable b := ⟨trivial, fun _ _ _ => trivial⟩
  obtain ⟨hvalues, hnext⟩ :=
    reads_agree_up_to_failure data .little hdelays hdata (by decide) earlier hearlier
  have hb : earlier.perform b = .ok 1 (b.advance 1) := rfl
  obtain ⟨c', hc⟩ := (hvalues 1).mp ⟨_, hb⟩
  obtain ⟨hposition, -, -, hagreement⟩ := hnext 1 _ c' hb hc
  have hop := hagreement op trivial
  have hfails : op.perform (b.advance 1) = .error (.outOfBounds 5 1 3) _ := rfl
  refine ⟨_, c', hb, hc, hposition, hop, ⟨_, hfails⟩, ?_⟩
  have hdeclared : op.declaredLength .little (b.advance 1).unread = some 5 := rfl
  rw [hfails] at hop
  cases hc' : op.perform c' with
  | ok v after =>
    rw [hc'] at hop
    cases hop
  | error f after =>
    rw [hc'] at hop
    cases hop with
    | cut hwithin => exact absurd (hwithin.declared_le 5 hdeclared) (by decide)
    | overLimit => exact ⟨after, rfl⟩

end OctetStream
