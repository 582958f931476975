import OctetStream.Message
import OctetStream.Proofs.Encoding
import OctetStream.Proofs.Failures
import OctetStream.Proofs.Frames

/-! What errors say. The numbers that an error carries are true of the place where it was met: of
the offset before the call and before the field that failed, of the size of the buffer, of the
octets of the run or the text that was asked for. -/

namespace OctetStream

open Medium

structure Site where
  -- The octets that the stream has consumed before the call.
  call : Nat
  -- The octets that it has consumed before the field that fails.
  field : Nat
  -- The octets that a buffer holds, read or not; a channel has no size.
  size : Option Nat
  -- The octets of the element run that is asked for.
  run : Option Nat := none
  -- The octets of the text that is written.
  text : Option Nat := none

def StreamError.TrueOf (site : Site) : StreamError → Prop
  | outOfBounds need left pos => left < need ∧ site.size = some (pos + left) ∧ site.call ≤ pos
  | lengthLimit len max =>
    max < len ∧ (site.size.isSome → ∃ octets, site.run = some octets ∧ Limits.maxCount < octets)
  | lengthOverflow len max => max < len ∧ max = 65535 ∧ site.text = some len
  | invalidUtf8 pos => pos = site.field
  | bufferTooSmall need size => size < need
  | trailingData remaining => 0 < remaining
  | _ => True

/-! ## Reads -/

def ReadOp.site (op : ReadOp) (call field : Nat) (size : Option Nat) : Site :=
  { call, field, size, run := op.runOctets }

theorem trueOf_of_runError {op : ReadOp} {e : StreamError} (h : op.runError = some e)
    (call field : Nat) (size : Option Nat) : e.TrueOf (op.site call field size) := by
  obtain ⟨len, max, rfl, hmax, hoctets⟩ := ReadOp.eq_lengthLimit_of_runError h
  exact ⟨hmax, fun _ => hoctets⟩

theorem Buffer.trueOf_of_read {op : ReadOp} {b after : Buffer} {e : StreamError} {call : Nat}
    (hcall : call ≤ b.position) (h : op.perform b = .error e after) :
    e.TrueOf (op.site call b.position (some b.size)) := by
  have hparts : RequestsFail (Beyond call b.size)
      (StreamError.TrueOf (op.site call b.position (some b.size))) :=
    requestsFail fun need left pos hneed hsize hpos => ⟨hneed, congrArg some hsize, hpos⟩
  have hends : Ends _ _ (op.perform b) := hparts.perform limitFails ⟨hcall, rfl⟩
    (fun f hrun => trueOf_of_runError hrun call b.position (some b.size)) rfl
  exact hends.failure_of_eq h

theorem Channel.trueOf_of_read {op : ReadOp} {c after : Channel} {e : StreamError} (call : Nat)
    (h : op.perform c = .error e after) : e.TrueOf (op.site call c.consumed none) := by
  have hparts : RequestsFail (fun _ : Channel => True)
      (StreamError.TrueOf (op.site call c.consumed none)) :=
    requestsFail (fun _ => trivial) trivial
  have hlimit : LimitFails (fun _ : Channel => True)
      (StreamError.TrueOf (op.site call c.consumed none)) :=
    fun d max len _ _ habove => ⟨habove, nofun⟩
  have hends : Ends _ _ (op.perform c) := hparts.perform hlimit trivial
    (fun f hrun => trueOf_of_runError hrun call c.consumed none) rfl
  exact hends.failure_of_eq h

/-! ## Writes -/

namespace WriteOp

def runOctets : WriteOp → Option Nat
  | run t _ values => some (values.length * t.width)
  | _ => none

def textOctets : WriteOp → Option Nat
  | string _ _ text => some (utf8 text).length
  | _ => none

def textCounts : WriteOp → Bool
  | string .long _ text => (utf8 text).length ≤ Limits.maxCount
  | _ => true

def site (op : WriteOp) (call : Nat) (size : Option Nat) : Site :=
  { call, field := call, size, run := op.runOctets, text := op.textOctets }

theorem trueOf_of_payload {op : WriteOp} (hcounts : op.textCounts = true) {order : ByteOrder}
    {e : StreamError} (h : op.payload order = .error e) (call : Nat) (size : Option Nat) :
    e.TrueOf (op.site call size) := by
  cases noPayload_of_payload h with
  | hex | cstring => trivial
  | run hlength =>
    obtain ⟨max, rfl, hmax, hoctets⟩ := eq_lengthLimit_of_runLength (congrArg errorOf hlength)
    exact ⟨hmax, fun _ => ⟨_, rfl, hoctets⟩⟩
  | @string field _ _ hlong =>
    cases field with
    | short => exact ⟨hlong, rfl, rfl⟩
    | long => exact absurd (of_decide_eq_true hcounts) (Nat.not_le.mpr hlong)

theorem trueOf_of_buffer {op : WriteOp} (hcounts : op.textCounts = true) {b after : Buffer}
    {e : StreamError} (h : op.perform b = .error e after) (call : Nat) (size : Option Nat) :
    e.TrueOf (op.site call size) := by
  rcases perform_eq_error h with ⟨hpayload, -⟩ | ⟨data, hsend⟩
  · exact trueOf_of_payload hcounts hpayload call size
  · cases hsend

theorem trueOf_of_channel {op : WriteOp} (hcounts : op.textCounts = true) {c after : Channel}
    {e : StreamError} (h : op.perform c = .error e after) (call : Nat) (size : Option Nat) :
    e.TrueOf (op.site call size) := by
  rcases perform_eq_error h with ⟨hpayload, -⟩ | ⟨data, hsend⟩
  · exact trueOf_of_payload hcounts hpayload call size
  · have hsent := Channel.sent c data
    rw [show c.send data = .error e after from hsend] at hsent
    cases hsent with
    | noSink absent => trivial
    | part accepted stop present fewer contents_eq => cases stop <;> trivial

theorem eq_error_of_performAll {σ : Type} [Medium σ] {ops : List WriteOp} {s after : σ}
    {e : StreamError} (h : performAll ops s = .error e after) :
    ∃ op ∈ ops, ∃ t, op.perform t = .error e after := by
  induction ops generalizing s with
  | nil => cases h
  | cons op ops ih =>
    rcases Action.eq_error_of_bind h with hfirst | ⟨_, t, -, hothers⟩
    · exact ⟨op, List.mem_cons_self, s, hfirst⟩
    · obtain ⟨op', hmem, hfailed⟩ := ih hothers
      exact ⟨op', List.mem_cons_of_mem _ hmem, hfailed⟩

end WriteOp

/-! ## Requests -/

namespace Request

def site (call : Nat) (size : Option Nat) : Request → Site
  | read op => op.site call call size
  | readInto dest => (ReadOp.into dest).site call call size
  | fillRun t dest order? => (ReadOp.fill t dest order?).site call call size
  | write op => op.site call size

def textCounts : Request → Bool
  | write op => op.textCounts
  | _ => true

theorem site_of_readOp {request : Request} {op : ReadOp} (h : request.readOp? = some op)
    (call : Nat) (size : Option Nat) : request.site call size = op.site call call size := by
  cases request with
  | write op => cases h
  | _ =>
    cases h
    rfl

end Request

namespace Buffer.Request

def site (b : Buffer) : Request → Site
  | stream request => request.site b.position (some b.size)
  | _ => { call := b.position, field := b.position, size := some b.size }

def textCounts : Request → Bool
  | stream request => request.textCounts
  | _ => true

theorem trueOf_of_lt {b : Buffer} {n : Nat} (h : b.remaining < n) :
    (StreamError.outOfBounds n b.remaining b.position).TrueOf
      { call := b.position, field := b.position, size := some b.size } :=
  ⟨h, rfl, Nat.le_refl _⟩

theorem trueOf_of_failure {b : Buffer} {request : Request} (hcounts : request.textCounts = true)
    {e : StreamError} (he : request.failure (request.perform b).1 = some e) :
    e.TrueOf (request.site b) := by
  cases request with
  | stream request =>
    cases hread : request.readOp? with
    | some op =>
      rw [site, Request.site_of_readOp hread]
      exact trueOf_of_read (Nat.le_refl _) (OctetStream.Request.perform_eq_error hread he)
    | none =>
      obtain ⟨op, rfl⟩ := OctetStream.Request.eq_write_of_readOp hread
      exact WriteOp.trueOf_of_buffer hcounts (Action.eq_error_of_settle he) _ _
  | consume n =>
    obtain ⟨after, hslice⟩ : ∃ after, Buffer.consume n b = .error e after :=
      ⟨_, Action.eq_error_of_settle he⟩
    rcases Nat.lt_or_ge b.remaining n with hlt | hle
    · rw [consume_of_lt hlt] at hslice
      cases hslice
      exact trueOf_of_lt hlt
    · rw [consume_of_le hle] at hslice
      cases hslice
  | peek n =>
    have hslice : errorOf (b.peek n) = some e := he
    rcases Nat.lt_or_ge b.remaining n with hlt | hle
    · rw [peek_of_lt hlt] at hslice
      cases hslice
      exact trueOf_of_lt hlt
    · rw [peek_of_le hle] at hslice
      cases hslice
  | reset => cases he

end Buffer.Request

namespace Channel.Request

def site (c : Channel) : Request → Site
  | stream request => request.site c.consumed none
  | flush => { call := c.consumed, field := c.consumed, size := none }

def textCounts : Request → Bool
  | stream request => request.textCounts
  | flush => true

theorem trueOf_of_flush {c after : Channel} {e : StreamError}
    (h : Channel.flush c = .error e after) (site : Site) : e.TrueOf site := by
  unfold Channel.flush at h
  split at h
  · cases h
  · split at h
    · cases h
    · cases h
      trivial

theorem trueOf_of_failure {c : Channel} {request : Request} (hcounts : request.textCounts = true)
    {e : StreamError} (he : request.failure (request.perform c).1 = some e) :
    e.TrueOf (request.site c) := by
  cases request with
  | stream request =>
    cases hread : request.readOp? with
    | some op =>
      rw [site, Request.site_of_readOp hread]
      exact trueOf_of_read c.consumed (OctetStream.Request.perform_eq_error hread he)
    | none =>
      obtain ⟨op, rfl⟩ := OctetStream.Request.eq_write_of_readOp hread
      exact WriteOp.trueOf_of_channel hcounts (Action.eq_error_of_settle he) _ _
  | flush => exact trueOf_of_flush (Action.eq_error_of_settle he) _

end Channel.Request

/-! ## Values -/

namespace Decoder

variable {α σ : Type} [Medium σ] {p : Decoder α} {s t : σ} {op : ReadOp}

inductive Reaches : Decoder α → σ → ReadOp → σ → Prop
  | here (op : ReadOp) (next : op.Value → Decoder α) (s : σ) : Reaches (.read op next) s op s
  | later {first : ReadOp} {next : first.Value → Decoder α} {v : first.Value} {s u t : σ}
    {op : ReadOp} (hfirst : first.perform s = .ok v u) (hrest : Reaches (next v) u op t) :
    Reaches (.read first next) s op t

theorem reaches_of_error {after : σ} {e : StreamError} (h : p.perform s = .error e after) :
    ∃ op t, p.Reaches s op t ∧ op.perform t = .error e after := by
  induction p generalizing s with
  | done a => cases h
  | read op next ih =>
    rcases Action.eq_error_of_bind h with hfirst | ⟨v, u, hfirst, hrest⟩
    · exact ⟨op, s, .here op next s, hfirst⟩
    · obtain ⟨op', t, hreaches, hfailed⟩ := ih v hrest
      exact ⟨op', t, .later hfirst hreaches, hfailed⟩

theorem Reaches.state {I : σ → Prop} (hparts : RequestsFail I fun _ => True)
    (h : p.Reaches s op t) (hs : I s) : I t := by
  induction h with
  | here op next s => exact hs
  | @later first next v s u t op hfirst hrest ih =>
    have hends : Ends I _ (first.perform s) :=
      hparts.perform (fun _ _ _ _ _ _ => trivial) hs (fun _ _ => trivial) trivial
    rw [hfirst] at hends
    cases hends with
    | ok state => exact ih state

end Decoder

namespace Codec

variable {α : Type} [Codec α] {e : StreamError}

def TrueOfWrite (σ : Type) [Medium σ] (v : α) (e : StreamError) : Prop :=
  ∃ op ∈ encoder v, (∃ t failed : σ, op.perform t = .error e failed) ∧
    ∀ call size, e.TrueOf (op.site call size)

def TrueOfRead {σ : Type} [Medium σ] (α : Type) [Codec α] (s : σ) (size : Option Nat)
    (e : StreamError) : Prop :=
  ∃ op t, (decoder : Decoder α).Reaches s op t ∧ (∃ failed, op.perform t = .error e failed) ∧
    e.TrueOf (op.site (offset s) (offset t) size)

/-- Whatever is done with a value, on a stream or apart from one, the errors are true. -/
structure ReportsTruly (α : Type) [Codec α] : Prop where
  encode_buffer : ∀ (v : α) (b after : Buffer) (e : StreamError),
    encodeStream v b = .error e after → TrueOfWrite Buffer v e
  encode_channel : ∀ (v : α) (c after : Channel) (e : StreamError),
    encodeStream v c = .error e after → TrueOfWrite Channel v e
  decode_buffer : ∀ (b after : Buffer) (e : StreamError),
    (decodeStream : Action Buffer α) b = .error e after → TrueOfRead α b (some b.size) e
  decode_channel : ∀ (c after : Channel) (e : StreamError),
    (decodeStream : Action Channel α) c = .error e after → TrueOfRead α c none e
  encode : ∀ (v : α) (e : StreamError), (encode v).result = .error e → TrueOfWrite Buffer v e
  encodedLen : ∀ (v : α) (e : StreamError), (encodedLen v).result = .error e →
    TrueOfWrite Buffer v e
  encodeInto : ∀ (v : α) (buf : Bytes) (e : StreamError),
    (encodeInto v buf).1.result = .error e →
      TrueOfWrite Buffer v e ∨ ∃ need size, e = .bufferTooSmall need size ∧ size < need
  decode : ∀ (data : Bytes) (e : StreamError), (decode data : Logged α).result = .error e →
    TrueOfRead α (Buffer.ofBytes data) (some data.length) e ∨
      ∃ remaining, e = .trailingData remaining ∧ 0 < remaining
  decodeInPlace : ∀ (old : α) (data : Bytes) (e : StreamError),
    (decodeInPlace old data).1.result = .error e →
      TrueOfRead α (Buffer.ofBytes data) (some data.length) e ∨
        ∃ remaining, e = .trailingData remaining ∧ 0 < remaining

section

variable (hcounts : ∀ v : α, ∀ op ∈ encoder v, op.textCounts = true) {v : α}
include hcounts

theorem trueOfWrite_buffer {b after : Buffer} (h : encodeStream v b = .error e after) :
    TrueOfWrite Buffer v e := by
  obtain ⟨op, hmem, t, hfailed⟩ := WriteOp.eq_error_of_performAll h
  exact ⟨op, hmem, ⟨t, after, hfailed⟩, WriteOp.trueOf_of_buffer (hcounts v op hmem) hfailed⟩

theorem trueOfWrite_channel {c after : Channel} (h : encodeStream v c = .error e after) :
    TrueOfWrite Channel v e := by
  obtain ⟨op, hmem, t, hfailed⟩ := WriteOp.eq_error_of_performAll h
  exact ⟨op, hmem, ⟨t, after, hfailed⟩, WriteOp.trueOf_of_channel (hcounts v op hmem) hfailed⟩

theorem trueOfWrite_encode (h : (encode v).result = .error e) : TrueOfWrite Buffer v e := by
  unfold encode at h
  cases hrun : encodeStream v Buffer.empty with
  | ok u after =>
    rw [hrun] at h
    cases h
  | error f after =>
    rw [hrun] at h
    cases h
    exact trueOfWrite_buffer hcounts hrun

theorem trueOfWrite_encodeInto {buf : Bytes} (h : (encodeInto v buf).1.result = .error e) :
    TrueOfWrite Buffer v e ∨ ∃ need size, e = .bufferTooSmall need size ∧ size < need := by
  cases hencode : (encode v).result with
  | error f =>
    rw [(encodeInto_of_error hencode).1] at h
    cases h
    exact Or.inl (trueOfWrite_encode hcounts hencode)
  | ok b =>
    rcases Nat.lt_or_ge buf.length b.length with hsmall | hfits
    · rw [(encodeInto_of_lt hencode hsmall).1] at h
      cases h
      exact Or.inr ⟨_, _, rfl, hsmall⟩
    · rw [(encodeInto_of_le hencode hfits).1] at h
      cases h

end

theorem trueOfRead_buffer {b after : Buffer}
    (h : (decodeStream : Action Buffer α) b = .error e after) :
    TrueOfRead α b (some b.size) e := by
  obtain ⟨op, t, hreaches, hfailed⟩ := Decoder.reaches_of_error h
  have hparts : RequestsFail (Buffer.Beyond b.position b.size) fun _ => True :=
    Buffer.requestsFail fun _ _ _ _ _ _ => trivial
  obtain ⟨hbehind, hsize⟩ := hreaches.state hparts b.beyond
  have htrue := Buffer.trueOf_of_read hbehind hfailed
  rw [hsize] at htrue
  exact ⟨op, t, hreaches, ⟨after, hfailed⟩, htrue⟩

theorem trueOfRead_channel {c after : Channel}
    (h : (decodeStream : Action Channel α) c = .error e after) : TrueOfRead α c none e := by
  obtain ⟨op, t, hreaches, hfailed⟩ := Decoder.reaches_of_error h
  exact ⟨op, t, hreaches, ⟨after, hfailed⟩, Channel.trueOf_of_read c.consumed hfailed⟩

theorem trueOfRead_decode {data : Bytes} (h : (decode data : Logged α).result = .error e) :
    TrueOfRead α (Buffer.ofBytes data) (some data.length) e ∨
      ∃ remaining, e = .trailingData remaining ∧ 0 < remaining := by
  cases hrun : (decodeStream : Action Buffer α) (Buffer.ofBytes data) with
  | error f after =>
    rw [decode_of_error hrun] at h
    cases h
    have htrue := trueOfRead_buffer hrun
    rw [← Buffer.length_data] at htrue
    exact Or.inl htrue
  | ok v after =>
    rw [decode_of_ok hrun] at h
    split at h
    · cases h
    · rename_i hleft
      cases h
      exact Or.inr ⟨_, rfl, List.length_pos_iff.mpr hleft⟩

theorem result_decodeInPlace {old : α} {data : Bytes}
    (h : (decodeInPlace old data).1.result = .error e) :
    (decode data : Logged α).result = .error e := by
  unfold decodeInPlace at h
  rcases hrun : (decode data : Logged α) with ⟨result, log⟩
  rw [hrun] at h
  cases result with
  | ok v => cases h
  | error f =>
    have hsame : (Except.error f : Except StreamError Unit) = .error e := h
    cases hsame
    rfl

theorem reportsTruly (hcounts : ∀ v : α, ∀ op ∈ encoder v, op.textCounts = true) :
    ReportsTruly α where
  encode_buffer _ _ _ _ := trueOfWrite_buffer hcounts
  encode_channel _ _ _ _ := trueOfWrite_channel hcounts
  decode_buffer _ _ _ := trueOfRead_buffer
  decode_channel _ _ _ := trueOfRead_channel
  encode _ _ := trueOfWrite_encode hcounts
  encodedLen v e h := trueOfWrite_encode hcounts ((encodedLen_eq_error_iff v e).mp h)
  encodeInto _ _ _ := trueOfWrite_encodeInto hcounts
  decode _ _ := trueOfRead_decode
  decodeInPlace _ _ _ h := trueOfRead_decode (result_decodeInPlace h)

end Codec

/-- Errors tell the truth. Whatever is asked of a buffer or of a channel and whatever is done with
one of the three messages, what an error says is so: a buffer misses octets behind the place that it
names, a length is above the bound that comes with it, a text that is none began at the place that
it names, and so on. Only texts of more octets than a count can express are left aside. -/
theorem errors_tell_the_truth :
    (∀ (b : Buffer) (request : Buffer.Request) (e : StreamError), request.textCounts = true →
      request.failure (request.perform b).1 = some e → e.TrueOf (request.site b)) ∧
    (∀ (c : Channel) (request : Channel.Request) (e : StreamError), request.textCounts = true →
      request.failure (request.perform c).1 = some e → e.TrueOf (request.site c)) ∧
    Codec.ReportsTruly Wow ∧ Codec.ReportsTruly Player ∧ Codec.ReportsTruly Grid := by
  refine ⟨fun b request e hcounts he => Buffer.Request.trueOf_of_failure hcounts he,
    fun c request e hcounts he => Channel.Request.trueOf_of_failure hcounts he, ?_, ?_, ?_⟩
  · exact Codec.reportsTruly fun w => List.all_eq_true.mp rfl
  · exact Codec.reportsTruly fun p => List.all_eq_true.mp rfl
  · exact Codec.reportsTruly fun g => List.all_eq_true.mp rfl

theorem missing_octets_are_reported_truly :
    let b := (Buffer.ofBytes [7, 4, 0, 104, 105]).advance 1
    let text := Buffer.Request.stream (.read (.string .short none))
    let c := Channel.reader (.ofBytes [1, 2])
    let run := Channel.Request.stream (.read (.run .u64 2305843009213693952 none))
    (text.failure (text.perform b).1 = some (.outOfBounds 4 2 3) ∧
      StreamError.TrueOf ⟨1, 1, some 5, none, none⟩ (.outOfBounds 4 2 3)) ∧
    (run.failure (run.perform c).1 =
        some (.lengthLimit 2305843009213693952 2305843009213693951) ∧
      StreamError.TrueOf ⟨0, 0, none, some 18446744073709551616, none⟩
        (.lengthLimit 2305843009213693952 2305843009213693951)) ∧
    (Codec.decode [2, 0, 7] : Logged Wow).result = .error (.outOfBounds 2 1 2) ∧
      Codec.TrueOfRead Wow (Buffer.ofBytes [2, 0, 7]) (some 3) (.outOfBounds 2 1 2) := by
  intro b text c run
  obtain ⟨hbuffer, hchannel, hwow, -, -⟩ := errors_tell_the_truth
  have htext : text.failure (text.perform b).1 = some (.outOfBounds 4 2 3) := by decide
  have hrun : run.failure (run.perform c).1 =
      some (.lengthLimit 2305843009213693952 2305843009213693951) := by decide
  have hcut : (Codec.decode [2, 0, 7] : Logged Wow).result = .error (.outOfBounds 2 1 2) := rfl
  refine ⟨⟨htext, hbuffer b text _ rfl htext⟩, ⟨hrun, hchannel c run _ rfl hrun⟩, hcut, ?_⟩
  rcases hwow.decode [2, 0, 7] _ hcut with hread | ⟨remaining, hleft, -⟩
  · exact hread
  · cases hleft

end OctetStream
