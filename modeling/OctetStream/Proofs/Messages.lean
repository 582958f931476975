import OctetStream.Message
import OctetStream.Proofs.Buffer.CString
import OctetStream.Proofs.Buffer.Elements
import OctetStream.Proofs.Encoding
import OctetStream.Proofs.Frames
import OctetStream.Proofs.RoundTrip

/-! Messages that are encoded and decoded again. A decoder that asks for fields gets their values
from the octets of these fields, so what a message comes back as is found by laying what its decoder
asks for over what its encoder put. Where the two differ, the difference is exact: a length that was
cut to 16 bits, a count that is not the number of values, a tag that does not fit its field. -/

namespace OctetStream

open Medium

namespace Decoder

variable {α : Type} {p q : Decoder α} {fs : List Field}

/-- Given the values of these fields, one after the other, the program goes on as `q`. -/
inductive Asks : Decoder α → List Field → Decoder α → Prop
  | nil (p : Decoder α) : Asks p [] p
  | cons (f : Field) {next : f.read.Value → Decoder α} {fs : List Field} {q : Decoder α}
    (h : Asks (next f.value) fs q) : Asks (.read f.read next) (f :: fs) q

namespace Asks

theorem bytes {n : Nat} {next : Bytes → Decoder α} (data : Bytes)
    (stored : data.length ≤ Limits.maxAllocation) (hn : data.length = n)
    (h : Asks (next data) fs q) : Asks (.read (.bytes n) next) (.bytes data stored :: fs) q := by
  subst hn
  exact .cons (.bytes data stored) h

theorem array {n : Nat} {t : Primitive} {order? : Option ByteOrder}
    {next : List (Word t) → Decoder α} (values : List (Word t))
    (stored : values.length * t.width ≤ Limits.maxAllocation) (hn : values.length = n)
    (h : Asks (next values) fs q) :
    Asks (.read (.array t n order?) next) (.array t order? values stored :: fs) q := by
  subst hn
  exact .cons (.array t order? values stored) h

theorem run {n : Nat} {t : Primitive} {order? : Option ByteOrder}
    {next : List (Word t) → Decoder α} (values : List (Word t))
    (stored : values.length * t.width ≤ Limits.maxAllocation) (hn : values.length = n)
    (h : Asks (next values) fs q) :
    Asks (.read (.run t n order?) next) (.run t order? values stored :: fs) q := by
  subst hn
  exact .cons (.run t order? values stored) h

theorem trans {r : Decoder α} {gs : List Field} (hp : Asks p fs q) (hq : Asks q gs r) :
    Asks p (fs ++ gs) r := by
  induction hp with
  | nil p => exact hq
  | cons f h ih => exact .cons f (ih hq)

open Readable in
theorem perform {σ : Type} [Medium σ] [Readable σ] (h : Asks p fs q) {s : σ} {rest : Bytes}
    (hs : Ready s) (hahead : ahead s = Field.encodeAll (order s) fs ++ rest)
    (hlimit : ∀ f ∈ fs, ∀ max, payloadLimit s = some max → f.payloadLength ≤ max) :
    ∃ t, p.perform s = q.perform t ∧
      Passed ahead Ready (Field.transfersAll fs) (Field.encodeAll (order s) fs).length s t := by
  induction h generalizing s with
  | nil p => exact ⟨s, rfl, .refl hs⟩
  | cons f h ih =>
    rw [Field.encodeAll_cons, List.append_assoc] at hahead
    obtain ⟨u, hread, hsu⟩ := yields_read f hs hahead (hlimit f List.mem_cons_self)
    have hnext := hsu.ahead_append hahead
    rw [← hsu.limit_eq] at hlimit
    rw [← hsu.order_eq] at hnext
    obtain ⟨t, hothers, hut⟩ := ih hsu.ready hnext fun g hg => hlimit g (List.mem_cons_of_mem _ hg)
    rw [hsu.order_eq] at hut
    refine ⟨t, (Action.bind_of_ok hread).trans hothers, ?_⟩
    rw [Field.encodeAll_cons, List.length_append]
    exact hsu.trans hut

theorem perform_buffer (h : Asks p fs q) {b : Buffer} {rest : Bytes}
    (hunread : b.unread = Field.encodeAll b.order fs ++ rest) :
    ∃ after, p.perform b = q.perform after ∧ after.unread = rest ∧ after.order = b.order ∧
      after.position = b.position + (Field.encodeAll b.order fs).length := by
  obtain ⟨after, hperform, hpassed⟩ := h.perform (s := b) trivial hunread (fun _ _ => nofun)
  exact ⟨after, hperform, hpassed.ahead_append hunread, hpassed.order_eq, hpassed.offset_eq⟩

end Asks
end Decoder

namespace WriteOp

theorem encodeAll_cons (order : ByteOrder) (op : WriteOp) (ops : List WriteOp) :
    encodeAll order (op :: ops) =
      (op.payload order).bind fun data => (encodeAll order ops).map (data ++ ·) := by
  unfold encodeAll
  rw [firstError, payloads]
  cases op.payload order with
  | error e => rfl
  | ok data => cases firstError order ops <;> rfl

theorem encodeAll_write_append (order : ByteOrder) (fs : List Field) (ops : List WriteOp) :
    encodeAll order (fs.map Field.write ++ ops) =
      (encodeAll order ops).map (Field.encodeAll order fs ++ ·) := by
  induction fs with
  | nil => cases h : encodeAll order ops <;> simp [Field.encodeAll, h, Except.map]
  | cons f fs ih =>
    rw [List.map_cons, List.cons_append, encodeAll_cons, ih, f.payload_write, Field.encodeAll_cons]
    cases encodeAll order ops <;> simp [Except.bind, Except.map]

theorem encodeAll_write (order : ByteOrder) (fs : List Field) :
    encodeAll order (fs.map Field.write) = .ok (Field.encodeAll order fs) := by
  have h := encodeAll_write_append order fs []
  rw [List.append_nil] at h
  rw [h]
  exact congrArg Except.ok (List.append_nil _)

end WriteOp

namespace Codec

variable {α : Type} [Codec α]

theorem decode_of_asks {fs : List Field} {v : α} (h : Decoder.Asks decoder fs (.done v))
    (rest : Bytes) :
    (decode (Field.encodeAll .default fs ++ rest) : Logged α).result =
      if rest.length = 0 then .ok v else .error (.trailingData rest.length) := by
  obtain ⟨after, hperform, hunread, -⟩ :=
    h.perform_buffer (b := Buffer.ofBytes (Field.encodeAll .default fs ++ rest)) rfl
  have hdecode : decodeStream (Buffer.ofBytes _) = .ok v after := hperform
  simp only [decode_of_ok hdecode, hunread, List.length_eq_zero_iff]

end Codec

open Codec Decoder

namespace Wow

theorem toNat_length (w : Wow) :
    (BitVec.ofNat 16 w.amazing.length).toNat = w.amazing.length % 65536 :=
  BitVec.toNat_ofNat ..

theorem result_decode (w : Wow) :
    let m := w.amazing.length % 65536
    ∃ b, (encode w).result = .ok b ∧ (decode b : Logged Wow).result =
      if w.amazing.length - m = 0 then .ok ⟨w.amazing.take m⟩
      else .error (.trailingData (w.amazing.length - m)) := by
  intro m
  have hm : (w.amazing.take m).length = m := List.length_take_of_le (Nat.mod_le ..)
  have hstored : (w.amazing.take m).length ≤ Limits.maxAllocation := by
    have hlt : m < 65536 := Nat.mod_lt _ (by decide)
    rw [hm, Limits.maxAllocation]
    omega
  let len : Word .u16 := .ofNat _ w.amazing.length
  have hasks : Asks decoder [.word .u16 none len, .bytes _ hstored]
      (.done (⟨w.amazing.take m⟩ : Wow)) :=
    .cons (.word .u16 none len) (.bytes _ hstored (hm.trans (toNat_length w).symm) (.nil _))
  have hdecode := decode_of_asks hasks (w.amazing.drop m)
  rw [List.length_drop] at hdecode
  refine ⟨_, ?_, hdecode⟩
  rw [result_encode]
  show Except.ok (len.put .default ++ (w.amazing ++ [])) =
    .ok ((len.put .default ++ (w.amazing.take m ++ [])) ++ w.amazing.drop m)
  rw [List.append_nil, List.append_nil, List.append_assoc, List.take_append_drop]

theorem decode_encode (w : Wow) :
    let l := w.amazing.length
    ∃ b, (encode w).result = .ok b ∧ ((decode b).result = .ok w ↔ l ≤ 65535) ∧
      (65535 < l → (decode b : Logged Wow).result = .error (.trailingData (l - l % 65536))) := by
  intro l
  obtain ⟨b, hencode, hdecode⟩ := w.result_decode
  refine ⟨b, hencode, ?_⟩
  rw [hdecode]
  rcases Nat.lt_or_ge 65535 l with hlong | hshort
  · have hleft : ¬l - l % 65536 = 0 := by omega
    rw [if_neg hleft]
    exact ⟨⟨nofun, fun h => absurd hlong (Nat.not_lt.mpr h)⟩, fun _ => rfl⟩
  · have hall : l % 65536 = l := Nat.mod_eq_of_lt (Nat.lt_succ_of_le hshort)
    have hwhole : w.amazing.take l = w.amazing := List.take_length
    rw [hall, Nat.sub_self, if_pos rfl, hwhole]
    exact ⟨⟨fun _ => hshort, fun _ => rfl⟩, fun h => absurd h (Nat.not_lt.mpr hshort)⟩

end Wow

namespace Grid

theorem ofFn_toList (corners : Vector (Word .u16) 4) :
    Vector.ofFn (fun i : Fin 4 => corners.toList.getD i 0) = corners := by
  ext i hi
  simp

variable (g : Grid)

theorem length_corners : g.corners.toList.length = 4 := by simp

theorem stored_corners : g.corners.toList.length * Primitive.width .u16 ≤ Limits.maxAllocation := by
  rw [length_corners]
  decide

def head : List Field :=
  [.array .u16 none g.corners.toList g.stored_corners, .word .u8 none g.count]

theorem length_head : (Field.encodeAll .default g.head).length = 9 := by
  simp [head, Field.encodeAll, Field.encoding, Word.length_putAll, Word.length_put, Primitive.width]

theorem asks_head : ∃ next, Asks (decoder : Decoder Grid) g.head
      (.read (.run .f32 g.count.toNat none) next) ∧
    ∀ weights, next weights = .done { g with weights } := by
  refine ⟨_, .array g.corners.toList g.stored_corners g.length_corners
    (.cons (.word .u8 none g.count) (.nil _)), fun weights => ?_⟩
  exact congrArg (fun corners => Decoder.done { g with corners, weights }) (ofFn_toList g.corners)

theorem result_encode (hcount : g.weights.length * 4 ≤ Limits.maxCount) :
    (encode g).result =
      .ok (Field.encodeAll .default g.head ++ Word.putAll .default g.weights) := by
  have hlength : runLength .f32 g.weights.length = .ok (g.weights.length * 4) := if_pos hcount
  have hweights : (WriteOp.run .f32 none g.weights).payload .default =
      .ok (Word.putAll .default g.weights) := Buffer.payload_of_values hlength rfl .default
  rw [Codec.result_encode]
  show WriteOp.encodeAll .default (g.head.map Field.write ++ [.run .f32 none g.weights]) = _
  rw [WriteOp.encodeAll_write_append, WriteOp.encodeAll_cons, hweights]
  exact congrArg (fun b => Except.ok (Field.encodeAll .default g.head ++ b)) (List.append_nil _)

variable {g}

theorem result_decode_of_le (h : g.count.toNat ≤ g.weights.length) :
    let b := Field.encodeAll .default g.head ++ Word.putAll .default g.weights
    let left := 4 * (g.weights.length - g.count.toNat)
    (decode b : Logged Grid).result =
      if left = 0 then .ok { g with weights := g.weights.take g.count.toNat }
      else .error (.trailingData left) := by
  intro b left
  let wanted := g.weights.take g.count.toNat
  have hwanted : wanted.length = g.count.toNat := List.length_take_of_le h
  have hstored : wanted.length * Primitive.width .f32 ≤ Limits.maxAllocation := by
    have hlt : g.count.toNat < 256 := g.count.isLt
    rw [hwanted, Primitive.width, Limits.maxAllocation]
    omega
  obtain ⟨next, hhead, hnext⟩ := g.asks_head
  have hasks : Asks decoder (g.head ++ [.run .f32 none wanted hstored])
      (.done { g with weights := wanted }) :=
    hhead.trans (.run wanted hstored hwanted (hnext wanted ▸ .nil _))
  have hb : b = Field.encodeAll .default (g.head ++ [.run .f32 none wanted hstored]) ++
      Word.putAll .default (g.weights.drop g.count.toNat) := by
    rw [Field.encodeAll_concat, List.append_assoc]
    show Field.encodeAll .default g.head ++ Word.putAll .default g.weights =
      Field.encodeAll .default g.head ++ (Word.putAll .default wanted ++ _)
    rw [← Word.putAll_append, List.take_append_drop]
  have hleft : (Word.putAll .default (g.weights.drop g.count.toNat)).length = left := by
    rw [Word.length_putAll, List.length_drop, Nat.mul_comm]
    rfl
  rw [hb, decode_of_asks hasks, hleft]

theorem result_decode_of_lt (h : g.weights.length < g.count.toNat) :
    let b := Field.encodeAll .default g.head ++ Word.putAll .default g.weights
    (decode b : Logged Grid).result =
      .error (.outOfBounds (4 * g.count.toNat) (4 * g.weights.length) 9) := by
  intro b
  obtain ⟨next, hasks, -⟩ := g.asks_head
  obtain ⟨after, hperform, hunread, -, hposition⟩ :=
    hasks.perform_buffer (b := Buffer.ofBytes b) rfl
  have hremaining : after.remaining = g.weights.length * 4 := by
    show after.unread.length = _
    rw [hunread, Word.length_putAll]
    rfl
  have hnine : after.position = 9 := by
    rw [hposition]
    exact (Nat.zero_add _).trans g.length_head
  have hcount : g.count.toNat * Primitive.width .f32 ≤ Limits.maxCount := by
    have hlt : g.count.toNat < 256 := g.count.isLt
    rw [Primitive.width, Limits.maxCount]
    omega
  obtain ⟨last, hread, -⟩ := Buffer.readRun_of_remaining_lt (b := after) none hcount
    (by rw [hremaining]; exact Nat.mul_lt_mul_of_pos_right h (by decide))
  rw [hremaining, hnine] at hread
  have hfailed := Action.bind_of_error (f := fun weights => (next weights).perform) hread
  rw [decode_of_error (hperform.trans hfailed), Nat.mul_comm 4, Nat.mul_comm 4]
  rfl

theorem decode_encode (g : Grid) :
    let c := g.count.toNat
    let k := g.weights.length
    k * 4 ≤ Limits.maxCount → ∃ b, (encode g).result = .ok b ∧
      ((decode b).result = .ok g ↔ c = k) ∧
      (c < k → (decode b : Logged Grid).result = .error (.trailingData (4 * (k - c)))) ∧
      (k < c → (decode b : Logged Grid).result = .error (.outOfBounds (4 * c) (4 * k) 9)) := by
  intro c k hcount
  refine ⟨_, g.result_encode hcount, ?_⟩
  rcases Nat.lt_or_ge k c with hmore | hle
  · rw [result_decode_of_lt hmore]
    exact ⟨⟨nofun, fun h => absurd h (Nat.ne_of_gt hmore)⟩,
      fun h => absurd h (Nat.lt_asymm hmore), fun _ => rfl⟩
  · rw [result_decode_of_le hle]
    rcases Nat.lt_or_eq_of_le hle with hless | hequal
    · have hleft : ¬4 * (k - c) = 0 := by omega
      rw [if_neg hleft]
      exact ⟨⟨nofun, fun h => absurd h (Nat.ne_of_lt hless)⟩, fun _ => rfl,
        fun h => absurd h (Nat.not_lt.mpr hle)⟩
    · have hwhole : g.weights.take g.count.toNat = g.weights :=
        List.take_of_length_le (Nat.le_of_eq hequal.symm)
      rw [if_pos (show 4 * (k - c) = 0 by omega), hwhole]
      exact ⟨⟨fun _ => hequal, fun _ => rfl⟩, fun h => absurd hequal (Nat.ne_of_lt h),
        fun h => absurd h (Nat.not_lt.mpr hle)⟩

end Grid

namespace Player

variable (p : Player)

def head : List Field :=
  [.word .u8 none p.hp, .word .i16 none p.sp, .word .u32 (some .big) p.id, .word .i64 none p.score,
    .word .f32 none p.speed, .word .f64 none p.heading]

theorem result_encode_of_lt (h : 65535 < (utf8 p.name).length) :
    (encode p).result = .error (.lengthOverflow (utf8 p.name).length 65535) := by
  have hname : (WriteOp.string .short none p.name).payload .default =
      .error (.lengthOverflow (utf8 p.name).length 65535) := if_neg (Nat.not_le.mpr h)
  rw [Codec.result_encode]
  show WriteOp.encodeAll .default (p.head.map Field.write ++ .string .short none p.name :: _) = _
  rw [WriteOp.encodeAll_write_append, WriteOp.encodeAll_cons, hname]
  rfl

theorem result_encode_of_le (h : (utf8 p.name).length ≤ 65535) :
    ∃ b, (encode p).result = .ok b := by
  have hname : (WriteOp.string .short none p.name).payload .default =
      .ok _ := if_pos h
  rw [Codec.result_encode]
  show ∃ b, WriteOp.encodeAll .default
    (p.head.map Field.write ++ .string .short none p.name :: _) = .ok b
  rw [WriteOp.encodeAll_write_append, WriteOp.encodeAll_cons, hname]
  exact ⟨_, rfl⟩

theorem encode_eq_error_iff (e : StreamError) :
    (encode p).result = .error e ↔
      65535 < (utf8 p.name).length ∧ e = .lengthOverflow (utf8 p.name).length 65535 := by
  rcases Nat.lt_or_ge 65535 (utf8 p.name).length with hlong | hshort
  · rw [p.result_encode_of_lt hlong]
    exact ⟨fun h => ⟨hlong, (Except.error.inj h).symm⟩, fun h => congrArg Except.error h.2.symm⟩
  · obtain ⟨b, hb⟩ := p.result_encode_of_le hshort
    rw [hb]
    exact ⟨nofun, fun h => absurd h.1 (Nat.not_lt.mpr hshort)⟩

section

variable {p} (hshort : (utf8 p.name).length ≤ 65535)
  (hclean : Bytes.nul ∉ utf8 p.motto) (hfits : p.inventory.amazing.length ≤ 65535)

def front : List Field :=
  p.head ++ [.string .short none p.name hshort (Nat.le_trans hshort (by decide))]

def back : List Field :=
  [.terminated p.motto hclean, .word .u16 none (.ofNat _ p.inventory.amazing.length),
    .bytes p.inventory.amazing (Nat.le_trans hfits (by decide)), .word .u32 none p.crc]

theorem length_front :
    (Field.encodeAll .default (front hshort)).length = 29 + (utf8 p.name).length := by
  simp only [front, head, Field.encodeAll, Field.encoding, List.cons_append, List.nil_append,
    List.flatMap_cons, List.flatMap_nil, List.length_append, Word.length_put,
    ByteOrder.length_encode, List.length_nil, Primitive.width, LengthField.width,
    LengthField.primitive]
  omega

theorem asks_front : ∃ next, Asks (decoder : Decoder Player) (front hshort)
      (.read (.cstring tagWidth) next) ∧
    ∀ tag, Asks (next tag) (back hclean hfits) (.done { p with tag }) := by
  have hlength : p.inventory.amazing.length =
      (BitVec.ofNat 16 p.inventory.amazing.length).toNat := by
    rw [p.inventory.toNat_length, Nat.mod_eq_of_lt (Nat.lt_succ_of_le hfits)]
  refine ⟨_, .cons (.word .u8 none p.hp) <| .cons (.word .i16 none p.sp) <|
    .cons (.word .u32 (some .big) p.id) <| .cons (.word .i64 none p.score) <|
    .cons (.word .f32 none p.speed) <| .cons (.word .f64 none p.heading) <|
    .cons (.string .short none p.name hshort _) <| .nil _, fun tag => ?_⟩
  exact .cons (.terminated p.motto hclean) <|
    .cons (.word .u16 none (.ofNat _ p.inventory.amazing.length)) <|
    .bytes p.inventory.amazing _ hlength <| .cons (.word .u32 none p.crc) <| .nil _

theorem result_encode_of_fields :
    (encode p).result = .ok (Field.encodeAll .default (front hshort) ++
      ((utf8 p.tag).padTo tagWidth ++ Field.encodeAll .default (back hclean hfits))) := by
  have htag : (WriteOp.cstring (utf8 p.tag) tagWidth).payload .default =
      .ok ((utf8 p.tag).padTo tagWidth) := by
    have hwidth : ¬Limits.maxAllocation < tagWidth := by decide
    rw [WriteOp.payload, if_neg hwidth]
  rw [Codec.result_encode]
  show WriteOp.encodeAll .default ((front hshort).map Field.write ++
    .cstring (utf8 p.tag) tagWidth :: (back hclean hfits).map Field.write) = _
  rw [WriteOp.encodeAll_write_append, WriteOp.encodeAll_cons, htag, WriteOp.encodeAll_write]
  rfl

theorem result_decode :
    let t := Bytes.untilNul ((utf8 p.tag).take tagWidth)
    let b := Field.encodeAll .default (front hshort) ++
      ((utf8 p.tag).padTo tagWidth ++ Field.encodeAll .default (back hclean hfits))
    (∀ tag, ofUtf8? t = some tag → (decode b).result = .ok { p with tag }) ∧
    (ofUtf8? t = none → (decode b : Logged Player).result =
      .error (.invalidUtf8 (29 + (utf8 p.name).length))) := by
  intro t b
  obtain ⟨next, hfront, hback⟩ := asks_front hshort hclean hfits
  obtain ⟨before, hperform, hunread, horder, hposition⟩ :=
    hfront.perform_buffer (b := Buffer.ofBytes b) rfl
  have hstart : before.position = 29 + (utf8 p.name).length := by
    rw [hposition]
    exact (Nat.zero_add _).trans (length_front hshort)
  obtain ⟨htag, hbehind, -⟩ := Buffer.readCStringBytes_of_padTo hunread
  rw [Bytes.padTo, Bytes.untilNul_append_replicate] at htag
  refine ⟨fun tag htext => ?_, fun htext => ?_⟩
  · have hread : readCString tagWidth before = .ok tag _ := Buffer.textOf_of_text htag htext
    have hfields : (before.advance tagWidth).unread =
        Field.encodeAll (before.advance tagWidth).order (back hclean hfits) ++ [] := by
      rw [hbehind, List.append_nil]
      exact congrArg (Field.encodeAll · _) horder.symm
    obtain ⟨after, hrest, hnone, -⟩ := (hback tag).perform_buffer hfields
    have hdecode : decodeStream (Buffer.ofBytes b) = .ok { p with tag } after :=
      hperform.trans ((Action.bind_of_ok hread).trans hrest)
    rw [decode_of_ok hdecode, if_pos hnone]
  · obtain ⟨failed, hread⟩ := Buffer.textOf_of_not_text htag htext
    rw [hstart] at hread
    exact decode_of_error (hperform.trans (Action.bind_of_error hread))

end

theorem decode_encode (p : Player) :
    let n := (utf8 p.name).length
    let t := Bytes.untilNul ((utf8 p.tag).take 8)
    (∀ e, (encode p).result = .error e ↔ 65535 < n ∧ e = .lengthOverflow n 65535) ∧
    (n ≤ 65535 → p.inventory.amazing.length ≤ 65535 → Bytes.nul ∉ utf8 p.motto →
      ∃ b, (encode p).result = .ok b ∧
        (∀ tag, ofUtf8? t = some tag → (decode b).result = .ok { p with tag }) ∧
        (ofUtf8? t = none → (decode b : Logged Player).result = .error (.invalidUtf8 (29 + n)))) :=
  ⟨p.encode_eq_error_iff, fun hshort hfits hclean =>
    ⟨_, result_encode_of_fields hshort hclean hfits, result_decode hshort hclean hfits⟩⟩

end Player

/-- What messages come back as. Octets behind a 16-bit length come back if they are no longer than
it can say; otherwise what the cut length does not cover is left over. A grid comes back if its
count is the number of its weights; otherwise those that were not asked for are left over, or those
that are missing are missed. A player whose name fits its length field is encoded and, if its
inventory does too and its motto holds no NUL, comes back with what the tag field could hold of its
tag, if that is text. -/
theorem messages_decode_exactly (w : Wow) (g : Grid) (p : Player) :
    (let l := w.amazing.length
      ∃ b, (encode w).result = .ok b ∧ ((decode b).result = .ok w ↔ l ≤ 65535) ∧
        (65535 < l → (decode b : Logged Wow).result = .error (.trailingData (l - l % 65536)))) ∧
    (let c := g.count.toNat
      let k := g.weights.length
      k * 4 ≤ Limits.maxCount → ∃ b, (encode g).result = .ok b ∧
        ((decode b).result = .ok g ↔ c = k) ∧
        (c < k → (decode b : Logged Grid).result = .error (.trailingData (4 * (k - c)))) ∧
        (k < c → (decode b : Logged Grid).result = .error (.outOfBounds (4 * c) (4 * k) 9))) ∧
    (let n := (utf8 p.name).length
      let t := Bytes.untilNul ((utf8 p.tag).take 8)
      (∀ e, (encode p).result = .error e ↔ 65535 < n ∧ e = .lengthOverflow n 65535) ∧
      (n ≤ 65535 → p.inventory.amazing.length ≤ 65535 → Bytes.nul ∉ utf8 p.motto →
        ∃ b, (encode p).result = .ok b ∧
          (∀ tag, ofUtf8? t = some tag → (decode b).result = .ok { p with tag }) ∧
          (ofUtf8? t = none →
            (decode b : Logged Player).result = .error (.invalidUtf8 (29 + n))))) :=
  ⟨w.decode_encode, g.decode_encode, p.decode_encode⟩

theorem cut_tag_is_no_text :
    let w : Wow := ⟨[7]⟩
    let g : Grid := { corners := #v[1, 2, 3, 4], count := 1, weights := [5, 6] }
    let p : Player :=
      { hp := 1, sp := 2, id := 3, score := 4, speed := 5, heading := 6, name := "é",
        tag := "1234567é", motto := "ok", inventory := w, crc := 8 }
    (∃ b, (encode g).result = .ok b ∧
      (decode b : Logged Grid).result = .error (.trailingData 4)) ∧
    ∃ b, (encode p).result = .ok b ∧
      (decode b : Logged Player).result = .error (.invalidUtf8 31) := by
  intro w g p
  obtain ⟨-, hg, -, hp⟩ := messages_decode_exactly w g p
  obtain ⟨bg, hencodeg, -, hleft, -⟩ := hg (by decide)
  obtain ⟨bp, hencodep, -, hcut⟩ := hp (by decide +kernel) (by decide) (by decide +kernel)
  exact ⟨⟨bg, hencodeg, hleft (by decide)⟩, bp, hencodep, hcut (by decide +kernel)⟩

end OctetStream
