import OctetStream.Proofs.Buffer.Extension

/-! A buffer beside another medium, for reads of limited length. Where the media agree on what reads
are built on as long as payloads are within a limit and storage within one allocation, they agree on
all reads whose lengths are. -/

namespace OctetStream

open Medium

theorem eq_lengthLimit_of_runLength {t : Primitive} {n : Nat} {e : StreamError}
    (h : errorOf (runLength t n) = some e) :
    ∃ max, e = .lengthLimit n max ∧ max < n ∧ Limits.maxCount < n * t.width := by
  unfold runLength at h
  split at h
  · cases h
  · rename_i hlarge
    obtain rfl := Option.some.inj h
    have hlt : Limits.maxCount < n * t.width := Nat.lt_of_not_le hlarge
    exact ⟨_, rfl, (Nat.div_lt_iff_lt_mul t.width_pos).mpr hlt, hlt⟩

namespace ReadOp

/-- What one allocation can hold. An array and the slots of a caller exist, so they take no more. -/
def Storable : ReadOp → Prop
  | bytes n | cstring n | cstringBytes n => n ≤ Limits.maxAllocation
  | array t n _ => ∀ total, runLength t n = .ok total → total ≤ Limits.maxAllocation
  | fill t dest _ => ∀ total, runLength t dest.length = .ok total → total ≤ Limits.maxAllocation
  | _ => True

/-- The length that is held against a payload limit: that of a text by its length field, if this is
among the octets ahead, and that of a run whose length was read from elsewhere. -/
def declaredLength (order : ByteOrder) (ahead : Bytes) : ReadOp → Option Nat
  | string field order? =>
    if field.width ≤ ahead.length then
      some (Word.get field.primitive (order?.getD order) (ahead.take field.width)).toNat
    else none
  | run t n _ => some (n * t.width)
  | _ => none

def runOctets : ReadOp → Option Nat
  | array t n _ | run t n _ => some (n * t.width)
  | fill t dest _ => some (dest.length * t.width)
  | _ => none

theorem eq_lengthLimit_of_runError {op : ReadOp} {e : StreamError} (h : op.runError = some e) :
    ∃ len max, e = .lengthLimit len max ∧ max < len ∧
      ∃ octets, op.runOctets = some octets ∧ Limits.maxCount < octets := by
  cases op with
  | array t n order? | run t n order? =>
    obtain ⟨max, rfl, hmax, hoctets⟩ := eq_lengthLimit_of_runLength h
    exact ⟨n, max, rfl, hmax, n * t.width, rfl, hoctets⟩
  | fill t dest order? =>
    obtain ⟨max, rfl, hmax, hoctets⟩ := eq_lengthLimit_of_runLength h
    exact ⟨dest.length, max, rfl, hmax, dest.length * t.width, rfl, hoctets⟩
  | _ => cases h

structure Within (limit : Nat) (op : ReadOp) (b : Buffer) : Prop where
  runError_eq : op.runError = none
  declared_le : ∀ len ∈ op.declaredLength b.order b.unread, len ≤ limit

end ReadOp

variable {τ : Type} {b : Buffer}

theorem Buffer.readWord_of_le {t : Primitive} {order? : Option ByteOrder} {b : Buffer}
    (h : t.width ≤ b.remaining) :
    readWord t order? b =
      .ok (Word.get t (order?.getD b.order) (b.unread.take t.width)) (b.advance t.width) :=
  Action.bind_of_ok (f := fun got : Bytes => pure (Word.get t (order?.getD b.order) got))
    (demand_of_le h)

theorem Buffer.readWord_ok {t : Primitive} {order? : Option ByteOrder} {v : Word t} {after : Buffer}
    (h : readWord t order? b = .ok v after) :
    t.width ≤ b.unread.length ∧ v = Word.get t (order?.getD b.order) (b.unread.take t.width) := by
  have hfetched : (demand Buffer.receive t.width >>= fun got =>
    pure (Word.get t (order?.getD b.order) got)) b = .ok v after := h
  obtain ⟨got, hfetch, rfl⟩ := Action.eq_ok_of_map hfetched
  obtain ⟨hle, rfl, -⟩ := Buffer.demand_eq_ok hfetch
  exact ⟨hle, rfl⟩

namespace Comparison

variable {C : Comparison Buffer τ}

theorem Results.atomically {α : Type} {x : Action Buffer α} {r : EStateM.Result StreamError τ α}
    (hrewind : ∀ e f b' t, C.failures e b' f t → C.failures e (b.rewound e b') f t)
    (h : C.Results (x b) r) : C.Results (Buffer.atomically x b) r := by
  cases hx : x b with
  | ok a after =>
    rw [Buffer.atomically_of_ok hx]
    rwa [hx] at h
  | error e after =>
    rw [Buffer.atomically_of_error hx]
    rw [hx] at h
    cases r with
    | ok a t => exact h
    | error f t => exact h.imp id (hrewind e f after t)

structure AgreesWithin [Medium τ] (C : Comparison Buffer τ) (limit : Nat) : Prop where
  order : ∀ {b t}, C.states b t → Medium.order b = Medium.order t
  fetch : ∀ n, C.Related (Medium.fetch n) (Medium.fetch n)
  readBytes : ∀ {n}, n ≤ Limits.maxAllocation →
    C.Related (Medium.readBytes n) (Medium.readBytes n)
  permit : ∀ {n}, n ≤ limit → C.Related (Medium.permit n) (Medium.permit n)
  untilNul : C.Related readUntilNul readUntilNul
  atomically : ∀ {α : Type} {x : Action Buffer α} {y : Action τ α} {b t}, C.states b t →
    C.Results (x b) (y t) → C.Results (Medium.atomically x b) (Medium.atomically y t)
  invalidUtf8 : ∀ {b t b' t'}, C.states b t → C.states b' t' →
    C.failures (.invalidUtf8 (offset b)) b' (.invalidUtf8 (offset t)) t'

namespace AgreesWithin

variable [Medium τ] {limit : Nat} (h : C.AgreesWithin limit) (hlimit : limit ≤ Limits.maxAllocation)
variable {s : τ} {t : Primitive} {order? : Option ByteOrder}

include h

theorem textOf {x : Action Buffer Bytes} {y : Action τ Bytes} (hst : C.states b s)
    (hxy : C.Results (x b) (y s)) :
    C.Results ((do let start ← currentOffset; ofExcept (OctetStream.textAt start (← x))) b)
      ((do let start ← currentOffset; ofExcept (OctetStream.textAt start (← y))) s) :=
  results_textOf (h.invalidUtf8 hst) hxy

theorem readWord (t : Primitive) (order? : Option ByteOrder) :
    C.Related (Medium.readWord t order?) (Medium.readWord t order?) :=
  related_readWord h.order (h.fetch t.width) order?

theorem readCStringBytes {width : Nat} (hwidth : width ≤ Limits.maxAllocation) :
    C.Related (Medium.readCStringBytes width) (Medium.readCStringBytes width) :=
  (h.readBytes hwidth).bind fun _ => related_pure _

theorem values (f : Bytes → List (Word t)) {total : Nat} (htotal : total ≤ Limits.maxAllocation) :
    C.Related (Medium.readBytes total >>= fun got => pure (f got))
      (Medium.readBytes total >>= fun got => pure (f got)) :=
  (h.readBytes htotal).bind fun _ => related_pure _

theorem readFixed (hst : C.states b s) {n total : Nat} {f : ByteOrder → Bytes → List (Word t)}
    (hlength : runLength t n = .ok total) (htotal : total ≤ Limits.maxAllocation) :
    C.Results (Medium.readFixed n order? f b) (Medium.readFixed n order? f s) := by
  rw [readFixed_of_ok hlength, readFixed_of_ok hlength, h.order hst]
  exact h.values _ htotal b s hst

include hlimit

theorem payload {n : Nat} (hn : n ≤ limit) :
    C.Related (Medium.permit n >>= fun _ => Medium.readBytes n)
      (Medium.permit n >>= fun _ => Medium.readBytes n) :=
  (h.permit hn).bind fun _ => h.readBytes (Nat.le_trans hn hlimit)

theorem readString (hst : C.states b s) {field : LengthField}
    (hwithin : (ReadOp.string field order?).Within limit b) :
    C.Results (Medium.readString field order? b) (Medium.readString field order? s) := by
  apply h.atomically hst
  have hbody : C.Results
      ((Medium.readWord field.primitive order? >>= fun len =>
        Medium.permit len.toNat >>= fun _ => Medium.readBytes len.toNat) b)
      ((Medium.readWord field.primitive order? >>= fun len =>
        Medium.permit len.toNat >>= fun _ => Medium.readBytes len.toNat) s) := by
    refine (h.readWord field.primitive order? b s hst).bind_at fun len b' s' hread hst' => ?_
    obtain ⟨hpresent, hlen⟩ := Buffer.readWord_ok hread
    apply h.payload hlimit _ b' s' hst'
    apply hwithin.declared_le
    rw [ReadOp.declaredLength, LengthField.width, if_pos hpresent, hlen]
    rfl
  have htext := h.textOf hst hbody
  simp only [bind_assoc] at htext
  exact htext

theorem readRun (hst : C.states b s) {n total : Nat} (hlength : runLength t n = .ok total)
    (htotal : total ≤ limit) :
    C.Results (Medium.readRun t n order? b) (Medium.readRun t n order? s) := by
  rw [readRun_of_ok hlength, readRun_of_ok hlength, h.order hst]
  exact (h.permit htotal b s hst).bind fun _ => h.values _ (Nat.le_trans htotal hlimit)

theorem perform (hst : C.states b s) {op : ReadOp} (hstorable : op.Storable)
    (hwithin : op.Within limit b) : C.Results (op.perform b) (op.perform s) := by
  cases op with
  | bytes n => exact h.readBytes hstorable b s hst
  | into dest =>
    simp only [ReadOp.perform, slotsOf_readInto]
    exact ((h.fetch dest.length).bind fun _ => related_pure _) b s hst
  | word t order? => exact h.readWord t order? b s hst
  | string field order? => exact h.readString hlimit hst hwithin
  | cstring width => exact h.atomically hst (h.textOf hst (h.readCStringBytes hstorable b s hst))
  | cstringBytes width => exact h.readCStringBytes hstorable b s hst
  | terminated => exact h.atomically hst (h.textOf hst (h.untilNul b s hst))
  | terminatedBytes => exact h.atomically hst (h.untilNul b s hst)
  | array t n order? =>
    obtain ⟨total, hlength⟩ := eq_ok_of_errorOf hwithin.runError_eq
    exact h.readFixed hst hlength (hstorable total hlength)
  | run t n order? =>
    obtain ⟨total, hlength⟩ := eq_ok_of_errorOf hwithin.runError_eq
    have hdeclared : total ≤ limit := runLength_eq_ok hlength ▸ hwithin.declared_le _ rfl
    exact h.readRun hlimit hst hlength hdeclared
  | fill t dest order? =>
    obtain ⟨total, hlength⟩ := eq_ok_of_errorOf hwithin.runError_eq
    simp only [ReadOp.perform, slotsOf_fillRun]
    exact h.readFixed hst hlength (hstorable total hlength)

end AgreesWithin
end Comparison
end OctetStream
