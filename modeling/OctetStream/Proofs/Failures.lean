import OctetStream.Proofs.Buffer.Within
import OctetStream.Proofs.Channel.Outcome

/-! Why reads fail. A read fails only with what its parts fail with: a request for octets, a length
above a limit, a run whose length cannot be expressed or octets that are no text. -/

namespace OctetStream

open Medium

variable {σ α β : Type} {I : σ → Prop} {P : StreamError → Prop} {s : σ}

inductive Ends (I : σ → Prop) (P : StreamError → Prop) : EStateM.Result StreamError σ α → Prop
  | ok {a : α} {s : σ} (state : I s) : Ends I P (.ok a s)
  | error {e : StreamError} {s : σ} (failure : P e) : Ends I P (.error e s)

def FailsWith (I : σ → Prop) (P : StreamError → Prop) (x : Action σ α) : Prop :=
  ∀ s, I s → Ends I P (x s)

theorem Ends.failure_of_eq {x : EStateM.Result StreamError σ α} {e : StreamError} (h : Ends I P x)
    (hx : x = .error e s) : P e := by
  cases h with
  | ok state => cases hx
  | error failure =>
    cases hx
    exact failure

theorem Ends.bind {x : Action σ α} {f : α → Action σ β} (hx : Ends I P (x s))
    (hf : ∀ a, FailsWith I P (f a)) : Ends I P ((x >>= f) s) := by
  generalize hr : x s = r at hx
  cases hx with
  | @ok a t state =>
    rw [Action.bind_of_ok hr]
    exact hf a t state
  | error failure =>
    rw [Action.bind_of_error hr]
    exact .error failure

theorem FailsWith.bind {x : Action σ α} {f : α → Action σ β} (hx : FailsWith I P x)
    (hf : ∀ a, FailsWith I P (f a)) : FailsWith I P (x >>= f) :=
  fun s hs => (hx s hs).bind hf

theorem failsWith_pure (a : α) : FailsWith I P (pure a) :=
  fun _ hs => .ok hs

theorem failsWith_throw {e : StreamError} (he : P e) : FailsWith I P (throw e : Action σ α) :=
  fun _ _ => .error he

theorem failsWith_ofExcept {r : Except StreamError α} (h : ∀ e, errorOf r = some e → P e) :
    FailsWith I P (ofExcept r) := by
  cases r with
  | ok a => exact failsWith_pure a
  | error e => exact failsWith_throw (h e rfl)

theorem failsWith_textAt {start : Nat} (htext : P (.invalidUtf8 start)) (b : Bytes) :
    FailsWith I P (ofExcept (textAt start b)) := by
  apply failsWith_ofExcept
  intro e he
  unfold textAt at he
  cases hdecode : ofUtf8? b with
  | some text =>
    rw [hdecode] at he
    cases he
  | none =>
    rw [hdecode] at he
    cases he
    exact htext

section

variable [Medium σ]

theorem failsWith_orderOr (order? : Option ByteOrder) : FailsWith I P (orderOr order?) :=
  fun _ hs => .ok hs

def LimitFails (I : σ → Prop) (P : StreamError → Prop) : Prop :=
  ∀ s max len, I s → payloadLimit s = some max → max < len → P (.lengthLimit len max)

theorem failsWith_permit (hlimit : LimitFails I P) (n : Nat) :
    FailsWith I P (permit n : Action σ Unit) := by
  intro s hs
  unfold permit
  cases hmax : payloadLimit s with
  | none => exact .ok hs
  | some max =>
    by_cases hle : n ≤ max
    · simp only [if_pos hle]
      exact .ok hs
    · simp only [if_neg hle]
      exact .error (hlimit s max n hs hmax (Nat.lt_of_not_le hle))

/-- What the requests for octets fail with, and what is read as one fails with what its parts do. -/
structure RequestsFail (I : σ → Prop) (P : StreamError → Prop) : Prop where
  fetch : ∀ n, FailsWith I P (fetch n : Action σ Bytes)
  readBytes : ∀ n, FailsWith I P (readBytes n : Action σ Bytes)
  atomically : ∀ {α : Type} {x : Action σ α} {s : σ}, Ends I P (x s) → Ends I P (atomically x s)

namespace RequestsFail

variable (h : RequestsFail I P)
include h

theorem readWord (t : Primitive) (order? : Option ByteOrder) :
    FailsWith I P (readWord t order? : Action σ (Word t)) :=
  (failsWith_orderOr order?).bind fun _ => (h.fetch t.width).bind fun _ => failsWith_pure _

theorem readOctet : FailsWith I P (readOctet : Action σ UInt8) :=
  (h.fetch 1).bind fun _ => failsWith_pure _

theorem readCStringBytes (width : Nat) : FailsWith I P (readCStringBytes width : Action σ Bytes) :=
  (h.readBytes width).bind fun _ => failsWith_pure _

theorem readFixed {t : Primitive} {n : Nat} {order? : Option ByteOrder}
    {values : ByteOrder → Bytes → List (Word t)}
    (hrun : ∀ e, errorOf (runLength t n) = some e → P e) :
    FailsWith I P (readFixed n order? values : Action σ (List (Word t))) :=
  (failsWith_orderOr order?).bind fun _ => (failsWith_ofExcept hrun).bind fun total =>
    (h.readBytes total).bind fun _ => failsWith_pure _

theorem readRun (hlimit : LimitFails I P) {t : Primitive} {n : Nat} {order? : Option ByteOrder}
    (hrun : ∀ e, errorOf (runLength t n) = some e → P e) :
    FailsWith I P (readRun t n order? : Action σ (List (Word t))) :=
  (failsWith_orderOr order?).bind fun _ => (failsWith_ofExcept hrun).bind fun total =>
    (failsWith_permit hlimit total).bind fun _ =>
      (h.readBytes total).bind fun _ => failsWith_pure _

theorem collectUntilNul (limit : Option Nat)
    (hlimit : ∀ max len, limit = some max → max < len → P (.lengthLimit len max))
    (fuel count : Nat) (acc : Bytes) :
    FailsWith I P (collectUntilNul limit fuel count acc : Action σ Bytes) := by
  induction fuel generalizing count acc with
  | zero => exact h.readOctet.bind fun _ => failsWith_pure _
  | succ fuel ih =>
    refine h.readOctet.bind fun c => ?_
    by_cases hnul : c = Bytes.nul
    · simp only [if_pos hnul]
      exact failsWith_pure _
    · simp only [if_neg hnul]
      cases limit with
      | none => exact ih _ _
      | some max =>
        by_cases hfull : max ≤ count
        · simp only [if_pos hfull]
          exact failsWith_throw (hlimit _ _ rfl (Nat.lt_succ_of_le hfull))
        · simp only [if_neg hfull]
          exact ih _ _

theorem readUntilNul (hlimit : LimitFails I P) : FailsWith I P (readUntilNul : Action σ Bytes) :=
  fun s hs => h.collectUntilNul (payloadLimit s) (fun max len => hlimit s max len hs) _ _ _ s hs

theorem textOf {x : Action σ Bytes} (hx : FailsWith I P x) (hs : I s)
    (htext : P (.invalidUtf8 (offset s))) :
    Ends I P
      (Medium.atomically (do let start ← currentOffset; ofExcept (textAt start (← x))) s) := by
  apply h.atomically
  exact (hx s hs).bind fun got => failsWith_textAt htext got

theorem readString (hlimit : LimitFails I P) (hs : I s) (htext : P (.invalidUtf8 (offset s)))
    (field : LengthField) (order? : Option ByteOrder) : Ends I P (readString field order? s) := by
  apply h.atomically
  exact (h.readWord field.primitive order? s hs).bind fun len =>
    (failsWith_permit hlimit len.toNat).bind fun _ =>
      (h.readBytes len.toNat).bind fun got => failsWith_textAt htext got

theorem perform (hlimit : LimitFails I P) (hs : I s) {op : ReadOp}
    (hrun : ∀ e, op.runError = some e → P e) (htext : P (.invalidUtf8 (offset s))) :
    Ends I P (op.perform s) := by
  cases op with
  | bytes n => exact h.readBytes n s hs
  | into dest =>
    rw [ReadOp.perform, slotsOf_readInto]
    exact (h.fetch _ s hs).bind fun _ => failsWith_pure _
  | word t order? => exact h.readWord t order? s hs
  | string field order? => exact h.readString hlimit hs htext field order?
  | cstring width => exact h.textOf (h.readCStringBytes width) hs htext
  | cstringBytes width => exact h.readCStringBytes width s hs
  | terminated => exact h.textOf (h.readUntilNul hlimit) hs htext
  | terminatedBytes => exact h.atomically (h.readUntilNul hlimit s hs)
  | array t n order? => exact h.readFixed hrun s hs
  | run t n order? => exact h.readRun hlimit hrun s hs
  | fill t dest order? =>
    rw [ReadOp.perform, slotsOf_fillRun]
    exact h.readFixed hrun s hs

end RequestsFail
end

structure Buffer.Beyond (start size : Nat) (b : Buffer) : Prop where
  start_le : start ≤ b.position
  size_eq : b.size = size

theorem Buffer.beyond (b : Buffer) : b.Beyond b.position b.size :=
  ⟨Nat.le_refl _, rfl⟩

theorem Buffer.requestsFail {start size : Nat}
    (h : ∀ need left pos, left < need → size = pos + left → start ≤ pos →
      P (.outOfBounds need left pos)) :
    RequestsFail (Beyond start size) P := by
  have hdemand (n : Nat) : FailsWith (Beyond start size) P (demand receive n) := by
    rintro b ⟨hstart, hsize⟩
    rcases Nat.lt_or_ge b.remaining n with hlt | hle
    · rw [demand_of_lt hlt]
      exact .error (h n b.remaining b.position hlt (hsize ▸ b.size_eq) hstart)
    · rw [demand_of_le hle]
      refine .ok ⟨?_, ?_⟩
      · rw [position_advance hle]
        exact Nat.le_add_right_of_le hstart
      · rw [← length_data, data_advance, length_data, hsize]
  have hbytes (n : Nat) : FailsWith (Beyond start size) P (Buffer.readBytes n) := by
    rw [readBytes_eq_demand]
    exact hdemand n
  refine ⟨hdemand, hbytes, ?_⟩
  intro α x b hends
  show Ends _ P (Buffer.atomically x b)
  generalize hx : x b = r at hends
  cases hends with
  | ok state =>
    rw [atomically_of_ok hx]
    exact .ok state
  | error failure =>
    rw [atomically_of_error hx]
    exact .error failure

theorem Buffer.limitFails {J : Buffer → Prop} : LimitFails J P :=
  fun _ _ _ _ hlimit => nomatch hlimit

theorem Channel.requestsFail (hsource : ∀ text, P (.sourceFailure text))
    (hstorage : P .capacityOverflow) : RequestsFail (fun _ : Channel => True) P := by
  have hdemand (n : Nat) : FailsWith (fun _ : Channel => True) P (demand receive n) := by
    rintro c -
    have hreceived := received c n
    unfold demand
    generalize c.receive n = outcome at hreceived
    cases hreceived with
    | noSource absent => exact .error (hsource _)
    | whole short present enough cursor_eq => exact .ok trivial
    | part short got stop present fewer enough cursor_eq =>
      cases stop <;> exact .error (hsource _)
  refine ⟨hdemand, fun n => ?_, id⟩
  show FailsWith _ P (demandAllocated receive n)
  unfold demandAllocated
  split
  · exact failsWith_throw hstorage
  · exact hdemand n

end OctetStream
