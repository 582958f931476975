import OctetStream.ReadOp

/-! Two media side by side. Where the media agree on the few operations that all reads are built
on, they agree on every read, however its parts hang together. -/

namespace OctetStream

namespace Action

variable {σ α β : Type} {x : Action σ α} {f : α → Action σ β} {s t : σ}

theorem bind_of_ok {a : α} (h : x s = .ok a t) : (x >>= f) s = f a t := by
  show EStateM.bind x f s = f a t
  rw [EStateM.bind, h]

theorem bind_of_error {e : StreamError} (h : x s = .error e t) : (x >>= f) s = .error e t := by
  show EStateM.bind x f s = .error e t
  rw [EStateM.bind, h]

theorem bind_congr {g : α → Action σ β} (h : ∀ a t, x s = .ok a t → f a t = g a t) :
    (x >>= f) s = (x >>= g) s := by
  cases hx : x s with
  | ok a t => rw [bind_of_ok hx, bind_of_ok hx, h a t hx]
  | error e t => rw [bind_of_error hx, bind_of_error hx]

theorem bind_bind_of_error {γ : Type} {g : β → Action σ γ} {e : StreamError}
    (h : (x >>= f) s = .error e t) : (x >>= fun a => f a >>= g) s = .error e t := by
  rw [← bind_assoc]
  exact bind_of_error h

theorem eq_ok_of_bind {b : β} (h : (x >>= f) s = .ok b t) :
    ∃ a u, x s = .ok a u ∧ f a u = .ok b t := by
  cases hx : x s with
  | ok a u =>
    rw [bind_of_ok hx] at h
    exact ⟨a, u, rfl, h⟩
  | error e u =>
    rw [bind_of_error hx] at h
    cases h

theorem eq_ok_of_map {g : α → β} {b : β} (h : (x >>= fun a => pure (g a)) s = .ok b t) :
    ∃ a, x s = .ok a t ∧ g a = b := by
  obtain ⟨a, u, hx, hpure⟩ := eq_ok_of_bind h
  cases hpure
  exact ⟨a, hx, rfl⟩

theorem eq_error_of_bind {e : StreamError} (h : (x >>= f) s = .error e t) :
    x s = .error e t ∨ ∃ a u, x s = .ok a u ∧ f a u = .error e t := by
  cases hx : x s with
  | ok a u =>
    rw [bind_of_ok hx] at h
    exact Or.inr ⟨a, u, rfl, h⟩
  | error f u =>
    rw [bind_of_error hx] at h
    cases h
    exact Or.inl rfl

theorem eq_error_of_map {g : α → β} {e : StreamError}
    (h : (x >>= fun a => pure (g a)) s = .error e t) : x s = .error e t := by
  rcases eq_error_of_bind h with hx | ⟨a, u, -, hpure⟩
  · exact hx
  · cases hpure

end Action

/-- Which states of two media match, and which failures with the states they leave. -/
structure Comparison (σ τ : Type) where
  states : σ → τ → Prop
  failures : StreamError → σ → StreamError → τ → Prop
  /-- Failures of the first medium after which nothing is asked of the second. -/
  waives : StreamError → Prop

namespace Comparison

variable {σ τ α β : Type} (C : Comparison σ τ)

def Results : EStateM.Result StreamError σ α → EStateM.Result StreamError τ α → Prop
  | .ok a s, .ok b t => a = b ∧ C.states s t
  | .ok _ _, .error _ _ => False
  | .error e s, .error f t => C.waives e ∨ C.failures e s f t
  | .error e _, .ok _ _ => C.waives e

def Related (x : Action σ α) (y : Action τ α) : Prop :=
  ∀ s t, C.states s t → C.Results (x s) (y t)

variable {C}

theorem results_of_waives {e : StreamError} {s : σ} (h : C.waives e)
    (r : EStateM.Result StreamError τ α) : C.Results (.error e s) r := by
  cases r with
  | ok b t => exact h
  | error f t => exact Or.inl h

theorem Results.of_ok {r : EStateM.Result StreamError σ α} {q : EStateM.Result StreamError τ α}
    {a : α} {s : σ} (h : C.Results r q) (hr : r = .ok a s) :
    ∃ t, q = .ok a t ∧ C.states s t := by
  subst hr
  cases q with
  | ok b t =>
    obtain ⟨rfl, hst⟩ := h
    exact ⟨t, rfl, hst⟩
  | error f t => exact h.elim

theorem Results.of_error {r : EStateM.Result StreamError σ α} {q : EStateM.Result StreamError τ α}
    {e : StreamError} {s : σ} (h : C.Results r q) (hw : ¬C.waives e) (hr : r = .error e s) :
    ∃ f t, q = .error f t ∧ C.failures e s f t := by
  subst hr
  cases q with
  | ok b t => exact (hw h).elim
  | error f t => exact ⟨f, t, rfl, h.resolve_left hw⟩

theorem Results.ok_iff {r : EStateM.Result StreamError σ α} {q : EStateM.Result StreamError τ α}
    (h : C.Results r q) (hw : ∀ e, ¬C.waives e) (a : α) :
    (∃ s, r = .ok a s) ↔ ∃ t, q = .ok a t := by
  cases r with
  | ok b s =>
    cases q with
    | ok b' t =>
      obtain ⟨rfl, -⟩ := h
      simp
    | error f t => exact h.elim
  | error e s =>
    cases q with
    | ok b t => exact (hw e h).elim
    | error f t => simp

theorem Results.bind_at {x : Action σ α} {y : Action τ α} {f : α → Action σ β} {g : α → Action τ β}
    {s : σ} {t : τ} (h : C.Results (x s) (y t))
    (hfg : ∀ a s' t', x s = .ok a s' → C.states s' t' → C.Results (f a s') (g a t')) :
    C.Results ((x >>= f) s) ((y >>= g) t) := by
  cases hx : x s with
  | ok a s' =>
    obtain ⟨t', hy, hst⟩ := h.of_ok hx
    rw [Action.bind_of_ok hx, Action.bind_of_ok hy]
    exact hfg a s' t' hx hst
  | error e s' =>
    rw [Action.bind_of_error hx]
    cases hy : y t with
    | ok b t' =>
      rw [hx, hy] at h
      exact results_of_waives h _
    | error e' t' =>
      rw [hx, hy] at h
      rw [Action.bind_of_error hy]
      exact h

theorem Results.bind {x : Action σ α} {y : Action τ α} {f : α → Action σ β} {g : α → Action τ β}
    {s : σ} {t : τ} (h : C.Results (x s) (y t)) (hfg : ∀ a, C.Related (f a) (g a)) :
    C.Results ((x >>= f) s) ((y >>= g) t) :=
  h.bind_at fun a s' t' _ hst => hfg a s' t' hst

theorem Related.bind {x : Action σ α} {y : Action τ α} {f : α → Action σ β} {g : α → Action τ β}
    (h : C.Related x y) (hfg : ∀ a, C.Related (f a) (g a)) : C.Related (x >>= f) (y >>= g) :=
  fun s t hst => (h s t hst).bind hfg

theorem related_pure (a : α) : C.Related (pure a) (pure a) :=
  fun _ _ hst => ⟨rfl, hst⟩

theorem related_throw {e : StreamError} (h : ∀ s t, C.states s t → C.failures e s e t) :
    C.Related (throw e : Action σ α) (throw e) :=
  fun s t hst => Or.inr (h s t hst)

theorem related_ofExcept (r : Except StreamError α)
    (h : ∀ e, r = .error e → ∀ s t, C.states s t → C.failures e s e t) :
    C.Related (ofExcept r) (ofExcept r) := by
  cases r with
  | ok a => exact related_pure a
  | error e => exact related_throw (h e rfl)

theorem related_textAt {start start' : Nat}
    (hu : ∀ {s t}, C.states s t → C.failures (.invalidUtf8 start) s (.invalidUtf8 start') t)
    (b : Bytes) : C.Related (ofExcept (textAt start b)) (ofExcept (textAt start' b)) := by
  intro s t hst
  unfold textAt
  cases ofUtf8? b with
  | some text => exact ⟨rfl, hst⟩
  | none => exact Or.inr (hu hst)

open Medium

variable [Medium σ] [Medium τ]

theorem related_orderOr (ho : ∀ {s t}, C.states s t → order s = order t)
    (order? : Option ByteOrder) : C.Related (orderOr order?) (orderOr order?) :=
  fun _ _ hst => ⟨congrArg order?.getD (ho hst), hst⟩

theorem related_readWord (ho : ∀ {s t}, C.states s t → order s = order t) {p : Primitive}
    (hf : C.Related (fetch p.width) (fetch p.width)) (order? : Option ByteOrder) :
    C.Related (readWord p order?) (readWord p order?) :=
  (related_orderOr ho order?).bind fun _ => hf.bind fun _ => related_pure _

theorem results_textOf {x : Action σ Bytes} {y : Action τ Bytes} {s : σ} {t : τ}
    (hu : ∀ {s' t'}, C.states s' t' →
      C.failures (.invalidUtf8 (offset s)) s' (.invalidUtf8 (offset t)) t')
    (hxy : C.Results (x s) (y t)) :
    C.Results ((do let start ← currentOffset; ofExcept (textAt start (← x))) s)
      ((do let start ← currentOffset; ofExcept (textAt start (← y))) t) :=
  hxy.bind (related_textAt hu)

theorem related_readOctet (hf : C.Related (fetch 1) (fetch 1)) : C.Related readOctet readOctet :=
  hf.bind fun _ => related_pure _

theorem related_collectUntilNul (hf : C.Related (fetch 1) (fetch 1))
    (hl : ∀ len max s t, C.states s t →
      C.failures (.lengthLimit len max) s (.lengthLimit len max) t)
    (limit : Option Nat) (fuel count : Nat) (acc : Bytes) :
    C.Related (collectUntilNul limit fuel count acc) (collectUntilNul limit fuel count acc) := by
  induction fuel generalizing count acc with
  | zero => exact (related_readOctet hf).bind fun _ => related_pure _
  | succ fuel ih =>
    -- Both media answer the same octet, so both searches end here or go on alike.
    refine (related_readOctet hf).bind fun c => ?_
    by_cases hc : c = Bytes.nul
    · simp only [if_pos hc]
      exact related_pure _
    · simp only [if_neg hc]
      cases limit with
      | none => exact ih _ _
      | some max =>
        by_cases hm : max ≤ count
        · simp only [if_pos hm]
          exact related_throw (hl _ _)
        · simp only [if_neg hm]
          exact ih _ _

/-- The media agree on what reads are built on. The payload behind a length and the search for a
NUL count as one operation each, since the payload limits of the two media may differ. -/
structure Agrees (C : Comparison σ τ) : Prop where
  order : ∀ {s t}, C.states s t → Medium.order s = Medium.order t
  fetch : ∀ n, C.Related (Medium.fetch n) (Medium.fetch n)
  readBytes : ∀ n, C.Related (Medium.readBytes n) (Medium.readBytes n)
  payload : ∀ n, C.Related (permit n >>= fun _ => Medium.readBytes n)
    (permit n >>= fun _ => Medium.readBytes n)
  untilNul : C.Related readUntilNul readUntilNul
  atomically : ∀ {α : Type} {x : Action σ α} {y : Action τ α} {s t}, C.states s t →
    C.Results (x s) (y t) → C.Results (Medium.atomically x s) (Medium.atomically y t)
  invalidUtf8 : ∀ {s t s' t'}, C.states s t → C.states s' t' →
    C.failures (.invalidUtf8 (offset s)) s' (.invalidUtf8 (offset t)) t'
  lengthLimit : ∀ {s t} (len max : Nat), C.states s t →
    C.failures (.lengthLimit len max) s (.lengthLimit len max) t

namespace Agrees

variable (h : C.Agrees)
include h

theorem readWord (t : Primitive) (order? : Option ByteOrder) :
    C.Related (Medium.readWord t order?) (Medium.readWord t order?) :=
  related_readWord h.order (h.fetch t.width) order?

theorem textOf {x : Action σ Bytes} {y : Action τ Bytes} (hxy : C.Related x y) :
    C.Related (do let start ← currentOffset; ofExcept (OctetStream.textAt start (← x)))
      (do let start ← currentOffset; ofExcept (OctetStream.textAt start (← y))) :=
  fun s t hst => results_textOf (h.invalidUtf8 hst) (hxy s t hst)

theorem readString (field : LengthField) (order? : Option ByteOrder) :
    C.Related (Medium.readString field order?) (Medium.readString field order?) := by
  intro s t hst
  apply h.atomically hst
  have hbody := h.textOf <| (h.readWord field.primitive order?).bind fun len => h.payload len.toNat
  simp only [bind_assoc] at hbody
  exact hbody s t hst

theorem readCStringBytes (width : Nat) :
    C.Related (Medium.readCStringBytes width) (Medium.readCStringBytes width) :=
  (h.readBytes width).bind fun _ => related_pure _

theorem readCString (width : Nat) :
    C.Related (Medium.readCString width) (Medium.readCString width) :=
  fun s t hst => h.atomically hst (h.textOf (h.readCStringBytes width) s t hst)

theorem readTerminatedBytes : C.Related Medium.readTerminatedBytes Medium.readTerminatedBytes :=
  fun s t hst => h.atomically hst (h.untilNul s t hst)

theorem readTerminated : C.Related Medium.readTerminated Medium.readTerminated :=
  fun s t hst => h.atomically hst (h.textOf h.untilNul s t hst)

theorem runLength (t : Primitive) (n : Nat) :
    C.Related (ofExcept (OctetStream.runLength t n)) (ofExcept (OctetStream.runLength t n)) := by
  apply related_ofExcept
  intro e he _ _ hst
  -- A run fails here only if its length cannot be expressed.
  unfold OctetStream.runLength at he
  split at he
  · cases he
  · cases he
    exact h.lengthLimit _ _ hst

theorem readFixed {t : Primitive} (n : Nat) (order? : Option ByteOrder)
    (values : ByteOrder → Bytes → List (Word t)) :
    C.Related (Medium.readFixed n order? values) (Medium.readFixed n order? values) :=
  (related_orderOr h.order order?).bind fun _ => (h.runLength t n).bind fun total =>
    (h.readBytes total).bind fun _ => related_pure _

theorem readRun (t : Primitive) (n : Nat) (order? : Option ByteOrder) :
    C.Related (Medium.readRun t n order?) (Medium.readRun t n order?) := by
  have hrun := (related_orderOr h.order order?).bind fun order =>
    (h.runLength t n).bind fun total => (h.payload total).bind fun b =>
      related_pure (Word.getAll t order b)
  simp only [bind_assoc] at hrun
  exact hrun

theorem perform (op : ReadOp) : C.Related op.perform op.perform := by
  cases op with
  | bytes n => exact h.readBytes n
  | into dest =>
    simp only [ReadOp.perform, slotsOf_readInto]
    exact (h.fetch _).bind fun _ => related_pure _
  | word t order? => exact h.readWord t order?
  | string field order? => exact h.readString field order?
  | cstring width => exact h.readCString width
  | cstringBytes width => exact h.readCStringBytes width
  | terminated => exact h.readTerminated
  | terminatedBytes => exact h.readTerminatedBytes
  | array t n order? => exact h.readFixed n order? _
  | run t n order? => exact h.readRun t n order?
  | fill t dest order? =>
    simp only [ReadOp.perform, slotsOf_fillRun]
    exact h.readFixed _ order? _

end Agrees
end Comparison
end OctetStream
