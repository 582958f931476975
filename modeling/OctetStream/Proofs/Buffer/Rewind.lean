import OctetStream.Proofs.Buffer.Beside
import OctetStream.Proofs.Lockstep

/-! Failed reads of a buffer. A read that fails at any of its parts leaves the octets, the cursor,
the order and all tallies but that of failed reads as they were. Buffers that differ in this tally
and in their logs are in lockstep, so what comes later cannot tell that there was such a read. -/

namespace OctetStream

namespace Buffer

structure Alike (b c : Buffer) : Prop where
  cursor_eq : b.cursor = c.cursor
  order_eq : b.order = c.order
  counters_eq : b.counters.withoutReadFailures = c.counters.withoutReadFailures

namespace Alike

variable {b c : Buffer} (h : Alike b c)
include h

theorem remaining_eq : b.remaining = c.remaining :=
  congrArg Cursor.remaining h.cursor_eq

theorem position_eq : b.position = c.position :=
  congrArg Cursor.position h.cursor_eq

theorem advance (n : Nat) : Alike (b.advance n) (c.advance n) where
  cursor_eq := congrArg (Cursor.advance n) h.cursor_eq
  order_eq := h.order_eq
  counters_eq := congrArg (Counters.addRead n) h.counters_eq

theorem check_eq (n : Nat) : b.check n = c.check n := by
  unfold check
  rw [h.remaining_eq, h.position_eq, h.cursor_eq]

theorem peek_eq (n : Nat) : b.peek n = c.peek n := by
  unfold peek
  rw [h.check_eq, h.cursor_eq]

theorem failed (e : StreamError) : Alike (b.failed e) (c.failed e) where
  cursor_eq := h.cursor_eq
  order_eq := h.order_eq
  counters_eq := h.counters_eq

theorem receive (n : Nat) :
    (b.receive n).1 = (c.receive n).1 ∧ Alike (b.receive n).2 (c.receive n).2 := by
  unfold Buffer.receive
  rw [h.check_eq, h.cursor_eq]
  cases c.check n with
  | ok present => exact ⟨rfl, h.advance n⟩
  | error e => exact ⟨rfl, h.failed e⟩

theorem consume (n : Nat) :
    (Comparison.exact Alike).Results (b.consume n) (c.consume n) := by
  unfold Buffer.consume
  rw [h.check_eq, h.cursor_eq]
  cases c.check n with
  | ok present => exact ⟨rfl, h.advance n⟩
  | error e => exact Or.inr ⟨rfl, h⟩

theorem rewound (e : StreamError) {b' c' : Buffer} (hafter : Alike b' c') :
    Alike (b.rewound e b') (c.rewound e c') where
  cursor_eq := by
    show b'.cursor.seek b.position = c'.cursor.seek c.position
    rw [h.position_eq, hafter.cursor_eq]
  order_eq := hafter.order_eq
  counters_eq := h.counters_eq

theorem reset : Alike b.reset c.reset :=
  ⟨rfl, h.order_eq, rfl⟩

end Alike

theorem lockstep_alike : Lockstep Alike where
  order h := h.order_eq
  offset h := h.position_eq
  limit _ := rfl
  supply h := h.remaining_eq
  receive n _ _ h := h.receive n
  send data _ _ h := ⟨rfl, congrArg (Cursor.append data) h.cursor_eq, h.order_eq,
    congrArg (Counters.addWrite data.length) h.counters_eq⟩
  readBytes n := related_readBytes (Comparison.related_demand fun h => h.receive n)
  atomically h hxy := by
    apply results_atomically _ hxy
    rintro e f b' c' ⟨rfl, hafter⟩
    exact ⟨rfl, h.rewound e hafter⟩

section

variable {P : Buffer → Prop} (hreceive : ∀ n b, P b → P (b.receive n).2)
  (hrewound : ∀ b e after, P b → P after → P (b.rewound e after))
include hreceive hrewound

-- A buffer beside itself: what holds of both along a read holds of the one.
theorem agrees_of_kept : (Comparison.exact fun b c => b = c ∧ P b).Agrees := by
  apply agrees_of_demand
  · exact fun h => congrArg Buffer.order h.1
  · exact fun h => Nat.le_of_eq (congrArg remaining h.1)
  · exact fun n => Comparison.related_demand fun h => h.1 ▸ ⟨rfl, rfl, hreceive n _ h.2⟩
  · rintro e _ b _ b' _ ⟨rfl, h⟩ ⟨rfl, rfl, hafter⟩
    exact ⟨rfl, rfl, hrewound b e b' h hafter⟩
  · exact fun h hafter => ⟨congrArg (StreamError.invalidUtf8 ∘ position) h.1, hafter⟩
  · exact fun _ _ h => ⟨rfl, h⟩

theorem kept_settle (op : ReadOp) {b : Buffer} (h : P b) : P (op.perform.settle b).2 :=
  (Comparison.settle_congr ((agrees_of_kept hreceive hrewound).perform op b b ⟨rfl, h⟩)).2.2

end

theorem order_receive (n : Nat) (b : Buffer) : (b.receive n).2.order = b.order := by
  unfold receive
  cases b.check n <;> rfl

theorem data_receive (n : Nat) (b : Buffer) : (b.receive n).2.data = b.data := by
  unfold receive
  cases b.check n with
  | ok present => exact data_advance n b
  | error e => rfl

theorem order_settle (op : ReadOp) (b : Buffer) : (op.perform.settle b).2.order = b.order := by
  apply kept_settle (P := fun after => after.order = b.order) _ _ op rfl
  · intro n c h
    exact (order_receive n c).trans h
  · intro c e after _ hafter
    exact hafter

theorem data_settle (op : ReadOp) (b : Buffer) : (op.perform.settle b).2.data = b.data := by
  apply kept_settle (P := fun after => after.data = b.data) _ _ op rfl
  · intro n c h
    exact (data_receive n c).trans h
  · intro c e after _ hafter
    exact (data_rewound c e after).trans hafter

theorem data_perform (op : ReadOp) {b after : Buffer} {e : StreamError}
    (h : op.perform b = .error e after) : after.data = b.data := by
  have hdata := data_settle op b
  rw [Action.settle_of_error h] at hdata
  exact hdata

theorem order_perform (op : ReadOp) {b after : Buffer} {e : StreamError}
    (h : op.perform b = .error e after) : after.order = b.order := by
  have horder := order_settle op b
  rw [Action.settle_of_error h] at horder
  exact horder

structure FailedOnce (b after : Buffer) : Prop where
  cursor_eq : after.cursor = b.cursor
  order_eq : after.order = b.order
  counters_eq : after.counters = b.counters.addReadFailure

theorem failedOnce_failed (b : Buffer) (e : StreamError) : FailedOnce b (b.failed e) :=
  ⟨rfl, rfl, rfl⟩

theorem failedOnce_of_demand {n : Nat} {b after : Buffer} {e : StreamError}
    (h : demand receive n b = .error e after) : FailedOnce b after := by
  rcases Nat.lt_or_ge b.remaining n with hlt | hle
  · rw [demand_of_lt hlt] at h
    cases h
    exact failedOnce_failed b _
  · rw [demand_of_le hle] at h
    cases h

theorem failedOnce_of_readBytes {n : Nat} {b after : Buffer} {e : StreamError}
    (h : readBytes n b = .error e after) : FailedOnce b after := by
  rw [readBytes_eq_demand] at h
  exact failedOnce_of_demand h

/-- The reads keep the octets, so going back to the old place goes back to the old cursor. -/
theorem failedOnce_of_atomically {α : Type} {read : Action Buffer α} {b after : Buffer}
    {e : StreamError} (h : atomically read b = .error e after) (hdata : after.data = b.data)
    (horder : after.order = b.order) : FailedOnce b after := by
  obtain ⟨inner, -, rfl⟩ := atomically_eq_error h
  rw [data_rewound] at hdata
  exact ⟨cursor_rewound e hdata, horder, rfl⟩

end Buffer

namespace ReadOp

def isRun : ReadOp → Bool
  | array .. | run .. | fill .. => true
  | _ => false

def runError : ReadOp → Option StreamError
  | array t n _ | run t n _ => errorOf (runLength t n)
  | fill t dest _ => errorOf (runLength t dest.length)
  | _ => none

theorem isRun_of_runError {op : ReadOp} {e : StreamError} (h : op.runError = some e) :
    op.isRun = true := by
  cases op with
  | array t n order? | run t n order? | fill t dest order? => rfl
  | _ => cases h

theorem perform_of_runError {σ : Type} [Medium σ] {op : ReadOp} {e : StreamError}
    (h : op.runError = some e) (s : σ) : op.perform s = .error e s := by
  cases op with
  | array t n order? => exact Medium.readFixed_of_error (eq_error_of_errorOf h)
  | run t n order? => exact Medium.readRun_of_error (eq_error_of_errorOf h)
  | fill t dest order? =>
    simp only [ReadOp.perform, Medium.slotsOf_fillRun]
    exact Medium.readFixed_of_error (eq_error_of_errorOf h)
  | _ => cases h

end ReadOp

namespace Buffer

section

variable {b after : Buffer} {e : StreamError}

theorem failedOnce_of_readFixed {t : Primitive} {n : Nat} {order? : Option ByteOrder}
    {values : ByteOrder → Bytes → List (Word t)} (hrun : errorOf (runLength t n) = none)
    (h : Medium.readFixed n order? values b = .error e after) : FailedOnce b after := by
  obtain ⟨total, hlength⟩ := eq_ok_of_errorOf hrun
  rw [Medium.readFixed_of_ok hlength] at h
  exact failedOnce_of_readBytes (Action.eq_error_of_map h)

theorem failedOnce_of_readRun {t : Primitive} {n : Nat} {order? : Option ByteOrder}
    (hrun : errorOf (runLength t n) = none)
    (h : Medium.readRun t n order? b = .error e after) : FailedOnce b after := by
  obtain ⟨total, hlength⟩ := eq_ok_of_errorOf hrun
  rw [Medium.readRun_of_ok hlength] at h
  exact failedOnce_of_readBytes (Action.eq_error_of_map h)

theorem failedOnce_of_error {op : ReadOp} (hrun : op.runError = none)
    (h : op.perform b = .error e after) : FailedOnce b after := by
  have hcomposite {α : Type} {x : Action Buffer α} (hx : atomically x b = .error e after) :
      FailedOnce b after :=
    failedOnce_of_atomically hx (data_perform op h) (order_perform op h)
  cases op with
  | bytes n => exact failedOnce_of_readBytes h
  | into dest =>
    rw [ReadOp.perform, Medium.slotsOf_readInto] at h
    exact failedOnce_of_demand (Action.eq_error_of_map h)
  | word t order? => exact failedOnce_of_demand (Action.eq_error_of_map h)
  | string field order? => exact hcomposite h
  | cstring width => exact hcomposite h
  | cstringBytes width => exact failedOnce_of_readBytes (Action.eq_error_of_map h)
  | terminated => exact hcomposite h
  | terminatedBytes => exact hcomposite h
  | array t n order? => exact failedOnce_of_readFixed hrun h
  | run t n order? => exact failedOnce_of_readRun hrun h
  | fill t dest order? =>
    rw [ReadOp.perform, Medium.slotsOf_fillRun] at h
    exact failedOnce_of_readFixed hrun h

-- Only a run can fail before octets are asked for, and such a failure is not counted.
theorem perform_error (op : ReadOp) (h : op.perform b = .error e after) :
    FailedOnce b after ∨ op.isRun = true ∧ after = b := by
  cases hrun : op.runError with
  | none => exact Or.inl (failedOnce_of_error hrun h)
  | some f =>
    rw [ReadOp.perform_of_runError hrun] at h
    cases h
    exact Or.inr ⟨ReadOp.isRun_of_runError hrun, rfl⟩

theorem failedOnce_of_perform {op : ReadOp} (hrun : op.isRun = false)
    (h : op.perform b = .error e after) : FailedOnce b after :=
  (perform_error op h).resolve_right fun hr => Bool.false_ne_true (hrun.symm.trans hr.1)

theorem consume_error {n : Nat} (h : consume n b = .error e after) : after = b := by
  rcases Nat.lt_or_ge b.remaining n with hlt | hle
  · rw [consume_of_lt hlt] at h
    cases h
    rfl
  · rw [consume_of_le hle] at h
    cases h

end

namespace Request

def IsRead : Request → Prop
  | stream (.write _) | peek _ | reset => False
  | stream _ | consume _ => True

def CountsFailure : Request → Prop
  | stream (.read op) => op.isRun = false
  | stream (.readInto _) => True
  | _ => False

theorem perform_congr (request : Request) (b c : Buffer) (h : Alike b c) :
    (request.perform b).1 = (request.perform c).1 ∧
      Alike (request.perform b).2 (request.perform c).2 := by
  cases request with
  | stream request => exact lockstep_alike.perform request b c h
  | consume n => exact Comparison.settle_congr (h.consume n)
  | peek n => exact ⟨h.peek_eq n, h⟩
  | reset => exact ⟨rfl, h.reset⟩

theorem not_countsFailure {request : OctetStream.Request} {op : ReadOp}
    (hread : request.readOp? = some op) (hrun : op.isRun = true) :
    ¬CountsFailure (stream request) := by
  cases request with
  | read op' =>
    cases hread
    exact fun hcounts => Bool.false_ne_true (hcounts.symm.trans hrun)
  | readInto dest =>
    cases hread
    cases hrun
  | fillRun t dest order? => exact id
  | write op' => exact id

theorem perform_failure {b : Buffer} {request : Request} {e : StreamError} (hr : request.IsRead)
    (he : request.failure (request.perform b).1 = some e) :
    FailedOnce b (request.perform b).2 ∨
      ¬request.CountsFailure ∧ (request.perform b).2 = b := by
  cases request with
  | stream request =>
    cases hread : request.readOp? with
    | none =>
      obtain ⟨op, rfl⟩ := OctetStream.Request.eq_write_of_readOp hread
      cases hr
    | some op =>
      have hfailed := OctetStream.Request.perform_eq_error hread he
      exact (perform_error op hfailed).imp id fun h => ⟨not_countsFailure hread h.1, h.2⟩
  | consume n =>
    have hslice : Buffer.consume n b = .error e _ := Action.eq_error_of_settle he
    exact Or.inr ⟨id, consume_error hslice⟩
  | peek n => cases hr
  | reset => cases hr

end Request

theorem FailedOnce.alike {b after : Buffer} (h : FailedOnce b after) : Alike after b where
  cursor_eq := h.cursor_eq
  order_eq := h.order_eq
  counters_eq := by
    rw [h.counters_eq]
    rfl

theorem alike_of_perform_error {op : ReadOp} {b after : Buffer} {e : StreamError}
    (h : op.perform b = .error e after) : Alike after b := by
  rcases perform_error op h with honce | ⟨-, rfl⟩
  · exact honce.alike
  · exact ⟨rfl, rfl, rfl⟩

/-- Wherever in a read the failure comes, nothing but the tally of failed reads tells of it, and no
later reply depends on it. -/
theorem failed_read_leaves_no_trace (b : Buffer) (request : Request) {e : StreamError}
    (hr : request.IsRead) (he : request.failure (request.perform b).1 = some e)
    (later : List Request) :
    let after := (request.perform b).2
    after.data = b.data ∧ after.position = b.position ∧ after.order = b.order ∧
      after.counters.withoutReadFailures = b.counters.withoutReadFailures ∧
      (request.CountsFailure →
        after.counters.readFailures = b.counters.readFailures + 1) ∧
      (session Request.perform later after).1 = (session Request.perform later b).1 ∧
      Alike (session Request.perform later after).2 (session Request.perform later b).2 := by
  have hfailed := Request.perform_failure hr he
  have halike : Alike (request.perform b).2 b := by
    rcases hfailed with honce | ⟨-, hsame⟩
    · exact honce.alike
    · rw [hsame]
      exact ⟨rfl, rfl, rfl⟩
  -- What is alike now stays alike under all later requests.
  obtain ⟨hreplies, hlast⟩ := session_congr Request.perform_congr later halike
  refine ⟨congrArg Cursor.data halike.cursor_eq, halike.position_eq, halike.order_eq,
    halike.counters_eq, fun hcounts => ?_, hreplies, hlast⟩
  rcases hfailed with honce | ⟨hnot, -⟩
  · rw [honce.counters_eq]
    rfl
  · exact absurd hcounts hnot

theorem cut_text_leaves_no_trace :
    let b := (ofBytes [7, 4, 0, 104, 105]).advance 1
    let request := Request.stream (.read (.string .short none))
    request.IsRead ∧ request.CountsFailure ∧
      request.failure (request.perform b).1 = some (.outOfBounds 4 2 3) ∧
      (request.perform b).2.position = 1 ∧
      (request.perform b).2.counters.readFailures = 1 ∧
      (session Request.perform [.peek 4, .consume 5] (request.perform b).2).1 =
        (session Request.perform [.peek 4, .consume 5] b).1 := by
  intro b request
  have he : request.failure (request.perform b).1 = some (.outOfBounds 4 2 3) := by decide
  have htrace := failed_read_leaves_no_trace b request trivial he [.peek 4, .consume 5]
  exact ⟨trivial, rfl, he, htrace.2.1, htrace.2.2.2.2.1 rfl, htrace.2.2.2.2.2.1⟩

end Buffer
end OctetStream
