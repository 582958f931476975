import OctetStream.Proofs.Buffer.Within

/-! A buffer and its plain form, which has no reads of its own: fresh storage is set aside and
filled by one transfer, and a read of several parts is just its parts. The reads of a buffer answer
what those of its plain form do, but leave nothing behind when they fail. -/

namespace OctetStream.Buffer

open Medium

structure Plain where
  buffer : Buffer

namespace Plain

def receive (n : Nat) (p : Plain) : Receipt × Plain :=
  let (receipt, b) := p.buffer.receive n
  (receipt, ⟨b⟩)

def send (data : Bytes) : Action Plain Unit := fun p =>
  match Buffer.send data p.buffer with
  | .ok done b => .ok done ⟨b⟩
  | .error e b => .error e ⟨b⟩

instance : Medium Plain where
  order p := p.buffer.order
  offset p := p.buffer.position
  counters p := p.buffer.counters
  payloadLimit _ := none
  supply p := p.buffer.remaining
  receive := receive
  send := send
  readBytes := demandAllocated receive
  atomically read := read

def comparison : Comparison Buffer Plain where
  states b p := p.buffer = b
  failures e _ f _ := e = f
  waives _ := False

theorem related_fetch (n : Nat) : comparison.Related (fetch n) (fetch n) := by
  rintro _ p rfl
  show comparison.Results (demand Buffer.receive n p.buffer) (demand receive n p)
  unfold demand receive
  rcases p.buffer.receive n with ⟨⟨got, failure⟩, b⟩
  cases failure with
  | none => exact ⟨rfl, rfl⟩
  | some e => exact Or.inr rfl

theorem related_readBytes {n : Nat} (hn : n ≤ Limits.maxAllocation) :
    comparison.Related (Medium.readBytes n) (Medium.readBytes n) := by
  intro b p h
  have hsmall : ¬Limits.maxAllocation < n := Nat.not_lt.mpr hn
  show comparison.Results (Buffer.readBytes n b) (demandAllocated receive n p)
  rw [readBytes_eq_demandAllocated hn]
  unfold demandAllocated
  simp only [if_neg hsmall]
  exact related_fetch n b p h

theorem agreesWithin : comparison.AgreesWithin Limits.maxAllocation where
  order h := congrArg Buffer.order h.symm
  fetch := related_fetch
  readBytes := related_readBytes
  permit _ := fun _ _ h => ⟨rfl, h⟩
  untilNul := by
    rintro _ p rfl
    exact Comparison.related_collectUntilNul (related_fetch 1) (fun _ _ _ _ _ => rfl) none
      p.buffer.remaining 0 [] _ p rfl
  atomically _ hxy := hxy.atomically fun _ _ _ _ => id
  invalidUtf8 h _ := congrArg (fun b => StreamError.invalidUtf8 (position b)) h.symm

end Plain

theorem results_plain (op : ReadOp) (b : Buffer) (hstorable : op.Storable)
    (hdeclared : ∀ len ∈ op.declaredLength b.order b.unread, len ≤ Limits.maxAllocation) :
    Plain.comparison.Results (op.perform b) (op.perform (⟨b⟩ : Plain)) := by
  cases hrun : op.runError with
  | some e =>
    rw [ReadOp.perform_of_runError hrun, ReadOp.perform_of_runError hrun]
    exact Or.inr rfl
  | none => exact Plain.agreesWithin.perform (Nat.le_refl _) rfl hstorable ⟨hrun, hdeclared⟩

/-- Each read of a buffer answers or fails as its plain form does. When they succeed both have left
the same buffer; after a failure a buffer is as before but for the tally of failed reads, whatever
its plain form has consumed. -/
theorem reads_refine_plain_reads (op : ReadOp) (b : Buffer) (hstorable : op.Storable)
    (hdeclared : ∀ len ∈ op.declaredLength b.order b.unread, len ≤ Limits.maxAllocation) :
    (∀ v after, op.perform b = .ok v after → op.perform (⟨b⟩ : Plain) = .ok v ⟨after⟩) ∧
    ∀ e after, op.perform b = .error e after →
      (∃ p, op.perform (⟨b⟩ : Plain) = .error e p) ∧
      after.position = b.position ∧ after.data = b.data ∧
      after.counters.withoutReadFailures = b.counters.withoutReadFailures := by
  have hresults := results_plain op b hstorable hdeclared
  refine ⟨fun v after hread => ?_, fun e after hfailed => ?_⟩
  · obtain ⟨p, hplain, rfl⟩ := hresults.of_ok hread
    exact hplain
  · obtain ⟨f, p, hplain, rfl⟩ := hresults.of_error id hfailed
    have halike := alike_of_perform_error hfailed
    exact ⟨⟨p, hplain⟩, halike.position_eq, congrArg Cursor.data halike.cursor_eq,
      halike.counters_eq⟩

theorem cut_text_refines_plain_read :
    let b := (ofBytes [7, 4, 0, 104, 105]).advance 1
    let op : ReadOp := .string .short none
    op.declaredLength b.order b.unread = some 4 ∧
      (∃ after, op.perform b = .error (.outOfBounds 4 2 3) after ∧ after.position = 1) ∧
      ∃ p, op.perform (⟨b⟩ : Plain) = .error (.outOfBounds 4 2 3) p ∧ p.buffer.position = 3 := by
  intro b op
  have hdeclared : op.declaredLength b.order b.unread = some 4 := by decide
  have hstored : ∀ len ∈ op.declaredLength b.order b.unread, len ≤ Limits.maxAllocation := by
    rw [hdeclared]
    decide
  have hfailed : op.perform b = .error (.outOfBounds 4 2 3) _ := rfl
  obtain ⟨⟨p, hplain⟩, hposition, -, -⟩ :=
    (reads_refine_plain_reads op b trivial hstored).2 _ _ hfailed
  refine ⟨hdeclared, ⟨_, hfailed, hposition⟩, p, hplain, ?_⟩
  cases hplain
  rfl

end OctetStream.Buffer
