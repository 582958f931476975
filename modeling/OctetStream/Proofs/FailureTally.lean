import OctetStream.Proofs.Agreement
import OctetStream.Proofs.Buffer.Rewind
import OctetStream.Proofs.Channel.Outcome

/-! Failures and their tallies. A channel counts the failures of its transfers, once each, and no
other: not a length above its limit, octets that are no text or a field that has no payload. A
buffer counts the failures of all reads but those of a slice and of runs whose length cannot be
expressed. -/

namespace OctetStream

open Medium

namespace Buffer

variable {b after : Buffer} {e : StreamError}

theorem counters_of_error {op : ReadOp} (h : op.perform b = .error e after) :
    after.counters = if op.runError.isSome then b.counters else b.counters.addReadFailure := by
  cases hrun : op.runError with
  | none => exact (failedOnce_of_error hrun h).counters_eq
  | some f =>
    rw [ReadOp.perform_of_runError hrun] at h
    cases h
    rfl

theorem perform_write_error {op : WriteOp} (h : op.perform b = .error e after) : after = b := by
  rcases WriteOp.perform_eq_error h with ⟨-, hsame⟩ | ⟨data, hsend⟩
  · exact hsame
  · cases hsend

namespace Request

/-- Requests whose failures are not counted: reads of a slice, runs whose length cannot be
expressed, and writes, which fail only where there is no payload to transfer. -/
def uncounted : Request → Bool
  | stream request => request.readOp?.all fun op => op.runError.isSome
  | consume _ | peek _ | reset => true

theorem counters_of_failure (request : Request) (b : Buffer) {e : StreamError}
    (he : request.failure (request.perform b).1 = some e) :
    (request.perform b).2.counters =
      if request.uncounted then b.counters else b.counters.addReadFailure := by
  cases request with
  | stream request =>
    cases hread : request.readOp? with
    | some op =>
      simp only [uncounted, hread, Option.all_some]
      exact counters_of_error (OctetStream.Request.perform_eq_error hread he)
    | none =>
      obtain ⟨op, rfl⟩ := OctetStream.Request.eq_write_of_readOp hread
      have hwrite : op.perform b = .error e _ := Action.eq_error_of_settle he
      exact congrArg Buffer.counters (perform_write_error hwrite)
  | consume n =>
    have hslice : Buffer.consume n b = .error e _ := Action.eq_error_of_settle he
    exact congrArg Buffer.counters (consume_error hslice)
  | peek n => rfl
  | reset => cases he

end Request
end Buffer

def StreamError.ofTransfer : StreamError → Bool
  | sourceFailure _ | sinkFailure _ => true
  | _ => false

def Request.failureTally : Request → Counters → Nat
  | write _, c => c.writeFailures
  | _, c => c.readFailures

theorem ofTransfer_of_payload {op : WriteOp} {order : ByteOrder} {e : StreamError}
    (h : op.payload order = .error e) : e.ofTransfer = false := by
  cases WriteOp.noPayload_of_payload h with
  | hex | string | cstring => rfl
  | run hlength =>
    obtain ⟨max, rfl, -⟩ := eq_lengthLimit_of_runLength (congrArg errorOf hlength)
    rfl

namespace Channel

def tallied (n : Nat) : Comparison Channel Channel where
  states c d := c = d ∧ c.counters.readFailures = n
  failures e c f d := e = f ∧ c = d ∧ c.counters.readFailures = n + e.ofTransfer.toNat
  waives _ := False

variable {n : Nat}

theorem related_demand (want : Nat) :
    (tallied n).Related (demand receive want) (demand receive want) := by
  rintro c _ ⟨rfl, hn⟩
  have hreceived := received c want
  unfold demand
  generalize c.receive want = outcome at hreceived ⊢
  cases hreceived with
  | noSource absent => exact Or.inr ⟨rfl, rfl, congrArg (· + 1) hn⟩
  | whole short present enough cursor_eq => exact ⟨rfl, rfl, hn⟩
  | part short got stop present fewer enough cursor_eq =>
    have hstop : (stop.sourceError got want).ofTransfer = true := by cases stop <;> rfl
    refine Or.inr ⟨rfl, rfl, ?_⟩
    rw [hstop]
    exact congrArg (· + 1) hn

theorem related_readBytes (want : Nat) :
    (tallied n).Related (demandAllocated receive want) (demandAllocated receive want) := by
  unfold demandAllocated
  by_cases hstored : Limits.maxAllocation < want
  · simp only [if_pos hstored]
    exact Comparison.related_throw fun _ _ h => ⟨rfl, h⟩
  · simp only [if_neg hstored]
    exact related_demand want

theorem related_permit (len : Nat) : (tallied n).Related (permit len) (permit len) := by
  rintro c _ ⟨rfl, hn⟩
  show (tallied n).Results (if len ≤ c.limit then _ else _) (if len ≤ c.limit then _ else _)
  by_cases hlen : len ≤ c.limit
  · simp only [if_pos hlen]
    exact ⟨rfl, rfl, hn⟩
  · simp only [if_neg hlen]
    exact Or.inr ⟨rfl, rfl, hn⟩

theorem tallied_agrees : (tallied n).Agrees where
  order h := congrArg Channel.order h.1
  fetch := related_demand
  readBytes := related_readBytes
  payload len := (related_permit len).bind fun _ => related_readBytes len
  untilNul := by
    rintro c _ ⟨rfl, hn⟩
    exact Comparison.related_collectUntilNul (related_demand 1) (fun _ _ _ _ h => ⟨rfl, h⟩) _ _ _ _
      c c ⟨rfl, hn⟩
  atomically _ hxy := hxy
  invalidUtf8 h h' := ⟨congrArg (fun c => StreamError.invalidUtf8 (offset c)) h.1, h'⟩
  lengthLimit _ _ h := ⟨rfl, h⟩

theorem readFailures_of_error {op : ReadOp} {c after : Channel} {e : StreamError}
    (h : op.perform c = .error e after) :
    after.counters.readFailures = c.counters.readFailures + e.ofTransfer.toNat := by
  have hresults := tallied_agrees.perform op c c ⟨rfl, rfl⟩
  rw [h] at hresults
  exact (hresults.resolve_left id).2.2

theorem writeFailures_of_error {op : WriteOp} {c after : Channel} {e : StreamError}
    (h : op.perform c = .error e after) :
    after.counters.writeFailures = c.counters.writeFailures + e.ofTransfer.toNat := by
  rcases WriteOp.perform_eq_error h with ⟨hpayload, rfl⟩ | ⟨data, hsend⟩
  · rw [ofTransfer_of_payload hpayload]
    rfl
  · have hsent := sent c data
    rw [show c.send data = .error e after from hsend] at hsent
    cases hsent with
    | noSink absent => rfl
    | part accepted stop present fewer contents_eq => cases stop <;> rfl

theorem failureTally_of_failure (request : OctetStream.Request) (c : Channel) {e : StreamError}
    (he : request.failure (request.perform c).1 = some e) :
    request.failureTally (request.perform c).2.counters =
      request.failureTally c.counters + e.ofTransfer.toNat := by
  cases hread : request.readOp? with
  | some op =>
    have htally := readFailures_of_error (OctetStream.Request.perform_eq_error hread he)
    cases request with
    | write op => cases hread
    | _ => exact htally
  | none =>
    obtain ⟨op, rfl⟩ := OctetStream.Request.eq_write_of_readOp hread
    exact writeFailures_of_error (Action.eq_error_of_settle he)

end Channel

/-- What one failure adds to the tallies. On a buffer exactly one failed read, or nothing at all for
the requests that are not counted; on a channel one to the tally of the request if a transfer
failed, and nothing to it otherwise. -/
theorem failures_are_tallied (b : Buffer) (c : Channel) :
    (∀ (request : Buffer.Request) (e : StreamError),
      request.failure (request.perform b).1 = some e →
      (request.perform b).2.counters =
        if request.uncounted then b.counters else b.counters.addReadFailure) ∧
    ∀ (request : Request) (e : StreamError),
      request.failure (request.perform c).1 = some e →
      request.failureTally (request.perform c).2.counters =
        request.failureTally c.counters + e.ofTransfer.toNat :=
  ⟨fun request _ he => request.counters_of_failure b he,
    fun request _ he => Channel.failureTally_of_failure request c he⟩

theorem failures_without_a_tally :
    let slice := Buffer.Request.consume 2
    let b := Buffer.ofBytes [1]
    let text := Request.read (.string .short none)
    let c := Channel.reader (.ofBytes [2, 0, 255, 254])
    let hex := Request.write (.hex "xy")
    slice.failure (slice.perform b).1 = some (.outOfBounds 2 1 0) ∧
      (slice.perform b).2.counters.failures = 0 ∧
      text.failure (text.perform c).1 = some (.invalidUtf8 0) ∧
      (text.perform c).2.counters.failures = 0 ∧
      (hex.failure (hex.perform b).1).isSome = true ∧ (hex.perform b).2.counters.failures = 0 := by
  decide +kernel

end OctetStream
