import OctetStream.Proofs.Channel.Steady
import OctetStream.Proofs.Lockstep

/-! How endpoints cut and interrupt their transfers cannot be seen through a channel, but for the
tally of short reads. Channels that differ in nothing else are in lockstep. -/

namespace OctetStream

theorem rel_cases {α β : Type} {R : α → β → Prop} {x : Option α} {y : Option β}
    (h : Option.Rel R x y) : x = none ∧ y = none ∨ ∃ a b, x = some a ∧ y = some b ∧ R a b := by
  cases h with
  | none => exact Or.inl ⟨rfl, rfl⟩
  | some hab => exact Or.inr ⟨_, _, rfl, rfl, hab⟩

structure Source.Alike (s t : Source) : Prop where
  cursor_eq : s.cursor = t.cursor
  left : s.Steady
  right : t.Steady

structure Sink.Alike (s t : Sink) : Prop where
  contents_eq : s.contents = t.contents
  flushFault_eq : s.flushFault = t.flushFault
  flushes_eq : s.flushes = t.flushes
  left : s.Steady
  right : t.Steady

theorem Sink.Alike.flush {s t : Sink} (h : s.Alike t) :
    s.flush.1 = t.flush.1 ∧ s.flush.2.Alike t.flush.2 := by
  have hsnd (u : Sink) : u.flush.2 = { u with flushes := u.flushes + 1 } := by
    unfold Sink.flush
    split <;> rfl
  constructor
  · unfold Sink.flush
    rw [h.flushFault_eq]
    cases t.flushFault <;> rfl
  · rw [hsnd, hsnd]
    exact ⟨h.contents_eq, h.flushFault_eq, congrArg (· + 1) h.flushes_eq, h.left, h.right⟩

namespace Channel

structure Alike (c d : Channel) : Prop where
  source : Option.Rel Source.Alike c.source d.source
  sink : Option.Rel Sink.Alike c.sink d.sink
  order_eq : c.order = d.order
  limit_eq : c.limit = d.limit
  consumed_eq : c.consumed = d.consumed
  counters_eq : c.counters.withoutShortReads = d.counters.withoutShortReads
  journal_eq : c.journal = d.journal

namespace Alike

variable {c d : Channel} (h : Alike c d)
include h

theorem failRead (want : Nat) (e : StreamError) :
    Alike (c.failRead want e) (d.failRead want e) where
  source := h.source
  sink := h.sink
  order_eq := h.order_eq
  limit_eq := h.limit_eq
  consumed_eq := h.consumed_eq
  counters_eq := congrArg Counters.addReadFailure h.counters_eq
  journal_eq := by simp only [Channel.failRead, Channel.log, h.consumed_eq, h.journal_eq]

theorem failWrite (offered : Nat) (e : StreamError) :
    Alike (c.failWrite offered e) (d.failWrite offered e) where
  source := h.source
  sink := h.sink
  order_eq := h.order_eq
  limit_eq := h.limit_eq
  consumed_eq := h.consumed_eq
  counters_eq := congrArg Counters.addWriteFailure h.counters_eq
  journal_eq := congrArg (_ :: ·) h.journal_eq

theorem withSource {s t : Source} (hst : s.Alike t) (m n : Nat) :
    Alike { c with source := some s, counters := c.counters.addShortReads m }
      { d with source := some t, counters := d.counters.addShortReads n } where
  source := .some hst
  sink := h.sink
  order_eq := h.order_eq
  limit_eq := h.limit_eq
  consumed_eq := h.consumed_eq
  counters_eq := h.counters_eq
  journal_eq := h.journal_eq

theorem addRead (n : Nat) :
    Alike { c with consumed := c.consumed + n, counters := c.counters.addRead n }
      { d with consumed := d.consumed + n, counters := d.counters.addRead n } where
  source := h.source
  sink := h.sink
  order_eq := h.order_eq
  limit_eq := h.limit_eq
  consumed_eq := congrArg (· + n) h.consumed_eq
  counters_eq := congrArg (Counters.addRead n) h.counters_eq
  journal_eq := h.journal_eq

theorem withSink {s t : Sink} (hst : s.Alike t) :
    Alike { c with sink := some s } { d with sink := some t } where
  source := h.source
  sink := .some hst
  order_eq := h.order_eq
  limit_eq := h.limit_eq
  consumed_eq := h.consumed_eq
  counters_eq := h.counters_eq
  journal_eq := h.journal_eq

theorem addWrite (n : Nat) :
    Alike { c with counters := c.counters.addWrite n }
      { d with counters := d.counters.addWrite n } where
  source := h.source
  sink := h.sink
  order_eq := h.order_eq
  limit_eq := h.limit_eq
  consumed_eq := h.consumed_eq
  counters_eq := congrArg (Counters.addWrite n) h.counters_eq
  journal_eq := h.journal_eq

theorem supply_eq : c.supply = d.supply := by
  unfold supply
  rcases rel_cases h.source with ⟨hc, hd⟩ | ⟨s, t, hc, hd, hst⟩
  · rw [hc, hd]
  · simp only [hc, hd, hst.cursor_eq]

theorem receive (want : Nat) :
    (c.receive want).1 = (d.receive want).1 ∧ Alike (c.receive want).2 (d.receive want).2 := by
  rcases rel_cases h.source with ⟨hc, hd⟩ | ⟨s, t, hc, hd, hst⟩
  · simp only [Channel.receive, hc, hd]
    exact ⟨trivial, h.failRead want .noSource⟩
  · obtain ⟨s', m, hs, hscur, hrecv⟩ := receive_of_steady hc hst.left want
    obtain ⟨t', n, ht, htcur, hrecv'⟩ := receive_of_steady hd hst.right want
    have hst' : s'.Alike t' := ⟨by rw [hscur, htcur, hst.cursor_eq], hs, ht⟩
    rw [hrecv, hrecv', hst.cursor_eq]
    -- Both sources have as much left: both transfers succeed, or both run dry at the same place.
    by_cases hw : want ≤ t.cursor.remaining
    · simp only [if_pos hw]
      exact ⟨trivial, (h.withSource hst' m n).addRead want⟩
    · simp only [if_neg hw]
      exact ⟨trivial, (h.withSource hst' m n).failRead want _⟩

theorem send (data : Bytes) : (Comparison.exact Alike).Results (c.send data) (d.send data) := by
  rcases rel_cases h.sink with ⟨hc, hd⟩ | ⟨s, t, hc, hd, hst⟩
  · simp only [Channel.send, hc, hd]
    exact Or.inr ⟨rfl, h.failWrite data.length .noSink⟩
  · obtain ⟨s', hs, hscon, hsfault, hsflush, hsend⟩ := send_of_steady hc hst.left data
    obtain ⟨t', ht, htcon, htfault, htflush, hsend'⟩ := send_of_steady hd hst.right data
    have hst' : s'.Alike t' := ⟨by rw [hscon, htcon, hst.contents_eq],
      by rw [hsfault, htfault, hst.flushFault_eq], by rw [hsflush, htflush, hst.flushes_eq], hs, ht⟩
    -- Steady sinks accept all, so neither transfer fails.
    rw [hsend, hsend']
    exact ⟨rfl, (h.withSink hst').addWrite data.length⟩

theorem flush : (Comparison.exact Alike).Results (Channel.flush c) (Channel.flush d) := by
  unfold Channel.flush
  rcases rel_cases h.sink with ⟨hc, hd⟩ | ⟨s, t, hc, hd, hst⟩
  · rw [hc, hd]
    exact ⟨rfl, h⟩
  · obtain ⟨hresult, hafter⟩ := hst.flush
    rcases hs : s.flush with ⟨r, s'⟩
    rcases ht : t.flush with ⟨r', t'⟩
    rw [hs, ht] at hresult hafter
    obtain rfl : r = r' := hresult
    simp only [hc, hd, hs, ht]
    cases r with
    | ok _ => exact ⟨rfl, h.withSink hafter⟩
    | error fault => exact Or.inr ⟨rfl, h.withSink hafter⟩

end Alike

theorem lockstep_alike : Lockstep Alike where
  order h := h.order_eq
  offset h := h.consumed_eq
  limit h := congrArg some h.limit_eq
  supply h := h.supply_eq
  receive n _ _ h := h.receive n
  send data _ _ h := h.send data
  readBytes n := Comparison.related_demandAllocated fun h => h.receive n
  atomically _ hxy := hxy

theorem Request.perform_congr (request : Request) (c d : Channel) (h : Alike c d) :
    (request.perform c).1 = (request.perform d).1 ∧
      Alike (request.perform c).2 (request.perform d).2 := by
  cases request with
  | stream request => exact lockstep_alike.perform request c d h
  | flush => exact Comparison.settle_congr h.flush

def rescript (reads writes : List Event) (c : Channel) : Channel :=
  { c with
    source := c.source.map fun source => { source with script := reads }
    sink := c.sink.map fun sink => { sink with script := writes } }

theorem alike_rescript {c : Channel} (hc : ∀ source ∈ c.source, source.broken = none)
    {reads reads' writes writes' : List Event} (hr : ∀ event ∈ reads, event.Delays)
    (hr' : ∀ event ∈ reads', event.Delays) (hw : ∀ event ∈ writes, event.Delays)
    (hw' : ∀ event ∈ writes', event.Delays) :
    Alike (c.rescript reads writes) (c.rescript reads' writes') where
  source := by
    unfold rescript
    cases hsource : c.source with
    | none => exact .none
    | some source => exact .some ⟨rfl, ⟨hr, hc source hsource⟩, ⟨hr', hc source hsource⟩⟩
  sink := by
    unfold rescript
    cases c.sink with
    | none => exact .none
    | some sink => exact .some ⟨rfl, rfl, rfl, hw, hw'⟩
  order_eq := rfl
  limit_eq := rfl
  consumed_eq := rfl
  counters_eq := rfl
  journal_eq := rfl

theorem Alike.map_taken_eq {c d : Channel} (h : Alike c d) :
    c.source.map Source.taken = d.source.map Source.taken := by
  rcases rel_cases h.source with ⟨hc, hd⟩ | ⟨s, t, hc, hd, hst⟩
  · rw [hc, hd]
  · rw [hc, hd]
    exact congrArg (fun cursor => some cursor.passed) hst.cursor_eq

theorem Alike.map_contents_eq {c d : Channel} (h : Alike c d) :
    c.sink.map Sink.contents = d.sink.map Sink.contents := by
  rcases rel_cases h.sink with ⟨hc, hd⟩ | ⟨s, t, hc, hd, hst⟩
  · rw [hc, hd]
  · rw [hc, hd]
    exact congrArg some hst.contents_eq

theorem Alike.map_flushes_eq {c d : Channel} (h : Alike c d) :
    c.sink.map Sink.flushes = d.sink.map Sink.flushes := by
  rcases rel_cases h.sink with ⟨hc, hd⟩ | ⟨s, t, hc, hd, hst⟩
  · rw [hc, hd]
  · rw [hc, hd]
    exact congrArg some hst.flushes_eq

/-- Replies, errors with their texts and slots included, and all that is left at the end but the
short reads and the calls made of the endpoints do not depend on how these delay. -/
theorem session_rescript (c : Channel) (hc : ∀ source ∈ c.source, source.broken = none)
    {reads reads' writes writes' : List Event} (hr : ∀ event ∈ reads, event.Delays)
    (hr' : ∀ event ∈ reads', event.Delays) (hw : ∀ event ∈ writes, event.Delays)
    (hw' : ∀ event ∈ writes', event.Delays) (requests : List Request) :
    let one := session Request.perform requests (c.rescript reads writes)
    let other := session Request.perform requests (c.rescript reads' writes')
    one.1 = other.1 ∧
      one.2.consumed = other.2.consumed ∧
      one.2.source.map Source.taken = other.2.source.map Source.taken ∧
      one.2.sink.map Sink.contents = other.2.sink.map Sink.contents ∧
      one.2.sink.map Sink.flushes = other.2.sink.map Sink.flushes ∧
      one.2.counters.withoutShortReads = other.2.counters.withoutShortReads ∧
      one.2.journal = other.2.journal := by
  obtain ⟨hreplies, hlast⟩ :=
    session_congr Request.perform_congr requests (alike_rescript hc hr hr' hw hw')
  exact ⟨hreplies, hlast.consumed_eq, hlast.map_taken_eq, hlast.map_contents_eq,
    hlast.map_flushes_eq, hlast.counters_eq, hlast.journal_eq⟩

theorem session_rescript_trickling :
    let c := duplex (.ofBytes [5, 0, 104]) {}
    let trickle : List Event := [.transfer 1, .fail .interrupt, .transfer 1]
    let requests : List Request := [.stream (.write (.string .short none "hi")),
      .stream (.read (.string .short none)), .stream (.readInto [9]), .flush]
    let one := session Request.perform requests (c.rescript trickle trickle)
    let other := session Request.perform requests (c.rescript [] [])
    one.1 = other.1 ∧ one.2.consumed = 2 ∧ other.2.consumed = 2 ∧
      one.2.counters.shortReads = 2 ∧ other.2.counters.shortReads = 1 := by
  intro c trickle requests one other
  have hdelays : ∀ event ∈ trickle, event.Delays := by decide
  have hnone : ∀ event ∈ ([] : List Event), event.Delays := by decide
  have hintact : ∀ source ∈ c.source, source.broken = none := by decide
  obtain ⟨hreplies, hconsumed, -⟩ :=
    session_rescript c hintact hdelays hnone hdelays hnone requests
  have hother : other.2.consumed = 2 := by decide +kernel
  refine ⟨hreplies, hconsumed.trans hother, hother, ?_, ?_⟩
  · decide +kernel
  · decide +kernel

end Channel
end OctetStream
