import OctetStream.Proofs.Channel.Framing
import OctetStream.Proofs.Channel.Outcome
import OctetStream.Proofs.Lockstep

/-! A channel beside a record of its transfers. Whatever the endpoints do, the octets that they
handed over or took and the tallies and log of the channel balance with the record. -/

namespace OctetStream

inductive Transfer
  | read (want : Nat) (receipt : Receipt)
  | write (payload : Bytes) (failure : Option StreamError)
  deriving DecidableEq, Repr

namespace Transfer

def taken : Transfer → Bytes
  | read _ receipt => receipt.got
  | write .. => []

def swallowed : Transfer → Bytes
  | read _ ⟨got, some _⟩ => got
  | _ => []

def isFailedRead : Transfer → Bool
  | read _ receipt => receipt.failure.isSome
  | write .. => false

def sent : Transfer → Option Bytes
  | write payload none => some payload
  | _ => none

def takenAll (ts : List Transfer) : Bytes :=
  ts.flatMap taken

def swallowedAll (ts : List Transfer) : Bytes :=
  ts.flatMap swallowed

def sentAll (ts : List Transfer) : List Bytes :=
  ts.filterMap sent

/-- The octets that a sink takes in the course of these transfers: in order, the payload of each
write that succeeds and a proper prefix of the payload of each that fails. -/
inductive Accepted : List Transfer → Bytes → Prop
  | none : Accepted [] []
  | read {ts b} (want receipt) (before : Accepted ts b) : Accepted (ts ++ [.read want receipt]) b
  | whole {ts b} (payload) (before : Accepted ts b) :
    Accepted (ts ++ [.write payload none]) (b ++ payload)
  | part {ts b part} (payload e) (before : Accepted ts b) (isPrefix : part <+: payload)
    (proper : part.length < payload.length) :
    Accepted (ts ++ [.write payload (some e)]) (b ++ part)

variable (ts : List Transfer) (t : Transfer)

theorem takenAll_concat : takenAll (ts ++ [t]) = takenAll ts ++ t.taken := by
  simp only [takenAll, List.flatMap_append, List.flatMap_singleton]

theorem swallowedAll_concat : swallowedAll (ts ++ [t]) = swallowedAll ts ++ t.swallowed := by
  simp only [swallowedAll, List.flatMap_append, List.flatMap_singleton]

theorem sentAll_concat : sentAll (ts ++ [t]) = sentAll ts ++ t.sent.toList := by
  cases h : t.sent <;> simp [sentAll, h]

end Transfer

namespace Channel

def debugLines (c : Channel) : Nat :=
  c.journal.countP (·.level == .debug)

structure Recorded where
  channel : Channel
  transfers : List Transfer := []
  deriving DecidableEq, Repr

namespace Recorded

def receive (want : Nat) (r : Recorded) : Receipt × Recorded :=
  let (receipt, channel) := r.channel.receive want
  (receipt, ⟨channel, r.transfers ++ [.read want receipt]⟩)

def send (data : Bytes) : Action Recorded Unit := fun r =>
  match r.channel.send data with
  | .ok () channel => .ok () ⟨channel, r.transfers ++ [.write data none]⟩
  | .error e channel => .error e ⟨channel, r.transfers ++ [.write data (some e)]⟩

instance : Medium Recorded where
  order r := r.channel.order
  offset r := r.channel.consumed
  counters r := r.channel.counters
  payloadLimit r := some r.channel.limit
  supply r := r.channel.supply
  receive := receive
  send := send
  readBytes := demandAllocated receive
  atomically read := read

def perform : (request : Request) → Recorded → request.Reply × Recorded
  | .stream request, r => request.perform r
  | .flush, r =>
    let (reply, channel) := Action.settle Channel.flush r.channel
    (reply, { r with channel := channel })

end Recorded

open Transfer

structure SourceBalance (start c : Channel) (ts : List Transfer) : Prop where
  consumed_eq : c.consumed = c.counters.bytesRead
  length_taken : (takenAll ts).length = c.consumed + (swallowedAll ts).length
  taken_front : takenAll ts <+: start.ahead
  complete : ∀ want got, .read want ⟨got, none⟩ ∈ ts → got.length = want
  source_eq : c.source.map Source.cursor =
    start.source.map fun s => s.cursor.advance (takenAll ts).length

structure SinkBalance (start c : Channel) (ts : List Transfer) : Prop where
  accepted : ∀ sink, start.sink = some sink → ∃ after b, c.sink = some after ∧
    after.contents = sink.contents ++ b ∧ Accepted ts b
  bytesWritten_eq : c.counters.bytesWritten = (sentAll ts).flatten.length
  writes_eq : c.counters.writes = (sentAll ts).length

variable {start c d : Channel} {ts : List Transfer}

namespace SourceBalance

variable (h : SourceBalance start c ts)
include h

theorem cursor_eq {source : Source} (hsource : c.source = some source) :
    ∃ first, start.source = some first ∧
      source.cursor = first.cursor.advance (takenAll ts).length := by
  have hcursor := h.source_eq
  rw [hsource, Option.map_some, eq_comm, Option.map_eq_some_iff] at hcursor
  obtain ⟨first, hfirst, heq⟩ := hcursor
  exact ⟨first, hfirst, heq.symm⟩

theorem take_front {source : Source} (hsource : c.source = some source) (n : Nat) :
    takenAll ts ++ source.cursor.ahead.take n <+: start.ahead := by
  obtain ⟨first, hfirst, hcursor⟩ := h.cursor_eq hsource
  have hahead : start.ahead = first.cursor.ahead := by rw [ahead, hfirst]
  obtain ⟨rest, hrest⟩ := h.taken_front
  have hleft : source.cursor.ahead = rest := by
    rw [hcursor, Cursor.ahead_advance, ← hahead, ← hrest, List.drop_left]
  rw [hleft, ← hrest, List.prefix_append_right_inj]
  exact List.take_prefix n rest

theorem advance_eq {source after : Source} {n : Nat} (hsource : c.source = some source)
    (hafter : after.cursor = source.cursor.advance n) :
    some after.cursor = start.source.map fun s => s.cursor.advance ((takenAll ts).length + n) := by
  obtain ⟨first, hfirst, hcursor⟩ := h.cursor_eq hsource
  rw [hfirst, Option.map_some, hafter, hcursor, Cursor.advance_advance]

theorem concat {t : Transfer} (hbytes : d.consumed = d.counters.bytesRead)
    (hconsumed : c.consumed + t.taken.length = d.consumed + t.swallowed.length)
    (hfront : takenAll ts ++ t.taken <+: start.ahead)
    (hcomplete : ∀ want got, t = .read want ⟨got, none⟩ → got.length = want)
    (hsource : d.source.map Source.cursor =
      start.source.map fun s => s.cursor.advance ((takenAll ts).length + t.taken.length)) :
    SourceBalance start d (ts ++ [t]) where
  consumed_eq := hbytes
  length_taken := by
    have hlength := h.length_taken
    rw [takenAll_concat, swallowedAll_concat, List.length_append, List.length_append]
    omega
  taken_front := by rwa [takenAll_concat]
  complete want got hmem := by
    rcases List.mem_append.mp hmem with hbefore | hlast
    · exact h.complete want got hbefore
    · exact hcomplete want got (List.mem_singleton.mp hlast).symm
  source_eq := by rwa [takenAll_concat, List.length_append]

theorem receive (want : Nat) :
    SourceBalance start (c.receive want).2 (ts ++ [.read want (c.receive want).1]) := by
  have hreceived := received c want
  generalize c.receive want = outcome at hreceived ⊢
  cases hreceived with
  | noSource absent =>
    refine h.concat h.consumed_eq rfl ?_ ?_ h.source_eq
    · rw [taken, List.append_nil]
      exact h.taken_front
    · rintro _ _ ⟨⟩
  | whole short present enough cursor_eq =>
    have hlen := List.length_take_of_le enough
    refine h.concat ?_ ?_ (h.take_front present want) ?_ ?_
    · exact congrArg (· + want) h.consumed_eq
    · simp only [taken, swallowed, hlen, List.length_nil, Nat.add_zero]
    · rintro _ _ ⟨⟩
      exact hlen
    · simp only [taken, hlen]
      exact h.advance_eq present cursor_eq
  | part short got stop present fewer enough cursor_eq =>
    have hlen := List.length_take_of_le enough
    refine h.concat h.consumed_eq rfl (h.take_front present got) ?_ ?_
    · rintro _ _ ⟨⟩
    · simp only [taken, hlen]
      exact h.advance_eq present cursor_eq

-- Writes do not touch the source.
theorem send (data : Bytes) (failure : Option StreamError) (hsource : d.source = c.source)
    (hconsumed : d.consumed = c.consumed)
    (hcount : d.counters.bytesRead = c.counters.bytesRead) :
    SourceBalance start d (ts ++ [.write data failure]) := by
  refine h.concat ?_ ?_ ?_ nofun ?_
  · rw [hconsumed, hcount]
    exact h.consumed_eq
  · rw [hconsumed]
    rfl
  · rw [taken, List.append_nil]
    exact h.taken_front
  · rw [hsource]
    exact h.source_eq

end SourceBalance

namespace SinkBalance

variable (h : SinkBalance start c ts)
include h

theorem concat {t : Transfer}
    (haccepted : ∀ sink b, c.sink = some sink → Accepted ts b → ∃ after more, d.sink = some after ∧
      after.contents = sink.contents ++ more ∧ Accepted (ts ++ [t]) (b ++ more))
    (hbytes : d.counters.bytesWritten = c.counters.bytesWritten + t.sent.toList.flatten.length)
    (hwrites : d.counters.writes = c.counters.writes + t.sent.toList.length) :
    SinkBalance start d (ts ++ [t]) where
  accepted first hfirst := by
    obtain ⟨before, b, hbefore, heq, hb⟩ := h.accepted first hfirst
    obtain ⟨after, more, hafter, hcontents, hmore⟩ := haccepted before b hbefore hb
    refine ⟨after, b ++ more, hafter, ?_, hmore⟩
    rw [hcontents, heq, List.append_assoc]
  bytesWritten_eq := by
    rw [sentAll_concat, List.flatten_append, List.length_append, hbytes, h.bytesWritten_eq]
  writes_eq := by
    rw [sentAll_concat, List.length_append, hwrites, h.writes_eq]

-- Reads do not touch the sink.
theorem receive (want : Nat) :
    SinkBalance start (c.receive want).2 (ts ++ [.read want (c.receive want).1]) := by
  have hreceived := received c want
  generalize c.receive want = outcome at hreceived ⊢
  have hkept (receipt : Receipt) {sink : Sink} {b : Bytes} (hsink : c.sink = some sink)
      (hb : Accepted ts b) : ∃ after more, c.sink = some after ∧
        after.contents = sink.contents ++ more ∧
        Accepted (ts ++ [.read want receipt]) (b ++ more) := by
    refine ⟨sink, [], hsink, (List.append_nil _).symm, ?_⟩
    rw [List.append_nil]
    exact .read want receipt hb
  cases hreceived with
  | noSource absent => exact h.concat (fun _ _ => hkept _) rfl rfl
  | whole short present enough cursor_eq => exact h.concat (fun _ _ => hkept _) rfl rfl
  | part short got stop present fewer enough cursor_eq =>
    exact h.concat (fun _ _ => hkept _) rfl rfl

end SinkBalance

def LogsFailures (c : Channel) : Prop :=
  c.counters.failures = c.debugLines

theorem LogsFailures.failRead (h : LogsFailures c) (want : Nat) (e : StreamError) :
    LogsFailures (c.failRead want e) := by
  have hlines : (c.failRead want e).debugLines = c.debugLines + 1 := List.countP_cons_of_pos rfl
  have hcount : (c.failRead want e).counters.failures = c.counters.failures + 1 :=
    Nat.succ_add ..
  rw [LogsFailures, hlines, hcount, h]

theorem LogsFailures.failWrite (h : LogsFailures c) (offered : Nat) (e : StreamError) :
    LogsFailures (c.failWrite offered e) := by
  have hlines : (c.failWrite offered e).debugLines = c.debugLines + 1 :=
    List.countP_cons_of_pos rfl
  rw [LogsFailures, hlines, ← h]
  rfl

theorem LogsFailures.receive (h : LogsFailures c) (want : Nat) :
    LogsFailures (c.receive want).2 := by
  have hreceived := received c want
  generalize c.receive want = outcome at hreceived ⊢
  cases hreceived with
  | noSource absent => exact h.failRead want .noSource
  | whole short present enough cursor_eq => exact h
  | part short got stop present fewer enough cursor_eq => exact LogsFailures.failRead h want _

theorem settle_flush (c : Channel) :
    (Action.settle Channel.flush c).2 = { c with sink := c.sink.map fun s => s.flush.2 } := by
  unfold Action.settle Channel.flush
  cases hsink : c.sink with
  | none =>
    simp only [Option.map_none]
    rw [← hsink]
  | some sink =>
    rcases hflush : sink.flush with ⟨reply, after⟩
    cases reply <;> simp only [hflush, Option.map_some]

structure Balanced (start : Channel) (r : Recorded) : Prop where
  source : SourceBalance start r.channel r.transfers
  sink : SinkBalance start r.channel r.transfers
  logged : LogsFailures r.channel

namespace Balanced

variable {r : Recorded} (h : Balanced start r)
include h

theorem receive (want : Nat) : Balanced start (r.receive want).2 where
  source := h.source.receive want
  sink := h.sink.receive want
  logged := h.logged.receive want

theorem send (data : Bytes) :
    (Comparison.exact fun r c => r.channel = c ∧ Balanced start r).Results (r.send data)
      (r.channel.send data) := by
  have hsent := sent r.channel data
  unfold Recorded.send
  generalize r.channel.send data = outcome at hsent ⊢
  cases hsent with
  | noSink absent =>
    refine Or.inr ⟨rfl, rfl, ?_, ?_, h.logged.failWrite data.length .noSink⟩
    · exact h.source.send data _ rfl rfl rfl
    · refine h.sink.concat (fun sink b hsink => ?_) rfl rfl
      rw [absent] at hsink
      cases hsink
  | @whole sink after present contents_eq =>
    refine ⟨rfl, rfl, ?_, ?_, h.logged⟩
    · exact h.source.send data _ rfl rfl rfl
    · refine h.sink.concat (fun before b hbefore hb => ?_) ?_ rfl
      · obtain rfl : sink = before := Option.some.inj (present.symm.trans hbefore)
        exact ⟨after, data, rfl, contents_eq, .whole data hb⟩
      · simp [Transfer.sent, Counters.addWrite]
  | @part sink after accepted stop present fewer contents_eq =>
    refine Or.inr ⟨rfl, rfl, ?_, ?_, LogsFailures.failWrite h.logged data.length _⟩
    · exact h.source.send data _ rfl rfl rfl
    · refine h.sink.concat (fun before b hbefore hb => ?_) rfl rfl
      obtain rfl : sink = before := Option.some.inj (present.symm.trans hbefore)
      have hproper : (data.take accepted).length < data.length := by
        rw [List.length_take]
        omega
      exact ⟨after, data.take accepted, rfl, contents_eq,
        .part data _ hb (List.take_prefix accepted data) hproper⟩

theorem flush : Balanced start { r with channel := (Action.settle Channel.flush r.channel).2 } := by
  rw [settle_flush]
  constructor
  · exact ⟨h.source.consumed_eq, h.source.length_taken, h.source.taken_front, h.source.complete,
      h.source.source_eq⟩
  · refine ⟨fun first hfirst => ?_, h.sink.bytesWritten_eq, h.sink.writes_eq⟩
    obtain ⟨before, b, hbefore, hcontents, hb⟩ := h.sink.accepted first hfirst
    refine ⟨before.flush.2, b, by rw [hbefore, Option.map_some], ?_, hb⟩
    rw [contents_flush, hcontents]
  · exact h.logged

end Balanced

theorem Recorded.receive_congr {start : Channel} {r : Recorded} {c : Channel}
    (h : r.channel = c ∧ Balanced start r) (n : Nat) :
    (r.receive n).1 = (c.receive n).1 ∧
      (r.receive n).2.channel = (c.receive n).2 ∧ Balanced start (r.receive n).2 := by
  obtain ⟨rfl, h⟩ := h
  exact ⟨rfl, rfl, h.receive n⟩

theorem lockstep_recorded (start : Channel) :
    Lockstep fun (r : Recorded) (c : Channel) => r.channel = c ∧ Balanced start r where
  order h := congrArg Channel.order h.1
  offset h := congrArg Channel.consumed h.1
  limit h := congrArg (fun c => some (Channel.limit c)) h.1
  supply h := congrArg Channel.supply h.1
  receive n _ _ h := Recorded.receive_congr h n
  send data r c h := by
    obtain ⟨rfl, h⟩ := h
    exact h.send data
  readBytes n := Comparison.related_demandAllocated fun h => Recorded.receive_congr h n
  atomically _ hxy := hxy

theorem Recorded.perform_congr {start : Channel} (request : Request) (r : Recorded) (c : Channel)
    (h : r.channel = c ∧ Balanced start r) :
    (Recorded.perform request r).1 = (request.perform c).1 ∧
      (Recorded.perform request r).2.channel = (request.perform c).2 ∧
      Balanced start (Recorded.perform request r).2 := by
  cases request with
  | stream request => exact (lockstep_recorded start).perform request r c h
  | flush =>
    obtain ⟨rfl, h⟩ := h
    exact ⟨rfl, rfl, h.flush⟩

theorem balanced_start (source : Option Source) (sink : Option Sink) (o : Options) :
    Balanced (withOptions source sink o) ⟨withOptions source sink o, []⟩ where
  source := ⟨rfl, rfl, List.nil_prefix, nofun, by cases source <;> rfl⟩
  sink := ⟨fun first hfirst => ⟨first, [], hfirst, (List.append_nil _).symm, .none⟩, rfl, rfl⟩
  logged := rfl

theorem SourceBalance.taken_eq (h : SourceBalance start c ts) {first : Source}
    (hfirst : start.source = some first) :
    ∃ last, c.source = some last ∧ last.taken = first.taken ++ takenAll ts := by
  have hcursor := h.source_eq
  rw [hfirst, Option.map_some, Option.map_eq_some_iff] at hcursor
  obtain ⟨last, hlast, heq⟩ := hcursor
  have hahead : start.ahead = first.cursor.ahead := by rw [ahead, hfirst]
  have htaken : takenAll ts = first.cursor.ahead.take (takenAll ts).length := by
    rw [← hahead]
    exact List.prefix_iff_eq_take.mp h.taken_front
  refine ⟨last, hlast, ?_⟩
  rw [Source.taken, heq, Cursor.passed_advance, ← htaken]
  rfl

theorem SourceBalance.got_eq (h : SourceBalance start c ts) {earlier later : List Transfer}
    {want : Nat} {got : Bytes} (hts : ts = earlier ++ .read want ⟨got, none⟩ :: later) :
    got.length = want ∧ got = (start.ahead.drop (takenAll earlier).length).take want := by
  have hlen : got.length = want := h.complete want got (by simp [hts])
  obtain ⟨rest, hrest⟩ := h.taken_front
  -- The record before, this read, the record after it and what is still to come make up the source.
  have hall : start.ahead = takenAll earlier ++ (got ++ (takenAll later ++ rest)) := by
    rw [← hrest, hts]
    simp [takenAll, taken]
  refine ⟨hlen, ?_⟩
  rw [hall, List.drop_left, ← hlen, List.take_left]

theorem swallowedAll_eq_nil (h : ∀ t ∈ ts, t.isFailedRead = false) : swallowedAll ts = [] := by
  rw [swallowedAll, List.flatMap_eq_nil_iff]
  intro t ht
  match t, h t ht with
  | .read _ ⟨_, none⟩, _ => rfl
  | .write .., _ => rfl

/-- Whatever the endpoints do, after every session: the offset counts the octets of the reads that
succeeded, each of these got the next octets of its source, and what else the source gave the failed
reads swallowed; the sink holds the payloads of the writes that succeeded and proper prefixes of the
others, and the tallies and the log count them. -/
theorem transfers_balance (source : Option Source) (sink : Option Sink) (o : Options)
    (requests : List Request) :
    let start := withOptions source sink o
    let after := (session Request.perform requests start).2
    let recorded := session Recorded.perform requests ⟨start, []⟩
    let ts := recorded.2.transfers
    recorded.1 = (session Request.perform requests start).1 ∧ recorded.2.channel = after ∧
    after.consumed = after.counters.bytesRead ∧
    (∀ earlier want got later, ts = earlier ++ .read want ⟨got, none⟩ :: later →
      got.length = want ∧ got = (start.ahead.drop (takenAll earlier).length).take want) ∧
    (∀ first, source = some first →
      ∃ last, after.source = some last ∧ last.taken = first.taken ++ takenAll ts) ∧
    (takenAll ts).length = after.consumed + (swallowedAll ts).length ∧
    ((∀ t ∈ ts, t.isFailedRead = false) → (takenAll ts).length = after.consumed) ∧
    (∀ first, sink = some first → ∃ last b, after.sink = some last ∧
      last.contents = first.contents ++ b ∧ Accepted ts b) ∧
    after.counters.bytesWritten = (sentAll ts).flatten.length ∧
    after.counters.writes = (sentAll ts).length ∧
    after.counters.failures = after.debugLines := by
  intro start after recorded ts
  obtain ⟨hreplies, hchannel, hbalanced⟩ :=
    session_congr Recorded.perform_congr requests ⟨rfl, balanced_start source sink o⟩
  have hafter : recorded.2.channel = after := hchannel
  obtain ⟨hsource, hsink, hlogged⟩ :
      SourceBalance start after ts ∧ SinkBalance start after ts ∧ LogsFailures after := by
    rw [← hafter]
    exact ⟨hbalanced.source, hbalanced.sink, hbalanced.logged⟩
  refine ⟨hreplies, hchannel, hsource.consumed_eq, fun _ _ _ _ => hsource.got_eq,
    fun _ => hsource.taken_eq, hsource.length_taken, fun hnone => ?_, hsink.accepted,
    hsink.bytesWritten_eq, hsink.writes_eq, hlogged⟩
  rw [hsource.length_taken, swallowedAll_eq_nil hnone]
  rfl

end Channel
end OctetStream
