import OctetStream.Proofs.Slots

/-! What a source replies decides what a channel reads. The calls are made here blindly, one after
the other, each for what is still wanted, and only then is it seen how far the replies go on: up to
the first that hands nothing over or is a fault other than an interrupt. The read loop, which looks
at each reply before it makes the next call, comes to the same. -/

namespace OctetStream

abbrev Reply := Except Fault Bytes

namespace Reply

def octets : Reply → Bytes
  | .ok chunk => chunk
  | .error _ => []

def stop? : Reply → Option Stop
  | .ok [] => some .dry
  | .ok (_ :: _) => none
  | .error fault => if fault.isInterrupt then none else some (.fault fault)

def front (tape : List Reply) : List Reply :=
  tape.takeWhile fun reply => (stop? reply).isNone

def joined (tape : List Reply) : Bytes :=
  tape.flatMap octets

def chunks (tape : List Reply) : Nat :=
  tape.countP fun reply => !(octets reply).isEmpty

variable {reply : Reply} {tape : List Reply} {stop : Stop}

theorem front_cons_of_none (h : stop? reply = none) :
    front (reply :: tape) = reply :: front tape := by
  rw [front, List.takeWhile_cons, h]
  rfl

theorem front_cons_of_some (h : stop? reply = some stop) : front (reply :: tape) = [] := by
  rw [front, List.takeWhile_cons, h]
  rfl

theorem chunks_eq_zero_iff : chunks tape = 0 ↔ joined tape = [] := by
  simp [chunks, joined, List.countP_eq_zero]

theorem joined_front_eq_nil (h : ∀ reply ∈ tape, octets reply = []) : joined (front tape) = [] :=
  List.flatMap_eq_nil_iff.mpr fun reply hreply => h reply ((List.takeWhile_sublist _).mem hreply)

end Reply

namespace Source

open Reply

def replies : Nat → Nat → Source → List Reply
  | 0, _, _ => []
  | calls + 1, want, s =>
    let (reply, after) := s.read want
    reply :: after.replies calls (want - (octets reply).length)

variable {s after : Source} {want calls : Nat} {reply : Reply} {tape : List Reply}

theorem replies_succ (h : s.read want = (reply, after)) :
    s.replies (calls + 1) want = reply :: after.replies calls (want - (octets reply).length) := by
  rw [replies, h]

theorem octets_replies_zero : ∀ reply ∈ s.replies calls 0, octets reply = [] := by
  induction calls generalizing s with
  | zero => exact nofun
  | succ calls ih =>
    rcases h : s.read 0 with ⟨reply, after⟩
    rw [replies_succ h, Nat.zero_sub]
    have hnothing : octets reply = [] := by
      cases reply with
      | ok chunk => exact List.eq_nil_of_length_eq_zero (Nat.le_zero.mp (read_eq_ok h).1)
      | error fault => rfl
    exact List.forall_mem_cons.mpr ⟨hnothing, ih⟩

/-- A transfer delivers what the replies handed over up to the first that ended it. It is whole if
that was all that was wanted; then the last chunk does not count as a short read. -/
structure Follows (want : Nat) (tape : List Reply) (d : Delivery) : Prop where
  got_eq : d.got = joined (front tape)
  length_le : (joined (front tape)).length ≤ want
  stop_eq : d.stop = if (joined (front tape)).length = want then none else tape.findSome? stop?
  shortReads_eq : d.shortReads =
    chunks (front tape) - if (joined (front tape)).length = want then 1 else 0

theorem follows_of_nothing (h : ∀ reply ∈ tape, octets reply = []) : Follows 0 tape {} := by
  have hjoined := joined_front_eq_nil h
  have hchunks := chunks_eq_zero_iff.mpr hjoined
  constructor
  · exact hjoined.symm
  · rw [hjoined]
    exact Nat.le_refl _
  · rw [hjoined, if_pos List.length_nil]
  · rw [hjoined, if_pos List.length_nil, hchunks]

theorem follows_of_stop {stop : Stop} (hwant : want ≠ 0) (h : stop? reply = some stop) :
    Follows want (reply :: tape) { stop := some stop } := by
  have hfront : front (reply :: tape) = [] := front_cons_of_some h
  have hfewer : ¬(joined []).length = want := Ne.symm hwant
  constructor
  · rw [hfront]
    rfl
  · rw [hfront]
    exact Nat.zero_le _
  · rw [hfront, if_neg hfewer, List.findSome?_cons, h]
  · rw [hfront, if_neg hfewer]
    rfl

theorem Follows.retry {d : Delivery} (hd : Follows want tape d) (h : stop? reply = none)
    (hnothing : octets reply = []) : Follows want (reply :: tape) d := by
  have hfront : front (reply :: tape) = reply :: front tape := front_cons_of_none h
  have hjoined : joined (front (reply :: tape)) = joined (front tape) := by
    rw [hfront, joined, List.flatMap_cons, hnothing]
    rfl
  have hchunks : chunks (front (reply :: tape)) = chunks (front tape) := by
    rw [hfront, chunks, List.countP_cons, hnothing]
    rfl
  have hfind : (reply :: tape).findSome? stop? = tape.findSome? stop? := by
    rw [List.findSome?_cons, h]
  obtain ⟨hgot, hle, hstop, hshort⟩ := hd
  rw [← hjoined] at hgot hle hstop hshort
  rw [← hfind] at hstop
  rw [← hchunks] at hshort
  exact ⟨hgot, hle, hstop, hshort⟩

theorem Follows.chunk {d : Delivery} {chunk : Bytes} (hchunk : chunk ≠ [])
    (hle : chunk.length ≤ want) (hd : Follows (want - chunk.length) tape d) :
    Follows want (.ok chunk :: tape) (d.after chunk (chunk.length < want)) := by
  have hgoesOn : stop? (.ok chunk) = none := by
    cases chunk with
    | nil => exact absurd rfl hchunk
    | cons c chunk => rfl
  have hfront : front (.ok chunk :: tape) = .ok chunk :: front tape := front_cons_of_none hgoesOn
  have hjoined : joined (front (.ok chunk :: tape)) = chunk ++ joined (front tape) := by
    rw [hfront]
    rfl
  have hchunks : chunks (front (.ok chunk :: tape)) = chunks (front tape) + 1 := by
    rw [hfront, chunks, List.countP_cons, if_pos (by simp [octets, hchunk])]
    rfl
  have hnone : (joined (front tape)).length = 0 ↔ chunks (front tape) = 0 := by
    rw [List.length_eq_zero_iff, chunks_eq_zero_iff]
  have hwhole : (chunk ++ joined (front tape)).length = want ↔
      (joined (front tape)).length = want - chunk.length := by
    rw [List.length_append]
    omega
  obtain ⟨hgot, hfewer, hstop, hshort⟩ := hd
  constructor
  · rw [hjoined, ← hgot]
    rfl
  · rw [hjoined, List.length_append]
    omega
  · rw [hjoined, List.findSome?_cons, hgoesOn]
    simp only [hwhole]
    exact hstop
  · rw [hjoined, hchunks]
    simp only [hwhole, Delivery.after, hshort]
    -- A chunk that was all that was wanted is the last one.
    rcases Nat.lt_or_eq_of_le hle with hlt | rfl
    · rw [decide_eq_true hlt, Bool.toNat_true]
      split <;> omega
    · rw [Nat.sub_self] at hfewer ⊢
      rw [decide_eq_false (Nat.lt_irrefl _), Bool.toNat_false]
      split <;> omega

theorem follows_of_read {d : Delivery} {needed : Nat} (h : s.read want = (reply, after))
    (hstep : ∀ calls, needed ≤ calls →
      Follows want (reply :: after.replies calls (want - (octets reply).length)) d) :
    ∀ calls, needed + 1 ≤ calls → Follows want (s.replies calls want) d := by
  intro calls hle
  obtain ⟨more, rfl⟩ := Nat.exists_eq_add_of_le' hle
  rw [← Nat.add_assoc, replies_succ h]
  exact hstep (more + needed) (Nat.le_add_left ..)

theorem follows_fill (want : Nat) (s : Source) :
    ∃ needed, (s.fill want).2.calls = s.calls + needed ∧
      ∀ calls, needed ≤ calls → Follows want (s.replies calls want) (s.fill want).1 := by
  have hcalls {want : Nat} {s after : Source} {reply : Reply} (h : s.read want = (reply, after)) :
      after.calls = s.calls + 1 := by rw [← calls_read want s, h]
  fun_induction fill want s with
  | case1 s => exact ⟨0, rfl, fun calls _ => follows_of_nothing octets_replies_zero⟩
  | case2 want s hw after h =>
    exact ⟨1, hcalls h, follows_of_read h fun calls _ => follows_of_stop hw rfl⟩
  | case3 want s hw c chunk after h rest ih =>
    obtain ⟨needed, hneeded, hrest⟩ := ih
    refine ⟨needed + 1, ?_, follows_of_read h fun calls hle =>
      (hrest calls hle).chunk (List.cons_ne_nil c chunk) (read_eq_ok h).1⟩
    show rest.2.calls = _
    rw [hneeded, hcalls h, Nat.add_assoc, Nat.add_comm 1]
  | case4 want s hw fault after h hi ih =>
    obtain ⟨needed, hneeded, hrest⟩ := ih
    refine ⟨needed + 1, ?_, follows_of_read h fun calls hle =>
      (hrest calls hle).retry (if_pos hi) rfl⟩
    rw [hneeded, hcalls h, Nat.add_assoc, Nat.add_comm 1]
  | case5 want s hw fault after h hi =>
    exact ⟨1, hcalls h, follows_of_read h fun calls _ => follows_of_stop hw (if_neg hi)⟩

theorem follows_of_bound (want : Nat) (s : Source) :
    Follows want (s.replies (s.script.length + 2) want) (s.fill want).1 := by
  obtain ⟨needed, hneeded, hfollows⟩ := follows_fill want s
  have hbound := calls_fill_le want s
  exact hfollows _ (by omega)

end Source

namespace Channel

open Medium Reply

variable {c : Channel} {source : Source} {want : Nat}

theorem source_receive (hsource : c.source = some source) :
    (c.receive want).2.source = some (source.fill want).2 := by
  unfold receive
  simp only [hsource]
  split <;> rfl

theorem receive_of_none (hsource : c.source = some source)
    (hstop : (source.fill want).1.stop = none) :
    c.receive want = (⟨(source.fill want).1.got, none⟩,
      { c with
        source := some (source.fill want).2
        consumed := c.consumed + want
        counters := (c.counters.addShortReads (source.fill want).1.shortReads).addRead want }) := by
  unfold receive
  simp only [hsource, hstop]

theorem receive_of_some {stop : Stop} (hsource : c.source = some source)
    (hstop : (source.fill want).1.stop = some stop) :
    let e := stop.sourceError (source.fill want).1.got.length want
    c.receive want = (⟨(source.fill want).1.got, some e⟩,
      { c with
        source := some (source.fill want).2
        counters := c.counters.addShortReads
          (source.fill want).1.shortReads }.failRead want e) := by
  intro e
  unfold receive
  simp only [hsource, hstop]
  rfl

/-- A read into slots is an exact read, whatever the source does. It makes at most one call for each
event of the script and two more, and none where there are no slots. It succeeds if and only if the
replies hand over all that is wanted before one of them is empty or a fault other than an interrupt;
the slots then hold it in order. Otherwise it fails as that reply says, and what came before counts
for nothing but short reads. -/
theorem readInto_is_exact (c : Channel) (source : Source) (hsource : c.source = some source)
    (dest : Bytes) :
    let n := dest.length
    let tape := source.replies (source.script.length + 2) n
    let got := joined (front tape)
    let k := got.length
    let filled := (readInto dest c).1
    let after := (readInto dest c).2
    (∃ last, after.source = some last ∧ last.calls ≤ source.calls + source.script.length + 2 ∧
      (n = 0 → last = source)) ∧
    (filled.failure = none ↔ k = n) ∧
    (k = n → filled.slots = got ∧ after.consumed = c.consumed + n ∧
      after.counters = { c.counters with
        bytesRead := c.counters.bytesRead + n
        reads := c.counters.reads + 1
        shortReads := c.counters.shortReads + (chunks (front tape) - 1) }) ∧
    (k ≠ n → k < n ∧
      (tape.findSome? stop? = some .dry ∧
          filled.failure = some (.sourceFailure s!"source exhausted after {k} of {n} bytes") ∨
        ∃ fault, tape.findSome? stop? = some (.fault fault) ∧
          filled.failure = some (.sourceFailure fault.text)) ∧
      after.consumed = c.consumed ∧
      after.counters = { c.counters with
        readFailures := c.counters.readFailures + 1
        shortReads := c.counters.shortReads + chunks (front tape) }) := by
  intro n tape got k filled after
  obtain ⟨hgot, hle, hstop, hshort⟩ := Source.follows_of_bound n source
  have hnone : (source.fill n).1.stop = none ↔ k = n := by
    rw [(Source.fill_delivers n source).stop_eq_none_iff, hgot]
  have hreadInto : readInto dest c = (⟨(c.receive n).1.failure, overwrite (c.receive n).1.got dest⟩,
      (c.receive n).2) := readInto_of_receive rfl
  have hfilled : filled = ⟨(c.receive n).1.failure, overwrite (c.receive n).1.got dest⟩ :=
    congrArg Prod.fst hreadInto
  have hafter : after = (c.receive n).2 := congrArg Prod.snd hreadInto
  refine ⟨⟨(source.fill n).2, ?_, Source.calls_fill_le n source, fun hzero => ?_⟩, ?_⟩
  · rw [hafter, source_receive hsource]
  · rw [hzero, Source.fill, if_pos rfl]
  by_cases hwhole : k = n
  · rw [if_pos hwhole] at hshort
    rw [receive_of_none hsource (hnone.mpr hwhole), hgot, hshort] at hfilled hafter
    rw [hfilled, hafter]
    refine ⟨⟨fun _ => hwhole, fun _ => rfl⟩, fun _ => ⟨?_, rfl, rfl⟩,
      fun hpart => absurd hwhole hpart⟩
    exact overwrite_of_length_eq hwhole.symm
  · rw [if_neg hwhole] at hstop hshort
    obtain ⟨stop, hsome⟩ := Option.ne_none_iff_exists'.mp (mt hnone.mp hwhole)
    have hreceive := receive_of_some hsource hsome
    rw [hgot, hshort] at hreceive
    rw [hreceive] at hfilled hafter
    rw [hsome] at hstop
    rw [hfilled, hafter]
    refine ⟨⟨fun h => absurd h (Option.some_ne_none _), fun h => absurd h hwhole⟩,
      fun h => absurd h hwhole, fun _ => ⟨Nat.lt_of_le_of_ne hle hwhole, ?_, rfl, rfl⟩⟩
    cases stop with
    | dry => exact Or.inl ⟨hstop.symm, rfl⟩
    | fault fault => exact Or.inr ⟨fault, hstop.symm, rfl⟩

theorem trickled_read_runs_dry :
    let source := Source.ofBytes [1, 2, 3] [.transfer 2, .fail .interrupt, .transfer 9]
    let c := Channel.reader source
    let read := readInto [0, 0, 0, 0, 0] c
    c.source = some source ∧
      read.1.failure = some (.sourceExhausted 3 5) ∧
      read.2.counters = { readFailures := 1, shortReads := 2 } := by
  intro source c read
  obtain ⟨-, -, -, hpart⟩ := readInto_is_exact c source rfl [0, 0, 0, 0, 0]
  obtain ⟨-, hdry | ⟨fault, hfault, -⟩, -, hcounters⟩ := hpart (by decide)
  · exact ⟨rfl, hdry.2, hcounters⟩
  · have hstop : (source.replies 5 5).findSome? stop? = some .dry := by decide
    cases hstop.symm.trans hfault

end Channel
end OctetStream
