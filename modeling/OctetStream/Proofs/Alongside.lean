import OctetStream.Proofs.Buffer.Framing
import OctetStream.Proofs.Buffer.Within
import OctetStream.Proofs.Channel.Framing

/-! A buffer and a channel side by side over the same octets, which are no more than the channel
takes as a payload. A read that stays within the limit of the channel succeeds on both or on
neither. -/

namespace OctetStream

open Medium

/-- A buffer and a channel that have read as much of the same octets, of which no more are left than
the channel takes as a payload. -/
structure Level (limit : Nat) (b : Buffer) (c : Channel) : Prop where
  steady : c.SourceSteady
  ahead_eq : c.ahead = b.unread
  order_eq : c.order = b.order
  limit_eq : c.limit = limit
  offset_eq : c.consumed = b.position
  reads_eq : c.counters.reads = b.counters.reads
  bytesRead_eq : c.counters.bytesRead = b.counters.bytesRead
  unread_le : b.unread.length ≤ limit

inductive SameCause : StreamError → StreamError → Prop
  | notText (pos : Nat) : SameCause (.invalidUtf8 pos) (.invalidUtf8 pos)
  | cut (need left pos : Nat) (text : String) :
    SameCause (.outOfBounds need left pos) (.sourceFailure text)

def alongside (limit : Nat) : Comparison Buffer Channel where
  states := Level limit
  failures e _ f _ := SameCause e f
  waives _ := False

variable {limit : Nat} {b : Buffer} {c : Channel}

namespace Level

theorem passed {k n : Nat} {b' : Buffer} {c' : Channel} (h : Level limit b c)
    (hb : Passed Buffer.unread (fun _ => True) k n b b')
    (hc : Passed Channel.ahead Channel.SourceSteady k n c c') : Level limit b' c' where
  steady := hc.ready
  ahead_eq := by rw [hc.ahead_eq, hb.ahead_eq, h.ahead_eq]
  order_eq := hc.order_eq.trans (h.order_eq.trans hb.order_eq.symm)
  limit_eq := (Option.some.inj hc.limit_eq).trans h.limit_eq
  offset_eq := by
    calc c'.consumed = c.consumed + n := hc.offset_eq
      _ = b.position + n := by rw [h.offset_eq]
      _ = b'.position := hb.offset_eq.symm
  reads_eq := by
    calc c'.counters.reads = c.counters.reads + k := congrArg Counters.reads hc.counters_eq
      _ = b.counters.reads + k := by rw [h.reads_eq]
      _ = b'.counters.reads := (congrArg Counters.reads hb.counters_eq).symm
  bytesRead_eq := by
    calc c'.counters.bytesRead = c.counters.bytesRead + n :=
          congrArg Counters.bytesRead hc.counters_eq
      _ = b.counters.bytesRead + n := by rw [h.bytesRead_eq]
      _ = b'.counters.bytesRead := (congrArg Counters.bytesRead hb.counters_eq).symm
  unread_le := by
    rw [hb.ahead_eq, List.length_drop]
    exact Nat.le_trans (Nat.sub_le ..) h.unread_le

theorem supply_eq (h : Level limit b c) : c.supply = b.remaining :=
  c.supply_eq.trans (congrArg List.length h.ahead_eq)

end Level

namespace Alongside

open Comparison

theorem related_fetch (n : Nat) :
    (alongside limit).Related (demand Buffer.receive n) (demand Channel.receive n) := by
  intro b c h
  have hlength : c.ahead.length = b.remaining := congrArg List.length h.ahead_eq
  rcases Nat.lt_or_ge b.remaining n with hlt | hle
  · obtain ⟨text, d, hchannel, -, -⟩ := Channel.demand_of_lt h.steady (hlength ▸ hlt)
    rw [Buffer.demand_of_lt hlt, hchannel]
    exact Or.inr (.cut ..)
  · obtain ⟨d, hchannel, hpassed⟩ := Channel.demand_of_le h.steady (hlength ▸ hle)
    rw [Buffer.demand_of_le hle, hchannel]
    exact ⟨congrArg (List.take n) h.ahead_eq.symm, h.passed (Buffer.passed_advance hle) hpassed⟩

theorem related_readBytes {n : Nat} (hn : n ≤ Limits.maxAllocation) :
    (alongside limit).Related (readBytes n) (readBytes n) := by
  intro b c h
  show (alongside limit).Results (Buffer.readBytes n b) (demandAllocated Channel.receive n c)
  rw [Buffer.readBytes_eq_demand, demandAllocated, if_neg (Nat.not_lt.mpr hn)]
  exact related_fetch n b c h

theorem related_permit {n : Nat} (hn : n ≤ limit) :
    (alongside limit).Related (permit n) (permit n) := by
  intro b c h
  rw [Channel.permit_of_le (h.limit_eq ▸ hn)]
  exact ⟨rfl, h⟩

-- The octets that were read and those that are left are together within the limit, so the search
-- does not come to it.
theorem results_collectUntilNul (fuel count : Nat) (acc : Bytes) (h : Level limit b c)
    (hcount : count + b.remaining ≤ limit) :
    (alongside limit).Results (collectUntilNul none fuel count acc b)
      (collectUntilNul (some limit) fuel count acc c) := by
  induction fuel generalizing count acc b c with
  | zero => exact ((related_readOctet (related_fetch 1)).bind fun _ => related_pure _) b c h
  | succ fuel ih =>
    refine (related_readOctet (related_fetch 1) b c h).bind_at fun octet b' c' hread hlevel => ?_
    have hleft := Buffer.readOctet_ok hread
    by_cases hnul : octet = Bytes.nul
    · simp only [if_pos hnul]
      exact ⟨rfl, hlevel⟩
    · have hbelow : ¬limit ≤ count := by omega
      simp only [if_neg hnul, if_neg hbelow]
      apply ih (count + 1) (octet :: acc) hlevel
      omega

theorem related_readUntilNul : (alongside limit).Related readUntilNul readUntilNul := by
  intro b c h
  show (alongside limit).Results (collectUntilNul none b.remaining 0 [] b)
    (collectUntilNul (some c.limit) c.supply 0 [] c)
  rw [h.supply_eq, h.limit_eq]
  apply results_collectUntilNul _ _ _ h
  rw [Nat.zero_add]
  exact h.unread_le

theorem agreesWithin : (alongside limit).AgreesWithin limit where
  order h := (Level.order_eq h).symm
  fetch := related_fetch
  readBytes := related_readBytes
  permit := related_permit
  untilNul := related_readUntilNul
  atomically _ hxy := hxy.atomically fun _ _ _ _ => id
  invalidUtf8 := by
    intro b c _ _ h _
    have hoffset : offset c = offset b := h.offset_eq
    rw [hoffset]
    exact .notText _

end Alongside
end OctetStream
