import OctetStream.Proofs.Channel.Steady
import OctetStream.Proofs.Framing

/-! A channel is readable as long as its source is steady, and writable as long as its sink is. -/

namespace OctetStream.Channel

open Medium

def ahead (c : Channel) : Bytes :=
  match c.source with
  | some source => source.cursor.ahead
  | none => []

def written (c : Channel) : Bytes :=
  match c.sink with
  | some sink => sink.contents
  | none => []

def SourceSteady (c : Channel) : Prop :=
  ∃ source, c.source = some source ∧ source.Steady

def SinkSteady (c : Channel) : Prop :=
  ∃ sink, c.sink = some sink ∧ sink.Steady

theorem supply_eq (c : Channel) : c.supply = c.ahead.length := by
  unfold supply ahead
  cases c.source <;> rfl

theorem ahead_of_source {c : Channel} {source : Source} (h : c.source = some source) :
    c.ahead = source.cursor.ahead := by
  rw [ahead, h]

theorem ahead_of_cursor {c : Channel} {source after : Source} {n : Nat} (d : Channel)
    (hbefore : c.source = some source) (hafter : d.source = some after)
    (hcursor : after.cursor = source.cursor.advance n) : d.ahead = c.ahead.drop n := by
  rw [ahead_of_source hbefore, ahead_of_source hafter, hcursor, Cursor.ahead_advance]

theorem permit_of_le {n : Nat} {c : Channel} (h : n ≤ c.limit) : permit n c = .ok () c :=
  if_pos h

theorem permit_of_lt {n : Nat} {c : Channel} (h : c.limit < n) :
    permit n c = .error (.lengthLimit n c.limit) c :=
  if_neg (Nat.not_le.mpr h)

theorem demand_of_le {n : Nat} {c : Channel} (hc : c.SourceSteady) (hn : n ≤ c.ahead.length) :
    ∃ d, demand receive n c = .ok (c.ahead.take n) d ∧ Passed ahead SourceSteady 1 n c d := by
  obtain ⟨source, hsource, hsteady⟩ := hc
  obtain ⟨after, short, hafter, hcursor, hreceive⟩ := receive_of_steady hsource hsteady n
  have hahead := ahead_of_source hsource
  have hle : n ≤ source.cursor.remaining := by
    rw [hahead] at hn
    exact hn
  rw [if_pos hle, ← hahead] at hreceive
  refine ⟨_, by rw [demand, hreceive], ?_⟩
  constructor
  · exact ⟨after, rfl, hafter⟩
  · exact ahead_of_cursor _ hsource rfl hcursor
  · rfl
  · rfl
  · rfl
  · rfl

theorem demand_of_lt {n : Nat} {c : Channel} (hc : c.SourceSteady) (hn : c.ahead.length < n) :
    ∃ text d, demand receive n c = .error (.sourceFailure text) d ∧ d.ahead = [] ∧
      d.consumed = c.consumed := by
  obtain ⟨source, hsource, hsteady⟩ := hc
  obtain ⟨after, short, -, hcursor, hreceive⟩ := receive_of_steady hsource hsteady n
  have hahead := ahead_of_source hsource
  have hmore : ¬n ≤ source.cursor.remaining := by
    rw [hahead] at hn
    exact Nat.not_le.mpr hn
  rw [if_neg hmore] at hreceive
  let e := StreamError.sourceExhausted source.cursor.remaining n
  let stopped := { c with source := some after, counters := c.counters.addShortReads short }
  have hdemand : demand receive n c = .error e (stopped.failRead n e) := by rw [demand, hreceive]
  have hgone : c.ahead.drop n = [] := List.drop_eq_nil_of_le (Nat.le_of_lt hn)
  exact ⟨_, _, hdemand, (ahead_of_cursor stopped hsource rfl hcursor).trans hgone, rfl⟩

instance : Readable Channel where
  ahead := ahead
  Ready := SourceSteady
  fetch_of_le hc hn := demand_of_le hc hn
  readBytes_of_le {n c} hc hn hstored := by
    show ∃ d, demandAllocated receive n c = _ ∧ _
    rw [demandAllocated, if_neg (Nat.not_lt.mpr hstored)]
    exact demand_of_le hc hn
  atomically_of_ok h := h
  length_ahead_le c := Nat.le_of_eq c.supply_eq.symm

instance : Writable Channel where
  written := written
  Ready := SinkSteady
  send_of_ready {c} hc octets := by
    obtain ⟨sink, hsink, hsteady⟩ := hc
    obtain ⟨after, hafter, hcontents, -, -, hsend⟩ := send_of_steady hsink hsteady octets
    have hwritten : c.written = sink.contents := by rw [written, hsink]
    exact ⟨_, hsend, ⟨after, rfl, hafter⟩, by rw [hwritten, ← hcontents]; rfl, rfl, rfl⟩

end OctetStream.Channel
