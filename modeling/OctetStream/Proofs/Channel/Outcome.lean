import OctetStream.Channel

/-! What one transfer can make of a channel, over endpoints that may cut it, interrupt it and fail
at any call. -/

namespace OctetStream.Channel

inductive Received (c : Channel) (want : Nat) : Receipt × Channel → Prop
  | noSource (absent : c.source = none) :
    Received c want (⟨[], some .noSource⟩, c.failRead want .noSource)
  | whole {source after : Source} (short : Nat) (present : c.source = some source)
    (enough : want ≤ source.cursor.remaining)
    (cursor_eq : after.cursor = source.cursor.advance want) :
    Received c want (⟨source.cursor.ahead.take want, none⟩,
      { c with
        source := some after
        counters := (c.counters.addShortReads short).addRead want
        consumed := c.consumed + want })
  | part {source after : Source} (short got : Nat) (stop : Stop) (present : c.source = some source)
    (fewer : got < want) (enough : got ≤ source.cursor.remaining)
    (cursor_eq : after.cursor = source.cursor.advance got) :
    Received c want (⟨source.cursor.ahead.take got, some (stop.sourceError got want)⟩,
      { c with
        source := some after
        counters := c.counters.addShortReads short }.failRead want (stop.sourceError got want))

theorem received (c : Channel) (want : Nat) : Received c want (c.receive want) := by
  unfold receive
  cases hsource : c.source with
  | none => exact .noSource hsource
  | some source =>
    obtain ⟨hgot, hle, hstop, hafter⟩ := Source.fill_delivers want source
    rcases hfill : source.fill want with ⟨⟨got, short, stop⟩, after⟩
    simp only [hfill] at hgot hle hstop hafter ⊢
    have henough : got.length ≤ source.cursor.remaining := by
      rw [hgot]
      exact List.length_take_le' ..
    cases stop with
    | none =>
      have hall : got.length = want := hstop.mp rfl
      rw [hall] at hgot hafter henough
      rw [hgot]
      exact .whole short hsource henough hafter
    | some stop =>
      have hfewer : got.length < want := by
        have hne : got.length ≠ want := fun hall => Option.some_ne_none stop (hstop.mpr hall)
        omega
      have hpart := Received.part short got.length stop hsource hfewer henough hafter
      rw [← hgot] at hpart
      exact hpart

inductive Sent (c : Channel) (data : Bytes) : EStateM.Result StreamError Channel Unit → Prop
  | noSink (absent : c.sink = none) : Sent c data (.error .noSink (c.failWrite data.length .noSink))
  | whole {sink after : Sink} (present : c.sink = some sink)
    (contents_eq : after.contents = sink.contents ++ data) :
    Sent c data
      (.ok () { c with sink := some after, counters := c.counters.addWrite data.length })
  | part {sink after : Sink} (accepted : Nat) (stop : Stop) (present : c.sink = some sink)
    (fewer : accepted < data.length)
    (contents_eq : after.contents = sink.contents ++ data.take accepted) :
    Sent c data (.error (stop.sinkError accepted data.length)
      ({ c with sink := some after }.failWrite data.length
        (stop.sinkError accepted data.length)))

theorem sent (c : Channel) (data : Bytes) : Sent c data (c.send data) := by
  unfold send
  cases hsink : c.sink with
  | none => exact .noSink hsink
  | some sink =>
    obtain ⟨hle, hstop, hafter⟩ := Sink.drain_accepts data sink
    rcases hdrain : sink.drain data with ⟨⟨accepted, stop⟩, after⟩
    simp only [hdrain] at hle hstop hafter ⊢
    cases stop with
    | none =>
      have hall : accepted = data.length := hstop.mp rfl
      rw [hall, List.take_length] at hafter
      exact .whole hsink hafter
    | some stop =>
      have hfewer : accepted < data.length := by
        have hne : accepted ≠ data.length := fun hall => Option.some_ne_none stop (hstop.mpr hall)
        omega
      exact .part accepted stop hsink hfewer hafter

theorem contents_flush (s : Sink) : s.flush.2.contents = s.contents := by
  unfold Sink.flush
  split <;> rfl

end OctetStream.Channel
