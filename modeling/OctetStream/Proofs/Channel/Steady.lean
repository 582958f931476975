import OctetStream.Channel

/-! Endpoints that only delay. However their scripts cut a transfer and interrupt it, a steady sink
accepts all that is offered, and a steady source delivers all that is wanted or, if it has less,
all that it has. -/

namespace OctetStream

def Event.Delays : Event → Prop
  | transfer count => 0 < count
  | fail fault => fault.isInterrupt = true

instance : DecidablePred Event.Delays
  | .transfer count => inferInstanceAs (Decidable (0 < count))
  | .fail fault => inferInstanceAs (Decidable (fault.isInterrupt = true))

theorem Cursor.advance_of_remaining_le {n : Nat} {c : Cursor} (h : c.remaining ≤ n) :
    c.advance n = c.advance c.remaining := by
  simp only [advance, remaining] at h ⊢
  rw [List.take_of_length_le h, List.drop_of_length_le h, List.take_length, List.drop_length]

namespace Source

structure Steady (s : Source) : Prop where
  delays : ∀ event ∈ s.script, event.Delays
  intact : s.broken = none

theorem Steady.read {want : Nat} {s after : Source} {r : Except Fault Bytes} (hs : s.Steady)
    (h : s.read want = (r, after)) : after.Steady := by
  have hbroken : after.broken = s.broken := by
    rw [show after = (s.read want).2 by rw [h]]
    unfold Source.read
    split <;> rfl
  refine ⟨fun event he => hs.delays event ?_, hbroken.trans hs.intact⟩
  rw [show after.script = s.script.tail by rw [← script_read want s, h]] at he
  exact List.mem_of_mem_tail he

theorem Steady.isInterrupt {want : Nat} {s after : Source} {fault : Fault} (hs : s.Steady)
    (h : s.read want = (.error fault, after)) : fault.isInterrupt = true := by
  cases hscript : s.script with
  | nil => simp [read_of_script_eq_nil want hscript hs.intact] at h
  | cons event script =>
    have hdelays := hs.delays event (by simp [hscript])
    cases event with
    | transfer count => simp [Source.read, nextEvent, hscript] at h
    | fail fault' =>
      simp only [Source.read, nextEvent, hscript, Prod.mk.injEq, Except.error.injEq] at h
      exact h.1 ▸ hdelays

theorem Steady.ahead_eq_nil {want : Nat} {s after : Source} (hs : s.Steady) (hw : want ≠ 0)
    (h : s.read want = (.ok [], after)) : s.cursor.ahead = [] := by
  have hnext : ∃ count, 0 < count ∧ s.nextEvent want = .transfer count := by
    unfold nextEvent
    cases hscript : s.script with
    | nil => exact ⟨want, Nat.pos_of_ne_zero hw, by simp only [hs.intact]⟩
    | cons event script =>
      have hdelays := hs.delays event (by simp [hscript])
      cases event with
      | transfer count => exact ⟨count, hdelays, rfl⟩
      | fail fault =>
        simp [Source.read, nextEvent, hscript] at h
  -- Something was wanted and the event hands something over, so there was nothing to hand over.
  obtain ⟨count, hcount, hnext⟩ := hnext
  simp only [Source.read, hnext, Prod.mk.injEq, Except.ok.injEq, List.take_eq_nil_iff] at h
  rcases h.1 with hzero | hnil
  · omega
  · exact hnil

theorem Steady.fill {s : Source} (hs : s.Steady) (want : Nat) :
    (s.fill want).2.Steady ∧ ((s.fill want).1.stop = none ∨
      (s.fill want).1.stop = some .dry ∧ (s.fill want).2.cursor.ahead = []) := by
  fun_induction Source.fill want s with
  | case1 s => exact ⟨hs, Or.inl rfl⟩
  | case2 want s hw after h =>
    refine ⟨hs.read h, Or.inr ⟨rfl, ?_⟩⟩
    rw [(read_eq_ok h).2.2]
    exact hs.ahead_eq_nil hw h
  | case3 want s hw c chunk after h rest ih => exact ih (hs.read h)
  | case4 want s hw fault after h hi ih => exact ih (hs.read h)
  | case5 want s hw fault after h hi => exact absurd (hs.isInterrupt h) hi

theorem Steady.fill_eq {s : Source} (hs : s.Steady) (want : Nat) :
    (s.fill want).1.got = s.cursor.ahead.take want ∧
      (s.fill want).1.stop = (if want ≤ s.cursor.remaining then none else some .dry) ∧
      (s.fill want).2.cursor = s.cursor.advance want := by
  obtain ⟨hgot, hle, hstop, hafter⟩ := fill_delivers want s
  have hlen : (s.fill want).1.got.length ≤ s.cursor.remaining := by
    rw [hgot]
    exact List.length_take_le' ..
  rcases (hs.fill want).2 with hnone | ⟨hdry, hnil⟩
  · rw [hstop.mp hnone] at hgot hafter hlen
    exact ⟨hgot, by rw [hnone, if_pos hlen], hafter⟩
  · -- All that the source had was too little, since otherwise it would not have run dry.
    rw [hafter, Cursor.ahead_advance, List.drop_eq_nil_iff] at hnil
    have hall : (s.fill want).1.got.length = s.cursor.remaining := Nat.le_antisymm hlen hnil
    have hlt : s.cursor.remaining < want := by
      have hne : (s.fill want).1.got.length ≠ want := fun he => by simp [hstop.mpr he] at hdry
      omega
    refine ⟨?_, by rw [hdry, if_neg (Nat.not_le.mpr hlt)], ?_⟩
    · rw [hgot, hall, List.take_of_length_le (Nat.le_of_lt hlt)]
      exact List.take_length
    · rw [hafter, hall, Cursor.advance_of_remaining_le (Nat.le_of_lt hlt)]

end Source

namespace Sink

def Steady (s : Sink) : Prop :=
  ∀ event ∈ s.script, event.Delays

theorem Steady.write {data : Bytes} {s after : Sink} {r : Except Fault Nat} (hs : s.Steady)
    (h : s.write data = (r, after)) : after.Steady := by
  intro event he
  rw [show after.script = s.script.tail by rw [← script_write data s, h]] at he
  exact hs event (List.mem_of_mem_tail he)

theorem Steady.isInterrupt {data : Bytes} {s after : Sink} {fault : Fault} (hs : s.Steady)
    (h : s.write data = (.error fault, after)) : fault.isInterrupt = true := by
  cases hscript : s.script with
  | nil => simp [Sink.write, hscript] at h
  | cons event script =>
    have hdelays := hs event (by simp [hscript])
    cases event with
    | transfer count => simp [Sink.write, hscript] at h
    | fail fault' =>
      simp only [Sink.write, hscript, Prod.mk.injEq, Except.error.injEq] at h
      exact h.1 ▸ hdelays

theorem Steady.write_ne_zero {c : UInt8} {rest : Bytes} {s after : Sink} (hs : s.Steady) :
    s.write (c :: rest) ≠ (.ok 0, after) := by
  intro h
  cases hscript : s.script with
  | nil => simp [Sink.write, hscript] at h
  | cons event script =>
    have hdelays := hs event (by simp [hscript])
    cases event with
    | transfer count =>
      have hpos : 0 < count := hdelays
      simp only [Sink.write, hscript, Prod.mk.injEq, Except.ok.injEq, List.length_take,
        List.length_cons] at h
      omega
    | fail fault => simp [Sink.write, hscript] at h

theorem Steady.drain {s : Sink} (hs : s.Steady) (data : Bytes) :
    (s.drain data).1.2 = none ∧ (s.drain data).2.Steady := by
  fun_induction Sink.drain data s with
  | case1 s => exact ⟨rfl, hs⟩
  | case2 s c rest after h => exact absurd h hs.write_ne_zero
  | case3 s c rest n after h more ih => exact ih (hs.write h)
  | case4 s c rest fault after h hi ih => exact ih (hs.write h)
  | case5 s c rest fault after h hi => exact absurd (hs.isInterrupt h) hi

theorem Steady.contents_drain {s : Sink} (hs : s.Steady) (data : Bytes) :
    (s.drain data).2.contents = s.contents ++ data := by
  obtain ⟨-, hstop, hafter⟩ := drain_accepts data s
  rw [hafter, hstop.mp (hs.drain data).1, List.take_length]

theorem flush_write (data : Bytes) (s : Sink) :
    (s.write data).2.flushFault = s.flushFault ∧ (s.write data).2.flushes = s.flushes := by
  unfold write
  split <;> exact ⟨rfl, rfl⟩

theorem flush_drain (data : Bytes) (s : Sink) :
    (s.drain data).2.flushFault = s.flushFault ∧ (s.drain data).2.flushes = s.flushes := by
  fun_induction Sink.drain data s with
  | case1 s => exact ⟨rfl, rfl⟩
  | case2 s c rest after h => simpa only [h] using flush_write (c :: rest) s
  | case3 s c rest n after h more ih =>
    have hwrite := flush_write (c :: rest) s
    rw [h] at hwrite
    exact ⟨ih.1.trans hwrite.1, ih.2.trans hwrite.2⟩
  | case4 s c rest fault after h hi ih =>
    have hwrite := flush_write (c :: rest) s
    rw [h] at hwrite
    exact ⟨ih.1.trans hwrite.1, ih.2.trans hwrite.2⟩
  | case5 s c rest fault after h hi => simpa only [h] using flush_write (c :: rest) s

end Sink

namespace Channel

theorem receive_of_steady {c : Channel} {source : Source} (hc : c.source = some source)
    (hs : source.Steady) (want : Nat) :
    ∃ (after : Source) (short : Nat), after.Steady ∧ after.cursor = source.cursor.advance want ∧
      c.receive want =
        let d := { c with source := some after, counters := c.counters.addShortReads short }
        if want ≤ source.cursor.remaining then
          (⟨source.cursor.ahead.take want, none⟩,
            { d with consumed := d.consumed + want, counters := d.counters.addRead want })
        else
          let e := .sourceExhausted source.cursor.remaining want
          (⟨source.cursor.ahead, some e⟩, d.failRead want e) := by
  obtain ⟨hgot, hstop, hcursor⟩ := hs.fill_eq want
  refine ⟨(source.fill want).2, (source.fill want).1.shortReads, (hs.fill want).1, hcursor, ?_⟩
  unfold receive
  simp only [hc, hstop, hgot]
  by_cases hw : want ≤ source.cursor.remaining
  · simp only [if_pos hw]
  · have htake : source.cursor.ahead.take want = source.cursor.ahead :=
      List.take_of_length_le (Nat.le_of_not_le hw)
    simp only [if_neg hw, htake]
    rfl

theorem send_of_steady {c : Channel} {sink : Sink} (hc : c.sink = some sink) (hs : sink.Steady)
    (data : Bytes) :
    ∃ after : Sink, after.Steady ∧ after.contents = sink.contents ++ data ∧
      after.flushFault = sink.flushFault ∧ after.flushes = sink.flushes ∧
      c.send data =
        .ok () { c with sink := some after, counters := c.counters.addWrite data.length } := by
  obtain ⟨hstop, hsteady⟩ := hs.drain data
  refine ⟨(sink.drain data).2, hsteady, hs.contents_drain data, (Sink.flush_drain data sink).1,
    (Sink.flush_drain data sink).2, ?_⟩
  unfold send
  simp only [hc, hstop]

end Channel
end OctetStream
