import OctetStream.Proofs.Buffer.Taken
import OctetStream.Proofs.RoundTrip

/-! Fields that end at a NUL. The search takes one octet at a time, so every octet up to the NUL is
a read of its own; where there is no NUL it comes to the end of the buffer and is undone. Content
that holds a NUL is read back only up to there. -/

namespace OctetStream

namespace Buffer

open Medium

variable {b after : Buffer}

structure Stepped (n : Nat) (b after : Buffer) : Prop where
  unread_eq : after.unread = b.unread.drop n
  position_eq : after.position = b.position + n
  reads_eq : after.counters.reads = b.counters.reads + n
  bytesRead_eq : after.counters.bytesRead = b.counters.bytesRead + n

theorem stepped_of_passed {n : Nat} (h : Passed unread (fun _ => True) n n b after) :
    Stepped n b after where
  unread_eq := h.ahead_eq
  position_eq := h.offset_eq
  reads_eq := congrArg Counters.reads h.counters_eq
  bytesRead_eq := congrArg Counters.bytesRead h.counters_eq

theorem readUntilNul_of_mem (h : Bytes.nul ∈ b.unread) :
    ∃ after, readUntilNul b = .ok (b.unread.take (b.unread.idxOf Bytes.nul)) after ∧
      Stepped (b.unread.idxOf Bytes.nul + 1) b after := by
  obtain ⟨after, hread, hpassed⟩ :=
    Readable.yields_readUntilNul_of_mem (s := b) trivial h nofun
  exact ⟨after, hread, stepped_of_passed hpassed⟩

theorem readUntilNul_of_not_mem (h : Bytes.nul ∉ b.unread) :
    ∃ after, readUntilNul b = .error (.outOfBounds 1 0 b.size) after := by
  have hall : b.unread = b.unread ++ [] := (List.append_nil _).symm
  obtain ⟨last, hpassed, hwalk⟩ :=
    Readable.walk_collectUntilNul none 0 0 [] (s := b) trivial h hall nofun
  have hnone : last.remaining = 0 := congrArg List.length (hpassed.ahead_append hall)
  have hposition : last.position = b.size := hpassed.offset_eq
  have hcut : demand receive 1 last = .error (.outOfBounds 1 last.remaining last.position) _ :=
    demand_of_lt (by omega)
  rw [hnone, hposition] at hcut
  have hoctet : readOctet last = .error (.outOfBounds 1 0 b.size) _ := Action.bind_of_error hcut
  rw [Nat.zero_add] at hwalk
  exact ⟨_, hwalk.trans (Action.bind_of_error hoctet)⟩

theorem failedOnce_of_terminated {e : StreamError} (h : readTerminated b = .error e after) :
    FailedOnce b after := by
  have hread : ReadOp.terminated.perform b = .error e after := h
  exact failedOnce_of_perform rfl hread

theorem failedOnce_of_terminatedBytes {e : StreamError}
    (h : readTerminatedBytes b = .error e after) : FailedOnce b after := by
  have hread : ReadOp.terminatedBytes.perform b = .error e after := h
  exact failedOnce_of_perform rfl hread

theorem readTerminated_of_mem (h : Bytes.nul ∈ b.unread) :
    (∀ text, ofUtf8? (b.unread.take (b.unread.idxOf Bytes.nul)) = some text →
      ∃ after, readTerminated b = .ok text after ∧
        Stepped (b.unread.idxOf Bytes.nul + 1) b after) ∧
    (ofUtf8? (b.unread.take (b.unread.idxOf Bytes.nul)) = none →
      ∃ after, readTerminated b = .error (.invalidUtf8 b.position) after ∧ FailedOnce b after) := by
  obtain ⟨after, hread, hstepped⟩ := readUntilNul_of_mem h
  refine ⟨fun text htext => ⟨after, textOf_of_text hread htext, hstepped⟩, fun htext => ?_⟩
  obtain ⟨failed, hfailed⟩ := textOf_of_not_text hread htext
  exact ⟨failed, hfailed, failedOnce_of_terminated hfailed⟩

theorem terminated_of_not_mem (h : Bytes.nul ∉ b.unread) :
    (∃ after, readTerminatedBytes b = .error (.outOfBounds 1 0 b.size) after ∧
      FailedOnce b after) ∧
    ∃ after, readTerminated b = .error (.outOfBounds 1 0 b.size) after ∧ FailedOnce b after := by
  obtain ⟨last, hread⟩ := readUntilNul_of_not_mem h
  have hbytes : readTerminatedBytes b = .error (.outOfBounds 1 0 b.size) _ :=
    atomically_of_error hread
  have hbody : (readUntilNul >>= fun got => ofExcept (textAt b.position got)) b =
      .error (.outOfBounds 1 0 b.size) last := Action.bind_of_error hread
  have htext : readTerminated b = .error (.outOfBounds 1 0 b.size) _ := atomically_of_error hbody
  exact ⟨⟨_, hbytes, failedOnce_of_terminatedBytes hbytes⟩,
    _, htext, failedOnce_of_terminated htext⟩

theorem write_terminated_of_isExhausted (content : Bytes) (hexhausted : b.isExhausted = true) :
    ∃ written, (WriteOp.terminated content).perform b = .ok () written ∧
      written.unread = content ++ [Bytes.nul] := by
  refine ⟨_, WriteOp.perform_of_ok rfl, ?_⟩
  show b.unread ++ (content ++ [Bytes.nul]) = _
  rw [show b.unread = [] from List.isEmpty_iff.mp hexhausted, List.nil_append]

theorem readTerminatedBytes_of_field {content : Bytes} (h : b.unread = content ++ [Bytes.nul]) :
    ∃ after, readTerminatedBytes b = .ok content.untilNul after ∧
      after.remaining = content.length - content.untilNul.length := by
  have hmem : Bytes.nul ∈ b.unread := by
    rw [h]
    exact List.mem_append_right _ (List.mem_singleton_self _)
  have huntil : b.unread.untilNul = content.untilNul := by
    rw [h]
    exact Bytes.untilNul_append_replicate content 1
  have hlength : b.unread.idxOf Bytes.nul = content.untilNul.length := by
    rw [← huntil, Bytes.length_untilNul hmem]
  obtain ⟨after, hread, hstepped⟩ := readUntilNul_of_mem hmem
  rw [← Bytes.untilNul_eq_take, huntil] at hread
  refine ⟨after, atomically_of_ok hread, ?_⟩
  show after.unread.length = _
  rw [hstepped.unread_eq, hlength, h, List.length_drop, List.length_append, List.length_singleton]
  exact Nat.add_sub_add_right ..

theorem whole_iff_clean {content : Bytes}
    (h : after.remaining = content.length - content.untilNul.length) :
    content.untilNul = content ∧ after.isExhausted = true ↔ Bytes.nul ∉ content := by
  rw [isExhausted_iff, h, ← Bytes.untilNul_eq_self_iff]
  refine ⟨And.left, fun hself => ⟨hself, ?_⟩⟩
  rw [hself, Nat.sub_self]

/-- What a read up to a NUL makes of any buffer. The search comes to its end by itself. With a NUL
ahead it takes the octets before the first one and that NUL, one by one, and only content that is no
text is put back. Without a NUL both reads lack one octet at the end of the buffer and leave no
trace but the failure. So a terminated field at the end of a buffer comes back up to its first NUL.
-/
theorem terminated_reads_end_at_first_nul (b : Buffer) :
    let k := b.unread.idxOf Bytes.nul
    let content := b.unread.take k
    (∀ fuel, b.remaining ≤ fuel → collectUntilNul none fuel 0 [] b = readUntilNul b) ∧
    (Bytes.nul ∈ b.unread →
      (∃ after, readTerminatedBytes b = .ok content after ∧ Stepped (k + 1) b after) ∧
      (∀ text, ofUtf8? content = some text →
        ∃ after, readTerminated b = .ok text after ∧ Stepped (k + 1) b after) ∧
      (ofUtf8? content = none →
        ∃ after, readTerminated b = .error (.invalidUtf8 b.position) after ∧
          FailedOnce b after)) ∧
    (Bytes.nul ∉ b.unread →
      (∃ after, readTerminatedBytes b = .error (.outOfBounds 1 0 b.size) after ∧
        FailedOnce b after) ∧
      ∃ after, readTerminated b = .error (.outOfBounds 1 0 b.size) after ∧ FailedOnce b after) ∧
    (b.isExhausted = true → ∀ c : Bytes, ∃ written after,
      (WriteOp.terminated c).perform b = .ok () written ∧
      readTerminatedBytes written = .ok c.untilNul after ∧
      after.remaining = c.length - c.untilNul.length ∧
      (c.untilNul = c ∧ after.isExhausted = true ↔ Bytes.nul ∉ c)) := by
  intro k content
  refine ⟨fun fuel hfuel => ?_, fun hmem => ⟨?_, readTerminated_of_mem hmem⟩,
    terminated_of_not_mem, fun hexhausted c => ?_⟩
  · exact collectUntilNul_congr none 0 [] hfuel (Nat.le_refl _)
  · obtain ⟨after, hread, hstepped⟩ := readUntilNul_of_mem hmem
    exact ⟨after, atomically_of_ok hread, hstepped⟩
  · obtain ⟨written, hwrite, hunread⟩ := write_terminated_of_isExhausted c hexhausted
    obtain ⟨after, hread, hremaining⟩ := readTerminatedBytes_of_field hunread
    exact ⟨written, after, hwrite, hread, hremaining, whole_iff_clean hremaining⟩

end Buffer
end OctetStream
